import TableShell.Proofs.CommandForms
import TableShell.Proofs.InsertionGrammar
import TableShell.Proofs.Messages
import TableShell.Proofs.Recognition

/-
Which insertions are recognised as command lines.

The phrase of a command is recognised as it is written, with single spaces and up to the case of
ASCII letters, while an insertion is read with any blanks in it and up to simple case folding. So a
line that can be read as an insertion is one for the session, or it is no command at all.
-/
namespace TableShell

open Text

namespace Command

/-- No other phrase starts with the letter of the phrase of an insertion. -/
theorem Recognised.prefix_of_head {s : List Char} {command : Command} (h : Recognised s command)
    (hs : (s.map Char.toLower).head? = some 'i') :
    "insert into ".toList <+: s.map Char.toLower := by
  have hne : ∀ {p : Char} {phrase : List Char}, p :: phrase <+: s.map Char.toLower → p = 'i' := by
    intro p phrase hp
    obtain ⟨t, ht⟩ := hp
    rw [← ht] at hs
    exact Option.some.inj hs
  cases h with
  | quit h | listDatabases h | listTables h =>
    rw [beq_iff_eq.1 h] at hs
    exact absurd (Option.some.inj hs) (by decide)
  | createDatabase h | useDatabase h | createTable h | select h =>
    exact absurd (hne (exists_strip?_iff.1 ⟨_, h⟩)) (by decide)
  | insert h => exact exists_strip?_iff.1 ⟨_, h⟩

end Command

namespace Insertion

theorem exists_target {line : String} {insertion : Insertion} (h : read line = .ok insertion) :
    ∃ target, target? (trim line.toList) = some target := by
  rw [read] at h
  cases htarget : target? (trim line.toList) with
  | none => rw [htarget] at h; exact absurd h (by simp)
  | some target => exact ⟨target, rfl⟩

theorem head_of_read {line : String} {insertion : Insertion} (h : read line = .ok insertion) :
    ((trim line.toList).map Char.toLower).head? = some 'i' := by
  obtain ⟨target, htarget⟩ := exists_target h
  obtain ⟨-, insert, _, _, _, hs, hinsert, -⟩ := target?_eq_some_iff.1 htarget
  obtain ⟨c, insert, rfl, hc, -⟩ := List.map_eq_cons_iff.1 hinsert
  rw [hs, List.cons_append, List.map_cons, List.head?_cons, Option.some.injEq]
  rw [foldCase] at hc
  split at hc
  · exact absurd hc (by decide)
  · split at hc
    · exact absurd hc (by decide)
    · exact hc

theorem read_trimmed (line : String) : read (Text.trimmed line) = read line := by
  rw [read, read, Text.trimmed, String.toList_ofList, trim_trim]

/-- A line that is read as an insertion is recognised as one or not at all. -/
theorem classify_of_read {line : String} {insertion : Insertion} (h : read line = .ok insertion) :
    Command.classify line =
      if "insert into ".toList <+: (trim line.toList).map Char.toLower
      then .insert (Text.trimmed line) else .unknown := by
  split
  · next hp =>
    obtain ⟨r, hr⟩ := exists_strip?_iff.2 hp
    exact (Command.recognised_iff.1 (.insert hr)).1
  · next hp =>
    by_contra hne
    exact hp ((Command.recognised_iff.2 ⟨rfl, hne⟩).prefix_of_head (head_of_read h))

end Insertion

namespace Session

/-- What is read as an insertion may fail to name a table, but it is a command all the same. -/
theorem text_respond_insert_ne {statement : String} {insertion : Insertion}
    (h : Insertion.read statement = .ok insertion) (session : Session) :
    (session.respond (.insert statement)).text ≠ Error.unknownCommand.message := by
  cases hd : session.database? with
  | none =>
    have ha : (session.execute (.insert statement)).answer = .error .noActiveDatabase := by
      simp only [execute, insert, hd, fail]
    rw [text_respond_of_error ha]
    exact fun he => absurd (Error.message_injective he) (by simp)
  | some database =>
    cases ht : database.table? insertion.table with
    | none =>
      have ha : (session.execute (.insert statement)).answer =
          .error (.unknownTable insertion.table) := by
        simp only [execute, insert, hd, h, ht, fail]
      rw [text_respond_of_error ha]
      exact fun he => absurd (Error.message_injective he) (by simp)
    | some table =>
      have ha : (session.execute (.insert statement)).answer =
          .ok ("1 row inserted into " ++ insertion.table) := by
        simp only [execute, insert, hd, h, ht]
      rw [text_respond_of_ok ha]
      exact ne_message_of_isAnswer
        (Or.inl ⟨_, List.mem_of_getElem? (i := 6) rfl, _, String.append_empty.symm⟩) _

theorem process_of_unknown {line : String} (h : Command.classify line = .unknown)
    (session : Session) : (session.process line).text = Error.unknownCommand.message ∧
      (session.process line).session = session := by
  rw [process, h]
  exact ⟨rfl, rfl⟩

/-- An insertion that can be read is recognised if it has the phrase as it is written, and is an
unknown command otherwise. -/
theorem accepted_dispatched_iff {line : String} {insertion : Insertion}
    (h : Insertion.read line = .ok insertion) :
    let phrased := "insert into ".toList <+: (trim line.toList).map Char.toLower
    (Command.classify line = .insert (Text.trimmed line) ↔ phrased) ∧
      (Command.classify line = .unknown ↔ ¬ phrased) ∧
      ∀ session : Session,
        ((session.process line).text = Error.unknownCommand.message ↔ ¬ phrased) ∧
        (¬ phrased → (session.process line).session = session) ∧
        (phrased → ∀ stored, session.table? insertion.table = some stored →
          (session.process line).text = "1 row inserted into " ++ insertion.table ∧
            (session.process line).session.table? insertion.table =
              some (stored.insert insertion.values)) := by
  intro phrased
  have hclassify := Insertion.classify_of_read h
  by_cases hp : phrased
  · rw [if_pos hp] at hclassify
    have hread := (Insertion.read_trimmed line).trans h
    have hne : ∀ session : Session,
        (session.process line).text ≠ Error.unknownCommand.message := by
      intro session
      rw [process, hclassify]
      exact text_respond_insert_ne hread session
    refine ⟨iff_of_true hclassify hp, ?_, fun session => ⟨?_, ?_, ?_⟩⟩
    · rw [hclassify]
      exact iff_of_false (by simp) (not_not_intro hp)
    · exact iff_of_false (hne session) (not_not_intro hp)
    · exact fun hn => absurd hp hn
    · exact fun _ stored hstored => process_insert hclassify hread hstored
  · rw [if_neg hp] at hclassify
    refine ⟨?_, iff_of_true hclassify hp, fun session => ?_⟩
    · rw [hclassify]
      exact iff_of_false (by simp) hp
    · obtain ⟨htext, hsession⟩ := process_of_unknown hclassify session
      exact ⟨iff_of_true htext hp, fun _ => hsession, fun h => absurd h hp⟩

/-- The phrase in another case, and with a tabulation in it. -/
theorem accepted_dispatched_iff_spaced :
    let session := (start .empty).run
      [.createDatabase "d", .useDatabase "d", .createTable "t (a int)"]
    (session.process " INSERT Into t (a) values (1)").text = "1 row inserted into t" ∧
      Command.classify "insert\tinto t (a) values (1)" = .unknown := by
  intro session
  have hread : Insertion.read " INSERT Into t (a) values (1)" =
      .ok ⟨"t", .ofList [("a", .text "1")]⟩ := by decide +kernel
  have hspaced : Insertion.read "insert\tinto t (a) values (1)" =
      .ok ⟨"t", .ofList [("a", .text "1")]⟩ := by decide +kernel
  have hstored : session.table? "t" =
      some ⟨"t", [⟨"a", .int⟩], [.empty "a" .int], 0⟩ := by decide +kernel
  obtain ⟨-, -, hprocess⟩ := accepted_dispatched_iff hread
  exact ⟨((hprocess session).2.2 (by decide) _ hstored).1,
    (accepted_dispatched_iff hspaced).2.1.2 (by decide)⟩

/-- With two spaces in the phrase an insertion can be read that is an unknown command. -/
theorem accepted_not_dispatched :
    let line := "insert  into t (a) values (1)"
    Insertion.read line = .ok ⟨"t", .ofList [("a", .text "1")]⟩ ∧
      Command.classify line ≠ .insert (Text.trimmed line) ∧
      (empty.process line).text = "Unknown command" := by
  decide +kernel

end Session
end TableShell
