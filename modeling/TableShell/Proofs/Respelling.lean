import TableShell.Proofs.Channels
import TableShell.Proofs.CommandForms
import TableShell.Proofs.InsertionPatterns
import TableShell.Proofs.WholeWords

/-
Lines that differ in the blanks at their ends and in the letter case of their phrase.

Of two such lines the trimmed texts are the same up to letter case. No phrase but the common one is
read off them, and the same text is left behind it. So they are recognised as the same command, but
for an insertion, which keeps the phrase as it was written; and an insertion is read from behind its
phrase on.
-/
namespace TableShell

namespace Text

theorem trim_map_toLower (s : List Char) :
    trim (s.map Char.toLower) = (trim s).map Char.toLower := by
  have hblank : isBlank ∘ Char.toLower = isBlank := funext isBlank_toLower
  simp only [trim, trimEnd, trimStart, List.dropWhile_map, hblank, ← List.map_reverse]

/-- Trimming a text at its end reaches its first part where the second one is blank. -/
theorem trimEnd_append_eq (s r : List Char) :
    trimEnd (s ++ r) = if trimEnd r = [] then trimEnd s else s ++ trimEnd r := by
  simp only [trimEnd, List.reverse_append, List.dropWhile_append, List.reverse_eq_nil_iff,
    List.isEmpty_iff]
  split
  · rfl
  · rw [List.reverse_append, List.reverse_reverse]

end Text

namespace Insertion

open Text

theorem target?_of_strip? {s r : List Char}
    (h : strip? Char.toLower "insert into ".toList s = some r) :
    target? s = some (trimStart r) := by
  obtain ⟨n, hn, rfl⟩ := strip?_eq_some_iff.1 h
  have hspace : ∀ {b : List Char}, b.map Char.toLower = [' '] → b = [' '] := by
    intro b hb
    obtain ⟨c, b, rfl, hc, hb⟩ := List.map_eq_cons_iff.1 hb
    rw [eq_space_of_toLower hc, List.map_eq_nil_iff.1 hb]
  have hparts : n.map Char.toLower = "insert".toList ++ ([' '] ++ ("into".toList ++ [' '])) := hn
  obtain ⟨insert, n, rfl, hinsert, hn⟩ := List.map_eq_append_iff.1 hparts
  obtain ⟨b₁, n, rfl, hb₁, hn⟩ := List.map_eq_append_iff.1 hn
  obtain ⟨into, b₂, rfl, hinto, hb₂⟩ := List.map_eq_append_iff.1 hn
  cases hspace hb₁
  cases hspace hb₂
  have hblank : [' '] ≠ [] ∧ ∀ c ∈ [' '], isBlank c = true :=
    ⟨List.cons_ne_nil _ _, List.forall_mem_singleton.2 rfl⟩
  exact target?_of_head (head_matches_iff.2 ⟨rfl, insert, [' '], into, [' '], rfl,
    map_foldCase_of_map_toLower hinsert (by decide), map_foldCase_of_map_toLower hinto (by decide),
    hblank, hblank⟩)

/-- An insertion is read from behind its phrase on. -/
theorem read_eq_of_strip? {s s' r : List Char} (hs : Trimmed s) (hs' : Trimmed s')
    (h : strip? Char.toLower "insert into ".toList s = some r)
    (h' : strip? Char.toLower "insert into ".toList s' = some r) :
    read (String.ofList s) = read (String.ofList s') := by
  rw [read, read, String.toList_ofList, String.toList_ofList, trim_eq_self hs, trim_eq_self hs',
    target?_of_strip? h, target?_of_strip? h']

end Insertion

namespace Command

open Text

/-- The line is the phrase, in some letter case, with the rest behind it, but for blanks at the
ends. -/
def Spells (phrase rest : List Char) (line : String) : Prop :=
  ∃ written, isPhrase phrase written = true ∧ trim line.toList = trim (written ++ rest)

/-- The lines differ in the blanks at their ends and in the letter case of a phrase in front. -/
inductive Respelled (line line' : String) : Prop
  | blanks (h : trim line.toList = trim line'.toList)
  | phrase (phrase : String) (rest : List Char) (hp : phrase ∈ phrases)
      (h : Spells phrase.toList rest line) (h' : Spells phrase.toList rest line')

/-- The commands are the same, or insertions that are read alike. -/
inductive Alike : Command → Command → Prop
  | same (command : Command) : Alike command command
  | insert {statement statement' : String}
      (h : Insertion.read statement = Insertion.read statement') :
      Alike (insert statement) (insert statement')

section Phrase

variable {phrase p : String} {rest r : List Char} {line line' : String}

theorem map_toLower_of_spells (h : Spells phrase.toList rest line) :
    (trim line.toList).map Char.toLower = trim (phrase.toList ++ rest.map Char.toLower) := by
  obtain ⟨written, hwritten, hline⟩ := h
  rw [hline, ← trim_map_toLower, List.map_append, beq_iff_eq.1 hwritten]

/-- No phrase starts with a blank. -/
theorem trim_append_of_isPhrase (hphrase : phrase ∈ phrases) {written : List Char}
    (hwritten : isPhrase phrase.toList written = true) (rest : List Char) :
    trim (written ++ rest) = trimEnd (written ++ rest) := by
  have hhead : ∀ phrase ∈ phrases, phrase.toList.head?.any (!isBlank ·) = true := by decide
  rw [trim, trimStart_eq_self]
  intro c hc
  have hmap : written.map Char.toLower = phrase.toList := beq_iff_eq.1 hwritten
  have hfirst := hhead phrase hphrase
  rw [← hmap, List.head?_map] at hfirst
  cases hn : written.head? with
  | none => rw [hn] at hfirst; exact absurd hfirst (by decide)
  | some d =>
    rw [hn, Option.map_some, Option.any_some, isBlank_toLower, Bool.not_eq_true'] at hfirst
    rw [List.head?_append, hn, Option.some_or, Option.some.injEq] at hc
    exact hc ▸ hfirst

/-- Phrases at the start of one text are the same. -/
theorem phrase_eq_of_prefix (hphrase : phrase ∈ phrases) (hp : p ∈ phrases) {s : List Char}
    (h : phrase.toList <+: s) (h' : p.toList <+: s) : p = phrase := by
  have happart : ∀ q ∈ phrases, ∀ q' ∈ phrases, q.toList <+: q'.toList → q = q' := by decide
  rcases List.prefix_or_prefix_of_prefix h h' with h | h
  · exact (happart phrase hphrase p hp h).symm
  · exact happart p hp phrase hphrase h

/-- What is left behind a phrase is what the line was spelled with. -/
theorem rest_of_spells (hphrase : phrase ∈ phrases) (h : Spells phrase.toList rest line)
    (hp : p ∈ phrases) (hr : strip? Char.toLower p.toList (trim line.toList) = some r) :
    r = trimEnd rest := by
  obtain ⟨written, hwritten, hline⟩ := h
  have hmap : written.map Char.toLower = phrase.toList := beq_iff_eq.1 hwritten
  rw [trim_append_of_isPhrase hphrase hwritten] at hline
  obtain ⟨n, hn, hs⟩ := strip?_eq_some_iff.1 hr
  have hprefix := (exists_strip?_iff.1 ⟨r, hr⟩).trans
    (List.IsPrefix.map Char.toLower (hline ▸ trimEnd_isPrefix (written ++ rest)))
  rw [List.map_append, hmap] at hprefix
  cases phrase_eq_of_prefix hphrase hp (List.prefix_append _ _) hprefix
  have hlength : written.length = n.length := by
    rw [← List.length_map (f := Char.toLower), hmap, ← hn, List.length_map]
  rw [hline, trimEnd_append_eq] at hs
  split at hs
  · next hblank =>
    -- nothing is left: what is written of the phrase is no longer than the phrase
    have hle := (trimEnd_isPrefix written).length_le
    rw [hs, List.length_append] at hle
    rw [hblank]
    exact List.eq_nil_of_length_eq_zero (by omega)
  · exact (List.append_inj hs hlength).2.symm

theorem strip?_eq_of_spells (hphrase : phrase ∈ phrases) (h : Spells phrase.toList rest line)
    (h' : Spells phrase.toList rest line') (hp : p ∈ phrases) :
    strip? Char.toLower p.toList (trim line.toList) =
      strip? Char.toLower p.toList (trim line'.toList) := by
  have hmap := (map_toLower_of_spells h).trans (map_toLower_of_spells h').symm
  cases hr : strip? Char.toLower p.toList (trim line.toList) with
  | none =>
    rw [strip?_eq_none_iff, hmap] at hr
    exact (strip?_eq_none_iff.2 hr).symm
  | some r =>
    have hprefix := exists_strip?_iff.1 ⟨r, hr⟩
    rw [hmap] at hprefix
    obtain ⟨r', hr'⟩ := exists_strip?_iff.2 hprefix
    rw [hr', rest_of_spells hphrase h hp hr, rest_of_spells hphrase h' hp hr']

theorem Recognised.respelled (hphrase : phrase ∈ phrases) (h : Spells phrase.toList rest line)
    (h' : Spells phrase.toList rest line') {command : Command}
    (hc : Recognised (trim line.toList) command) :
    ∃ command', Recognised (trim line'.toList) command' ∧ Alike command command' := by
  have hmap := (map_toLower_of_spells h).trans (map_toLower_of_spells h').symm
  have halone : ∀ p, isPhrase p (trim line.toList) = isPhrase p (trim line'.toList) := by
    intro p
    rw [isPhrase, isPhrase, hmap]
  have hbehind : ∀ p ∈ phrases, strip? Char.toLower p.toList (trim line'.toList) =
      strip? Char.toLower p.toList (trim line.toList) :=
    fun p hp => strip?_eq_of_spells hphrase h' h hp
  cases hc with
  | quit hs => exact ⟨_, .quit (halone _ ▸ hs), .same _⟩
  | listDatabases hs => exact ⟨_, .listDatabases (halone _ ▸ hs), .same _⟩
  | listTables hs => exact ⟨_, .listTables (halone _ ▸ hs), .same _⟩
  | createDatabase hs =>
    exact ⟨_, .createDatabase ((hbehind "create database " (by decide)).trans hs), .same _⟩
  | useDatabase hs =>
    exact ⟨_, .useDatabase ((hbehind "use database " (by decide)).trans hs), .same _⟩
  | createTable hs =>
    exact ⟨_, .createTable ((hbehind "create table " (by decide)).trans hs), .same _⟩
  | select hs =>
    exact ⟨_, .select ((hbehind "select * from " (by decide)).trans hs), .same _⟩
  | insert hs =>
    have hs' := (hbehind "insert into " (by decide)).trans hs
    exact ⟨_, .insert hs', .insert
      (Insertion.read_eq_of_strip? (trimmed_trim _) (trimmed_trim _) hs hs')⟩

/-- Lines that differ in blanks and in the case of a phrase are recognised alike. -/
theorem classify_alike (h : Respelled line line') : Alike (classify line) (classify line') := by
  cases h with
  | blanks h =>
    rw [classify, classify, h]
    exact .same _
  | phrase phrase rest hp h h' =>
    by_cases hc : classify line = unknown
    · by_cases hc' : classify line' = unknown
      · rw [hc, hc']
        exact .same _
      · obtain ⟨command, hr, -⟩ := (recognised_iff.2 ⟨rfl, hc'⟩).respelled hp h' h
        obtain ⟨rfl, hne⟩ := recognised_iff.1 hr
        exact absurd hc hne
    · obtain ⟨command, hr, halike⟩ := (recognised_iff.2 ⟨rfl, hc⟩).respelled hp h h'
      obtain ⟨rfl, -⟩ := recognised_iff.1 hr
      exact halike

end Phrase

end Command

namespace Session

theorem respond_of_alike {command command' : Command} (h : command.Alike command')
    (session : Session) : session.respond command = session.respond command' := by
  cases h with
  | same => rfl
  | insert h => simp only [respond, execute, insert, h]

/-- Lines respelled one by one get the same replies and lead to the same session. -/
theorem record_respelled {lines lines' : List String}
    (h : List.Forall₂ Command.Respelled lines lines') (session : Session) :
    (Channel.processing.record session lines).map Prod.snd =
        (Channel.processing.record session lines').map Prod.snd ∧
      Channel.processing.run session lines = Channel.processing.run session lines' := by
  induction h generalizing session with
  | nil => exact ⟨rfl, rfl⟩
  | @cons line line' lines lines' h _ ih =>
    have hprocess : session.process line = session.process line' :=
      respond_of_alike (Command.classify_alike h) session
    have hreply : Channel.processing.reply session line =
        Channel.processing.reply session line' := congrArg Reply.text hprocess
    have hnext : Channel.processing.next session line =
        Channel.processing.next session line' := congrArg Reply.session hprocess
    obtain ⟨hreplies, hrun⟩ := ih (Channel.processing.next session line')
    constructor
    · rw [Channel.record, Channel.record, List.map_cons, List.map_cons, hreply, hnext, hreplies]
    · rw [Channel.run, Channel.run, List.foldl_cons, List.foldl_cons, hnext]
      exact hrun

/-- The blanks at the ends of a line and the letter case of its phrase do not matter, to the reply
and to the session behind it, whatever session it is and whatever follows the phrase. Nor do they
matter in any of the lines of a dialogue. -/
theorem process_respelled (session : Session) :
    (∀ line line', Command.Respelled line line' →
      session.process line = session.process line') ∧
    ∀ lines lines', List.Forall₂ Command.Respelled lines lines' →
      (Channel.processing.record session lines).map Prod.snd =
          (Channel.processing.record session lines').map Prod.snd ∧
        Channel.processing.run session lines = Channel.processing.run session lines' := by
  refine ⟨fun line line' h => ?_, fun lines lines' h => record_respelled h session⟩
  exact respond_of_alike (Command.classify_alike h) session

/-- An insertion with its phrase once more as a value, and a phrase that has lost its space. -/
theorem process_respelled_mixed :
    let session := (start .empty).run
      [.createDatabase "d", .useDatabase "d", .createTable "t (n int, s varchar)"]
    session.process "\t INSERT Into t (s) values ('Insert INTO ')\n" =
        session.process "insert into t (s) values ('Insert INTO ')" ∧
      (session.process "insert into t (s) values ('Insert INTO ')").text =
        "1 row inserted into t" ∧
      Channel.processing.run session ["Use DATABASE", "create Table  u (N int) "] =
        Channel.processing.run session ["  use database \n", "CREATE table  u (N int)"] := by
  intro session
  have hinsert : Command.Respelled "\t INSERT Into t (s) values ('Insert INTO ')\n"
      "insert into t (s) values ('Insert INTO ')" :=
    .phrase "insert into " "t (s) values ('Insert INTO ')".toList (by decide)
      ⟨"INSERT Into ".toList, by decide, by decide⟩ ⟨"insert into ".toList, by decide, by decide⟩
  have huse : Command.Respelled "Use DATABASE" "  use database \n" :=
    .phrase "use database " [] (by decide)
      ⟨"Use DATABASE ".toList, by decide, by decide⟩ ⟨"use database ".toList, by decide, by decide⟩
  have hcreate : Command.Respelled "create Table  u (N int) " "CREATE table  u (N int)" :=
    .phrase "create table " " u (N int)".toList (by decide)
      ⟨"create Table ".toList, by decide, by decide⟩ ⟨"CREATE table ".toList, by decide, by decide⟩
  obtain ⟨hline, hlines⟩ := process_respelled session
  exact ⟨hline _ _ hinsert, by decide +kernel,
    (hlines _ _ (.cons huse (.cons hcreate .nil))).2⟩

end Session

end TableShell
