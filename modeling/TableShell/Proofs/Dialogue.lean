import TableShell.Shell
import TableShell.Proofs.Channels
import TableShell.Proofs.Encoding
import TableShell.Proofs.Quoting

/-
The transcript of a dialogue.

A dialogue is decided by the commands that the lines of its input are recognised as. So it is the
session that answers the lines, one after the other, up to the first that leaves; what stands behind
that line is not read, and neither a line feed missing at the end nor decoding the input beforehand
makes a difference.
-/
namespace TableShell

open Text

namespace Shell

/-! ### Lines -/

/-- The input, parted behind each of its line feeds. A last part that no line feed ends is a line
too, unless there is nothing in it. -/
inductive Cut : List UInt8 → List (List UInt8) → Prop
  | nil : Cut [] []
  | last {tail : List UInt8} (hne : tail ≠ []) (h : lineFeed ∉ tail) : Cut tail [tail]
  | line {body rest : List UInt8} {ls : List (List UInt8)} (h : lineFeed ∉ body)
      (hr : Cut rest ls) : Cut (body ++ lineFeed :: rest) ((body ++ [lineFeed]) :: ls)

theorem lines_append_lineFeed {body : List UInt8} (h : lineFeed ∉ body) (rest : List UInt8) :
    lines (body ++ lineFeed :: rest) = (body ++ [lineFeed]) :: lines rest := by
  induction body with
  | nil => rw [List.nil_append, lines, if_pos rfl, List.nil_append]
  | cons b body ih =>
    rw [List.mem_cons, not_or] at h
    rw [List.cons_append, lines, if_neg (Ne.symm h.1), ih h.2]
    rfl

theorem lines_of_not_mem {tail : List UInt8} (hne : tail ≠ []) (h : lineFeed ∉ tail) :
    lines tail = [tail] := by
  induction tail with
  | nil => exact absurd rfl hne
  | cons b tail ih =>
    rw [List.mem_cons, not_or] at h
    rw [lines, if_neg (Ne.symm h.1)]
    cases tail with
    | nil => rfl
    | cons b' tail => rw [ih (List.cons_ne_nil _ _) h.2]

theorem cut_lines (input : List UInt8) : Cut input (lines input) := by
  induction input with
  | nil => exact .nil
  | cons b input ih =>
    rw [lines]
    split
    · next hb => exact hb ▸ .line List.not_mem_nil ih
    · next hb =>
      generalize lines input = ls at ih
      cases ih with
      | nil => exact .last (List.cons_ne_nil _ _) fun h => hb (List.mem_singleton.1 h).symm
      | last _ h =>
        exact .last (List.cons_ne_nil _ _) fun hm => (List.mem_cons.1 hm).elim (hb ·.symm) h
      | line h hr =>
        exact .line (fun hm => (List.mem_cons.1 hm).elim (hb ·.symm) h) hr

theorem cut_iff {input : List UInt8} {ls : List (List UInt8)} :
    Cut input ls ↔ ls = lines input := by
  constructor
  · intro h
    induction h with
    | nil => rfl
    | last hne h => rw [lines_of_not_mem hne h]
    | line h _ ih => rw [lines_append_lineFeed h, ih]
  · intro h
    exact h ▸ cut_lines input

theorem lines_append {before : List UInt8}
    (h : before = [] ∨ before.getLast? = some lineFeed) (after : List UInt8) :
    lines (before ++ after) = lines before ++ lines after := by
  have hcut := cut_lines before
  generalize lines before = ls at hcut
  induction hcut with
  | nil => rfl
  | last hne hm =>
    rcases h with h | h
    · exact absurd h hne
    · exact absurd (List.mem_of_mem_getLast? h) hm
  | @line body rest ls hm hr ih =>
    rw [List.append_assoc, List.cons_append, lines_append_lineFeed hm, ih, List.cons_append]
    rcases h with h | h
    · exact absurd h (by simp)
    · by_cases hrest : rest = []
      · exact Or.inl hrest
      · right
        rwa [List.getLast?_append_of_ne_nil _ (List.cons_ne_nil _ _),
          List.getLast?_cons_of_ne_nil hrest] at h

/-! ### The dialogue -/

theorem reply?_eq (session : Session) (line : List UInt8) :
    reply? session line =
      if Command.classify (Utf8.decode line) = .quit then none
      else some (session.process (Utf8.decode line)) := by
  rw [reply?, Session.process]
  split
  · next h => rw [if_pos h]
  · next h => rw [if_neg h]

/-- A dialogue knows of a line only the command that it is. -/
theorem dialogue_congr {ls ls' : List (List UInt8)}
    (h : ls.map (Command.classify ∘ Utf8.decode) = ls'.map (Command.classify ∘ Utf8.decode))
    (prompt : String) (session : Session) :
    dialogue prompt session ls = dialogue prompt session ls' := by
  induction ls generalizing ls' session with
  | nil => rw [List.map_eq_nil_iff.1 h.symm]
  | cons line ls ih =>
    cases ls' with
    | nil => exact absurd h (List.cons_ne_nil _ _)
    | cons line' ls' =>
      obtain ⟨hline, hls⟩ := List.cons.inj h
      have hreply : reply? session line = reply? session line' := by
        simp only [Function.comp_apply] at hline
        rw [reply?, reply?, hline]
      rw [dialogue, dialogue, hreply]
      cases reply? session line' with
      | none => rfl
      | some reply => simp only [ih hls]

/-- What comes behind a line that leaves the dialogue is not read. -/
theorem dialogue_append_of_quit {line : List UInt8}
    (h : Command.classify (Utf8.decode line) = .quit) (prompt : String) (session : Session)
    (ls rest rest' : List (List UInt8)) :
    dialogue prompt session (ls ++ line :: rest) =
      dialogue prompt session (ls ++ line :: rest') := by
  induction ls generalizing session with
  | nil => simp only [List.nil_append, dialogue, reply?_eq, if_pos h]
  | cons line' ls ih =>
    rw [List.cons_append, List.cons_append, dialogue, dialogue]
    cases reply? session line' with
    | none => rfl
    | some reply => simp only [ih]

/-- The lines that are answered: those before the first that leaves the dialogue. -/
def heard (spoken : List String) : List String :=
  spoken.takeWhile fun line => Command.classify line ≠ .quit

/-- Some line leaves the dialogue. -/
def isLeft (spoken : List String) : Bool :=
  spoken.any fun line => Command.classify line = .quit

/-- The lines that are answered, each answered by the session as the lines before left it. -/
def exchange (prompt : String) (session : Session) (spoken : List String) : String :=
  String.join ((Channel.processing.record session (heard spoken)).map fun entry =>
    prompt ++ entry.2 ++ "\n")

theorem dialogue_eq (prompt : String) (session : Session) (ls : List (List UInt8)) :
    dialogue prompt session ls =
      ⟨exchange prompt session (ls.map Utf8.decode) ++
          (prompt ++ if isLeft (ls.map Utf8.decode) then farewell else ""),
        Channel.processing.run session (heard (ls.map Utf8.decode))⟩ := by
  induction ls generalizing session with
  | nil => simp [dialogue, exchange, heard, isLeft, Channel.record, Channel.run]
  | cons line ls ih =>
    rw [dialogue, reply?_eq, List.map_cons]
    generalize Utf8.decode line = text
    by_cases hq : Command.classify text = .quit
    · simp [hq, exchange, heard, isLeft, Channel.record, Channel.run]
    · have hheard : heard (text :: ls.map Utf8.decode) = text :: heard (ls.map Utf8.decode) := by
        simp [heard, hq]
      have hleft : isLeft (text :: ls.map Utf8.decode) = isLeft (ls.map Utf8.decode) := by
        simp [isLeft, hq]
      simp only [if_neg hq, ih, exchange, hheard, hleft, Channel.record, List.map_cons,
        String.join_cons, String.append_assoc]
      rfl

/-! ### The last line -/

theorem decode_append_lineFeed (bs : List UInt8) :
    Utf8.decode (bs ++ [lineFeed]) = Utf8.decode bs ++ "\n" := by
  rw [Utf8.decode, lineFeed, Utf8.decodeFrom_append_newline Utf8.isSound_none, String.ofList_append]
  rfl

theorem classify_append_newline (line : String) :
    Command.classify (line ++ "\n") = Command.classify line := by
  have hw : ∀ c ∈ "\n".toList, isBlank c = true := List.all_eq_true.1 rfl
  rw [Command.classify, Command.classify, String.toList_append, trim_append hw]

/-- A line feed at the end of an input that lacks it ends the last line and changes no command. -/
theorem commands_append_lineFeed {input : List UInt8} (hne : input ≠ [])
    (h : input.getLast? ≠ some lineFeed) :
    (lines (input ++ [lineFeed])).map (Command.classify ∘ Utf8.decode) =
      (lines input).map (Command.classify ∘ Utf8.decode) := by
  have hcut := cut_lines input
  generalize lines input = ls at hcut
  induction hcut with
  | nil => exact absurd rfl hne
  | last _ hm =>
    rw [lines_append_lineFeed hm, lines, List.map_singleton, List.map_singleton,
      Function.comp_apply, Function.comp_apply, decode_append_lineFeed, classify_append_newline]
  | @line body rest ls hm hr ih =>
    have hrest : rest ≠ [] := by
      rintro rfl
      exact h (by simp)
    have hlast : rest.getLast? ≠ some lineFeed := by
      rwa [List.getLast?_append_of_ne_nil _ (List.cons_ne_nil _ _),
        List.getLast?_cons_of_ne_nil hrest] at h
    rw [List.append_assoc, List.cons_append, lines_append_lineFeed hm, List.map_cons,
      List.map_cons, ih hrest hlast]

/-- The transcript of a dialogue in which the lines are said: the banner line if there is to be one;
for each line that is answered the prompt, what the session answers behind the lines before, and a
line feed; then the prompt, and a farewell where a line leaves. -/
def transcript (settings : Settings) (spoken : List String) : Transcript where
  output :=
    (if settings.banner then "Welcome to linedb. Enter a command or 'quit' to exit\n" else "") ++
      (exchange settings.prompt .empty spoken ++
        (settings.prompt ++ if isLeft spoken then "Bye\n" else ""))
  session := Channel.processing.run .empty (heard spoken)

/-- A dialogue over an input has the transcript of its lines. What follows a line that leaves has no
part in it, and neither has a line feed behind the last line. -/
theorem run_transcript (settings : Settings) (input : List UInt8) :
    (∀ ls, Cut input ls ↔ ls = lines input) ∧
    run settings input = transcript settings ((lines input).map Utf8.decode) ∧
    (∀ before line after after' : List UInt8,
      before = [] ∨ before.getLast? = some lineFeed → lineFeed ∉ line →
        Command.classify (Utf8.decode (line ++ [lineFeed])) = .quit →
          input = before ++ (line ++ lineFeed :: after) →
            run settings (before ++ (line ++ lineFeed :: after')) = run settings input) ∧
    (input ≠ [] → input.getLast? ≠ some lineFeed →
      run settings (input ++ [lineFeed]) = run settings input) := by
  refine ⟨fun ls => cut_iff, ?_, ?_, ?_⟩
  · simp only [run, dialogue_eq]
    rfl
  · intro before line after after' hb hl hq hinput
    subst hinput
    simp only [run, lines_append hb, lines_append_lineFeed hl, dialogue_append_of_quit hq _ _ _ _
      (lines after')]
  · intro hne hlast
    simp only [run, dialogue_congr (commands_append_lineFeed hne hlast)]

/-- Two dialogues that part behind the line that leaves, in the middle of a character, and two that
differ in the last line feed. -/
theorem run_transcript_quit :
    let settings : Settings := ⟨"$ ", false⟩
    (run settings (Utf8.encode "list tables\n quit\nlist databases")).output =
        "$ No active database\n$ Bye\n" ∧
      run settings (Utf8.encode "list tables\n quit\n" ++ [0xE2, 0x82]) =
        run settings (Utf8.encode "list tables\n quit\nlist databases") ∧
      run settings (Utf8.encode "list tables" ++ [lineFeed]) =
        run settings (Utf8.encode "list tables") := by
  intro settings
  obtain ⟨-, hrun, hquit, -⟩ :=
    run_transcript settings (Utf8.encode "list tables\n quit\nlist databases")
  obtain ⟨-, -, -, hfeed⟩ := run_transcript settings (Utf8.encode "list tables")
  refine ⟨?_, ?_, ?_⟩
  · rw [hrun]
    decide +kernel
  · exact hquit (Utf8.encode "list tables\n") (Utf8.encode " quit") (Utf8.encode "list databases")
      [0xE2, 0x82] (by decide +kernel) (by decide +kernel) (by decide +kernel) (by decide +kernel)
  · exact hfeed (by decide +kernel) (by decide +kernel)

/-! ### Decoding beforehand -/

/-- The lines of a decoded input are its lines, decoded. -/
theorem lines_encode_decode (input : List UInt8) :
    (lines (Utf8.encode (Utf8.decode input))).map Utf8.decode = (lines input).map Utf8.decode := by
  rw [Utf8.decode, Utf8.encode_ofList]
  have hcut := cut_lines input
  generalize lines input = ls at hcut
  induction hcut with
  | nil => rfl
  | @last tail hne hm =>
    have hnewline := Utf8.newline_not_mem_decodeFrom Utf8.isSound_none hm
    have hbytes : (Utf8.decodeFrom none tail).flatMap String.utf8EncodeChar ≠ [] := by
      intro h
      have hdecoded := Utf8.decode_flatMap (Utf8.decodeFrom none tail)
      rw [h] at hdecoded
      exact Utf8.decodeFrom_none_ne_nil hne (String.ofList_injective hdecoded).symm
    rw [lines_of_not_mem hbytes (Utf8.newline_not_mem_encode hnewline), List.map_singleton,
      List.map_singleton, Utf8.decode_flatMap, Utf8.decode]
  | @line body rest ls hm hr ih =>
    have hnewline := Utf8.newline_not_mem_decodeFrom Utf8.isSound_none hm
    have hfeed : String.utf8EncodeChar '\n' = [lineFeed] := by decide
    rw [lineFeed, Utf8.decodeFrom_append_newline Utf8.isSound_none, List.flatMap_append,
      List.flatMap_cons, hfeed, List.singleton_append,
      lines_append_lineFeed (Utf8.newline_not_mem_encode hnewline), List.map_cons, List.map_cons,
      decode_append_lineFeed, Utf8.decode_flatMap, ih, ← lineFeed, decode_append_lineFeed,
      Utf8.decode]

/-- It makes no difference to a dialogue whether its input is decoded line by line or before it is
cut into lines. -/
theorem run_encode_decode (settings : Settings) (input : List UInt8) :
    run settings (Utf8.encode (Utf8.decode input)) = run settings input := by
  have h := congrArg (List.map Command.classify) (lines_encode_decode input)
  rw [List.map_map, List.map_map] at h
  simp only [run, dialogue_congr h]

end Shell
end TableShell
