import TableShell.Session
import TableShell.Text.Utf8

/-
The dialogue over a stream of bytes: a prompt, a line, its answer, until the user quits or the
input ends.
-/
namespace TableShell
namespace Shell

structure Settings where
  prompt : String := "> "
  banner : Bool := true
deriving DecidableEq, Repr

/-- What a dialogue wrote, and the session at its end. -/
structure Transcript where
  output : String
  session : Session

def lineFeed : UInt8 := 10

/-- The lines of an input, each with its line feed. The last one may lack it. -/
def lines : List UInt8 → List (List UInt8)
  | [] => []
  | b :: bs =>
    if b = lineFeed then [b] :: lines bs
    else
      match lines bs with
      | [] => [[b]]
      | line :: rest => (b :: line) :: rest

/-- The reply to a line, none where the user quits. -/
def reply? (session : Session) (line : List UInt8) : Option Reply :=
  match Command.classify (Text.Utf8.decode line) with
  | .quit => none
  | command => some (session.respond command)

def greeting (settings : Settings) : String :=
  if settings.banner then "Welcome to linedb. Enter a command or 'quit' to exit\n" else ""

def farewell : String := "Bye\n"

/-- The dialogue from a session on, over the lines still to come. -/
def dialogue (prompt : String) (session : Session) : List (List UInt8) → Transcript
  | [] => ⟨prompt, session⟩
  | line :: rest =>
    match reply? session line with
    | none => ⟨prompt ++ farewell, session⟩
    | some reply =>
      let transcript := dialogue prompt reply.session rest
      { transcript with output := prompt ++ reply.text ++ "\n" ++ transcript.output }

def run (settings : Settings) (input : List UInt8) : Transcript :=
  let transcript := dialogue settings.prompt .empty (lines input)
  { transcript with output := greeting settings ++ transcript.output }

/-- Cutting into lines loses nothing. -/
theorem flatten_lines (bs : List UInt8) : (lines bs).flatten = bs := by
  induction bs with
  | nil => rfl
  | cons b bs ih =>
    rw [lines]
    split
    · simp [ih]
    · split
      · next h => rw [h] at ih; rw [← ih]; rfl
      · next h => rw [h] at ih; rw [← ih]; rfl

end Shell
end TableShell
