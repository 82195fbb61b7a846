import TableShell.CommandLine

/-
The program: the dialogue of `TableShell.Shell` over standard input and output, one line at a time.
-/
namespace TableShell
namespace Main

/-- Reads up to and with the next line feed; nothing at the end of the input. -/
partial def readLine (input : IO.FS.Stream) (line : List UInt8) : IO (List UInt8) := do
  match (← input.read 1).toList with
  | [] => return line.reverse
  | b :: _ => if b = Shell.lineFeed then return (b :: line).reverse else readLine input (b :: line)

def record (admitted : Level → Bool) (event : Event) : IO Unit := do
  if admitted event.level then (← IO.getStderr).putStrLn event.message

partial def dialogue (prompt : String) (admitted : Level → Bool) (session : Session) : IO Unit := do
  let output ← IO.getStdout
  output.putStr prompt
  output.flush
  let line ← readLine (← IO.getStdin) []
  if line.isEmpty then return
  match Shell.reply? session line with
  | none => output.putStr Shell.farewell
  | some reply =>
    reply.events.forM (record admitted)
    output.putStr (reply.text ++ "\n")
    dialogue prompt admitted reply.session

end Main
end TableShell

open TableShell in
def main (arguments : List String) : IO UInt32 := do
  match CommandLine.read {} none arguments with
  | .error e =>
    (← IO.getStderr).putStrLn e.message
    return CommandLine.usageCode
  | .ok options =>
    (← IO.getStdout).putStr (Shell.greeting options.settings)
    Main.dialogue options.settings.prompt (CommandLine.admits (options.logLevel.getD "warn")) .empty
    return 0
