import TableShell.Journal
import TableShell.Shell
import TableShell.Text.Cut

/-
The arguments of the program, and what the program does with them.

Options take their value from behind an equals sign or from the next argument. An argument that
starts with a hyphen is no value, unless it is the hyphen alone. Each option may be given once,
and nothing else may be given; `--` ends the options.
-/
namespace TableShell
namespace CommandLine

inductive Setting
  | prompt
  | logLevel
deriving DecidableEq, Repr

def Setting.option : Setting → String
  | prompt => "--prompt"
  | logLevel => "--log-level"

inductive UsageError
  | unexpected (argument : String)
  | missingValue (setting : Setting)
  | repeated (option : String)
deriving DecidableEq, Repr

def UsageError.message : UsageError → String
  | unexpected argument => "error: unexpected argument '" ++ argument ++ "'"
  | missingValue setting => "error: a value is required for '" ++ setting.option ++ "'"
  | repeated option => "error: '" ++ option ++ "' cannot be used twice"

structure Options where
  prompt : Option String := none
  logLevel : Option String := none
  noBanner : Bool := false
deriving DecidableEq, Repr

namespace Options

def settings (options : Options) : Shell.Settings :=
  { prompt := options.prompt.getD "> ", banner := !options.noBanner }

def set (options : Options) : Setting → String → Except UsageError Options
  | .prompt, value =>
    if options.prompt.isSome then .error (.repeated (Setting.option .prompt))
    else .ok { options with prompt := some value }
  | .logLevel, value =>
    if options.logLevel.isSome then .error (.repeated (Setting.option .logLevel))
    else .ok { options with logLevel := some value }

end Options

/-- What an argument says by itself. -/
inductive Argument
  | endOfOptions
  | noBanner
  | setting (setting : Setting) (value : Option String)
  | stray (text : String)
deriving DecidableEq, Repr

/-- An option's name, and the value behind its equals sign if it has one. -/
def part (argument : String) : String × Option String :=
  match Text.cut? (· == '=') argument.toList with
  | none => (argument, none)
  | some (name, value) => (String.ofList name, some (String.ofList value))

def Argument.read (argument : String) : Argument :=
  match part argument with
  | ("--", none) => endOfOptions
  | ("--no-banner", none) => noBanner
  | ("--prompt", value) => setting .prompt value
  | ("--log-level", value) => setting .logLevel value
  | _ => stray argument

/-- The argument may be the value of the option before it. -/
def isValue (argument : String) : Bool :=
  argument == "-" || argument.toList.head? != some '-'

/-- Reads the arguments behind those that gave `options`. The setting that waits for its value is
the one in `waiting`. -/
def read (options : Options) (waiting : Option Setting) : List String → Except UsageError Options
  | [] =>
    match waiting with
    | none => .ok options
    | some setting => .error (.missingValue setting)
  | argument :: arguments =>
    match waiting with
    | some setting =>
      if isValue argument then
        match options.set setting argument with
        | .error e => .error e
        | .ok options => read options none arguments
      else .error (.missingValue setting)
    | none =>
      match Argument.read argument with
      | .endOfOptions =>
        match arguments with
        | [] => .ok options
        | extra :: _ => .error (.unexpected extra)
      | .noBanner =>
        if options.noBanner then .error (.repeated argument)
        else read { options with noBanner := true } none arguments
      | .setting setting none => read options (some setting) arguments
      | .setting setting (some value) =>
        match options.set setting value with
        | .error e => .error e
        | .ok options => read options none arguments
      | .stray text => .error (.unexpected text)

/-- The exit code of a usage error. -/
def usageCode : UInt32 := 2

/-- The exit code and the standard output of the program. -/
def run (arguments : List String) (input : List UInt8) : UInt32 × String :=
  match read {} none arguments with
  | .error _ => (usageCode, "")
  | .ok options => (0, (Shell.run options.settings input).output)

/-- Whether a log level given by name lets events of a level through. -/
def admits (name : String) : Level → Bool
  | .info => ["info", "debug", "trace"].any fun level => Text.isPhrase level.toList name.toList
  | .debug => ["debug", "trace"].any fun level => Text.isPhrase level.toList name.toList

end CommandLine
end TableShell
