import MonkeyLang.CommandLine.Invocation
import MonkeyLang.Session

namespace MonkeyLang

/-- What a run of the command line does. -/
inductive Mode where
  | code (text : String)
  | interactive
  | file (path : String)
  | usage
  | refused (refusal : Refusal)
deriving DecidableEq

/-- Code on the command line goes before files, and at most one file is taken. The line
history has no effect on what is written, so it does not matter here. -/
def Invocation.mode (invocation : Invocation) : Mode :=
  match invocation.code, invocation.paths with
  | some text, _ => .code text
  | none, [] => .interactive
  | none, [path] => .file path
  | none, _ => .usage

/-- What is asked for by the arguments of the command line. -/
def Mode.ofArgs (args : List String) : Mode :=
  match Invocation.ofArgs args with
  | .ok invocation => invocation.mode
  | .error refusal => .refused refusal

/-- What a run of the command line leaves behind. -/
structure Report where
  exit : Nat
  stdout : ByteArray
  stderr : String

/-- Carries out a computation from nothing. A failure goes to the error stream, behind a
label. -/
def Report.ofEffect (label : String) (effect : Effect Failure Unit) : Report :=
  match effect {} with
  | .ok _ state => ⟨0, state.output.written, ""⟩
  | .error failure state =>
    ⟨1, state.output.written, "Error: " ++ label ++ failure.message ++ "\n"⟩

/-- The text that is shown for more than one file. -/
def usageText : String := "Usage: monkey [PATH]\nOnly a single program file is supported.\n"

/-- The form of the command line. -/
def synopsis : String := "Usage: monkey [OPTIONS] [PATHS]...\n"

/-- The help on the command line, in brief. -/
def briefHelp : String :=
  "The Monkey programming language\n\n" ++ synopsis ++
    "\nArguments:\n" ++
    "  [PATHS]...  Program file to run\n" ++
    "\nOptions:\n" ++
    "  -c, --code <CODE>  Evaluate this code instead of reading a file\n" ++
    "      --no-history   Don't load or save the interactive history file\n" ++
    "  -h, --help         Print help (see more with '--help')\n"

/-- The help on the command line, in full. -/
def fullHelp : String :=
  "The Monkey programming language.\n\n" ++
    "With no arguments, start an interactive session. With a path, run that file and print " ++
    "the final value.\n\n" ++ synopsis ++
    "\nArguments:\n" ++
    "  [PATHS]...\n          Program file to run\n" ++
    "\nOptions:\n" ++
    "  -c, --code <CODE>\n          Evaluate this code instead of reading a file\n" ++
    "\n      --no-history\n          Don't load or save the interactive history file\n" ++
    "\n  -h, --help\n          Print help (see a summary with '-h')\n"

/-- What is wrong with the arguments of the command line. -/
def Refusal.message : Refusal → String
  | help _ => ""
  | unexpected arg =>
    "unexpected argument '" ++ arg ++ "' found\n\n  tip: to pass '" ++ arg ++
      "' as a value, use '-- " ++ arg ++ "'\n\n" ++ synopsis
  | unexpectedValue value =>
    "unexpected value '" ++ value ++ "' for '" ++ noHistoryName ++
      "' found; no more were expected\n\nUsage: monkey --no-history\n"
  | missing name => "a value is required for '" ++ name ++ "' but none was supplied\n"
  | repeated name =>
    "the argument '" ++ name ++ "' cannot be used multiple times\n\n" ++ synopsis

/-- What is shown instead of a run. -/
def Refusal.report : Refusal → Report
  | help long => ⟨0, (if long then fullHelp else briefHelp).toUTF8, ""⟩
  | refusal =>
    ⟨2, .empty, "error: " ++ refusal.message ++ "\nFor more information, try '--help'.\n"⟩

/-- The name by which a user without one is greeted. -/
def anyone : String := "there"

/-- Runs the command line on given files and a given input. -/
def Mode.perform (depth : Nat) (files : String → Except Failure ByteArray) (user : Option String)
    (input : String) : Mode → Report
  | .code text => .ofEffect "" do Session.run depth (← Session.newScope) text
  | .interactive => .ofEffect "" (Session.interact depth (user.getD anyone) input)
  | .file path => .ofEffect (path ++ ": ") (Session.runFile depth (files path))
  | .usage => ⟨0, usageText.toUTF8, ""⟩
  | .refused refusal => refusal.report

end MonkeyLang
