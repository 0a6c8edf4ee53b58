import MonkeyLang.Eval
import MonkeyLang.Program
import MonkeyLang.Text.Lines

namespace MonkeyLang

/-- The reasons for which a run ends before its result is written. -/
inductive Failure where
  | brokenPipe
  | notFound
  | accessDenied
  | notDirectory
  | isDirectory
  | invalidText
  | exhausted
deriving DecidableEq

/-- The wording of a failure. -/
def Failure.message : Failure → String
  | brokenPipe => "Broken pipe (os error 32)"
  | notFound => "No such file or directory (os error 2)"
  | accessDenied => "Permission denied (os error 13)"
  | notDirectory => "Not a directory (os error 20)"
  | isDirectory => "Is a directory (os error 21)"
  | invalidText => "stream did not contain valid UTF-8"
  | exhausted => "calls are nested too deeply"

namespace Session

/-- How deep calls may nest before a run is given up. No machine has room for so many calls
at once, so a program that gets by on the machine's stack never meets the bound. -/
def callDepth : Nat := 4611686018427387904

/-- The report on statements that could not be read. -/
def errorReport (messages : List String) : String :=
  "Woops! We ran into some monkey business here!\n parser errors:\n" ++
    String.join (messages.map fun message => "\t" ++ message ++ "\n")

/-- Writes the report on statements that could not be read. -/
def writeErrors (messages : List String) : Effect Failure Unit :=
  Effect.write .brokenPipe (errorReport messages)

/-- Adds a scope of its own, as a program or a session starts with. -/
def newScope {ε : Type} : Effect ε Nat := Effect.allocate (·.newScope none)

/-- Evaluates the statements of a program. Only calls nested too deeply keep it from
having an outcome. -/
def evaluate (depth scope : Nat) (stmts : List Stmt) : Effect Failure (Option Value) :=
  (evalProgram (runBody depth) scope stmts).adaptExcept fun _ => .exhausted

/-- Runs a source text in a scope. First come the syntax errors, if any, then whatever the
program writes, and last its value. -/
def run (depth scope : Nat) (code : String) : Effect Failure Unit := do
  let program := Program.parse code
  unless program.errors.isEmpty do
    writeErrors (program.errors.map SyntaxError.message)
  match ← evaluate depth scope program.stmts with
  | none => return ()
  | some value => Effect.print .brokenPipe ((← Effect.heap).printLine value)

/-- Hides what a computation writes. -/
def silently {ε α : Type} (effect : Effect ε α) : Effect ε α := fun state =>
  match effect { state with output := {} } with
  | .ok value after => .ok value { after with output := state.output }
  | .error error after => .error error { after with output := state.output }

/-- The value of a source text in a scope of its own. Syntax errors and output are
ignored. -/
def evalCode (depth : Nat) (code : String) : Effect Failure (Option Value) :=
  silently do evaluate depth (← newScope) (Program.parse code).stmts

/-- The text of a file, of which the contents or the reason against reading them are
given. -/
def fileText (contents : Except Failure ByteArray) : Except Failure String := do
  match String.fromUTF8? (← contents) with
  | none => throw .invalidText
  | some text => return text

/-- Runs the contents of a file in a scope of its own. -/
def runFile (depth : Nat) (contents : Except Failure ByteArray) : Effect Failure Unit := do
  let code ← Effect.ofExcept (fileText contents)
  run depth (← newScope) code

/-- The line with which an interactive session opens. -/
def greeting (user : String) : String :=
  "Hello " ++ user ++ "! This is the Monkey programming language!"

/-- What an interactive session shows when it waits for a line. -/
def prompt : String := ">> "

/-- Opens an interactive session and gives its scope. -/
def start (user : String) : Effect Failure Nat := do
  Effect.write .brokenPipe (greeting user ++ "\nFeel free to type in commands\n")
  newScope

/-- Holds an interactive session. Its lines share one scope, and blank ones are passed
over. -/
def interact (depth : Nat) (user input : String) : Effect Failure Unit := do
  let scope ← start user
  (Text.filledLines input).forM (run depth scope)

end Session

end MonkeyLang
