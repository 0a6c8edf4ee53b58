import MonkeyLang.CommandLine

open MonkeyLang.Session

namespace MonkeyLang

/-- The reason for which a file cannot be read. -/
def readFailure : IO.Error → Failure
  | .permissionDenied .. => .accessDenied
  | .inappropriateType _ 21 _ => .isDirectory
  | .inappropriateType .. => .notDirectory
  | _ => .notFound

/-- The contents of a file, or the reason for which it cannot be read. -/
def readFile (path : String) : IO (Except Failure ByteArray) := do
  try
    return .ok (← IO.FS.readBinFile path)
  catch error =>
    return .error (readFailure error)

/-- Writes out what a computation has written since the given number of bytes. -/
def emit (output : IO.FS.Stream) (already : Nat) (state : State) : IO Unit := do
  output.write (state.output.written.extract already state.output.written.size)
  output.flush

/-- Reads and runs lines until the input ends. -/
partial def converse (input output : IO.FS.Stream) (scope : Nat) (state : State) : IO UInt32 := do
  if ← input.isTty then
    output.putStr prompt
    output.flush
  let text ← input.getLine
  if text.isEmpty then return 0
  let already := state.output.written.size
  match (Text.filledLines text).forM (run callDepth scope) state with
  | .ok _ after =>
    emit output already after
    converse input output scope after
  | .error failure after =>
    emit output already after
    IO.eprintln ("Error: " ++ failure.message)
    return 1

/-- Opens an interactive session on the terminal. -/
def converseWith (user : String) (input output : IO.FS.Stream) : IO UInt32 := do
  match start user {} with
  | .ok scope state =>
    emit output 0 state
    converse input output scope state
  | .error failure _ =>
    IO.eprintln ("Error: " ++ failure.message)
    return 1

end MonkeyLang

open MonkeyLang

def main (args : List String) : IO UInt32 := do
  let output ← IO.getStdout
  match Mode.ofArgs args with
  | .interactive =>
    converseWith ((← IO.getEnv "USER").getD anyone) (← IO.getStdin) output
  | mode =>
    let contents ← match mode with
      | .file path => readFile path
      | _ => pure (.error .notFound)
    let report := mode.perform callDepth (fun _ => contents) none ""
    output.write report.stdout
    output.flush
    IO.eprint report.stderr
    return report.exit.toUInt32
