import MonkeyLang.CommandLine.Argument

namespace MonkeyLang

/-- What the command line asks for. Paths are in their order. -/
structure Invocation where
  code : Option String := none
  noHistory : Bool := false
  paths : List String := []
deriving DecidableEq

/-- How the option with code is shown. -/
def codeName : String := "--code <CODE>"

/-- How the option against the line history is shown. -/
def noHistoryName : String := "--no-history"

/-- How the paths are shown. -/
def pathsName : String := "[PATHS]..."

namespace Invocation

/-- Takes the code to run, which may be given only once. -/
def withCode (invocation : Invocation) (text : String) : Except Refusal Invocation :=
  if invocation.code.isSome then .error (.repeated codeName)
  else .ok { invocation with code := some text }

/-- Does without the line history, which may be asked for only once. -/
def withoutHistory (invocation : Invocation) : Except Refusal Invocation :=
  if invocation.noHistory then .error (.repeated noHistoryName)
  else .ok { invocation with noHistory := true }

/-- Adds a path, which may not be empty. -/
def addPath (invocation : Invocation) (path : String) : Except Refusal Invocation :=
  if path.isEmpty then .error (.missing pathsName)
  else .ok { invocation with paths := invocation.paths ++ [path] }

/-- Takes in the arguments from left to right. Options and paths may be mixed. -/
def addArgs (invocation : Invocation) : List String → Except Refusal Invocation
  | [] => .ok invocation
  | arg :: rest =>
    match Argument.of arg, rest with
    | .code (some text), rest => do addArgs (← invocation.withCode text) rest
    | .code none, [] => .error (.missing codeName)
    | .code none, text :: rest =>
      if (Argument.of text).isValue then do addArgs (← invocation.withCode text) rest
      else .error (.missing codeName)
    | .noHistory, rest => do addArgs (← invocation.withoutHistory) rest
    | .onlyPathsFollow, rest => rest.foldlM addPath invocation
    | .path path, rest => do addArgs (← invocation.addPath path) rest
    | .refused refusal, _ => .error refusal

/-- Reads the arguments of the command line. -/
def ofArgs (args : List String) : Except Refusal Invocation := addArgs {} args

end Invocation

end MonkeyLang
