import MonkeyLang.State
import MonkeyLang.Value.Print

namespace MonkeyLang.Builtin

/-- The contents of an argument that must be an array. -/
def sequenceOf (callee : Builtin) (arg : Value) : Effect Fault (Sequence Value) :=
  match arg with
  | .array id => do return (← Effect.heap).sequence id
  | other => throw (.wrongArg callee .array other.type)

/-- The contents of an argument that must be an array with elements. -/
def nonemptyOf (callee : Builtin) (arg : Value) : Effect Fault (Sequence Value) := do
  let items ← sequenceOf callee arg
  if items.size = 0 then throw (.emptyArray callee) else return items

/-- A new array. -/
def newArray (items : Sequence Value) : Effect Fault Value := do
  return .array (← Effect.allocate (·.newArray items))

/-- The number of characters of a string or of elements of an array. -/
def callLen (arg : Value) : Effect Fault Value :=
  match arg with
  | .string text => return .int (.ofNat text.length)
  | .array id => do return .int (.ofNat ((← Effect.heap).sequence id).size)
  | other => throw (.unsupportedArg .len other.type)

/-- Files a value in a hash, which is the only change a program can make to a container. -/
def callSet (target key value : Value) : Effect Fault Value :=
  match target with
  | .hash id => do
    let hashKey ← Effect.ofExcept key.hashKey
    Effect.update (·.insert id hashKey ⟨key, value⟩)
    return .null
  | other => throw (.wrongArg .set .hash other.type)

/-- Writes a value on a line of its own. -/
def putLine (arg : Value) : Effect Fault Unit := do
  Effect.print .output ((← Effect.heap).printLine arg)

/-- Calls a builtin function. The number of arguments is checked before anything else. -/
def call (callee : Builtin) (args : List Value) : Effect Fault Value :=
  match callee, args with
  | .len, [arg] => callLen arg
  | .first, [arg] => do return (← nonemptyOf .first arg).first?.getD .null
  | .last, [arg] => do return (← nonemptyOf .last arg).last?.getD .null
  | .rest, [arg] => do newArray (← nonemptyOf .rest arg).rest
  | .push, [arg, item] => do newArray ((← sequenceOf .push arg).push item)
  | .set, [target, key, value] => callSet target key value
  | .puts, args => do
    args.forM putLine
    return .null
  | .sputs, args => do return .string ("\n".intercalate (args.map (← Effect.heap).render))
  | .len, args | .first, args | .last, args | .rest, args => throw (.arity 1 args.length)
  | .push, args => throw (.arity 2 args.length)
  | .set, args => throw (.arity 3 args.length)

end MonkeyLang.Builtin
