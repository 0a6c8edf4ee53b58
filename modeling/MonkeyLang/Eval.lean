import MonkeyLang.Builtin.Call
import MonkeyLang.Eval.Operator

namespace MonkeyLang

/-- The ways in which evaluation leaves an expression without giving it a value. -/
inductive Signal where
  /-- A `return` on its way to the call around it. -/
  | ret (value : Value)
  /-- A fault, which nothing in a program can catch. -/
  | fault (fault : Fault)
  /-- Calls are nested deeper than allowed. -/
  | exhausted
deriving DecidableEq

/-- Evaluation changes the state and may end in a signal. -/
abbrev Eval (α : Type) := Effect Signal α

namespace Eval

/-- Stops with a fault. -/
def fail {α : Type} (fault : Fault) : Eval α := throw (.fault fault)

/-- Turns the faults of a computation into signals. -/
def ofEffect {α : Type} (effect : Effect Fault α) : Eval α := effect.adaptExcept .fault

/-- Turns a fault into a signal. -/
def ofExcept {α : Type} (outcome : Except Fault α) : Eval α := ofEffect (Effect.ofExcept outcome)

/-- Ends a `return`, whose value becomes the result. -/
def catchReturn (body : Eval Value) : Eval Value := fun state =>
  match body state with
  | .error (.ret value) state => .ok value state
  | outcome => outcome

end Eval

open Eval

/-- The value of a name. A binding hides the builtin function of that name. -/
def resolve (scope : Nat) (name : String) : Eval Value := do
  match (← Effect.heap).lookup name scope with
  | some value => return value
  | none =>
    match Builtin.ofName? name with
    | some callee => return .builtin callee
    | none => fail (.unbound name)

/-- Binds parameters to arguments, in order. -/
def bindAll (scope : Nat) : List (String × Value) → Eval Unit
  | [] => return ()
  | (name, value) :: rest => do
    Effect.update (·.define scope name value)
    bindAll scope rest

section

-- Runs the body of a function in the scope that was made for the call.
variable (run : Nat → Block → Eval Value)

/-- Calls a function with arguments. A `return` in its body goes no further. -/
def apply (callee : Value) (args : List Value) : Eval Value :=
  match callee with
  | .builtin callee => ofEffect (callee.call args)
  | .function id => do
    match (← Effect.heap).closures[id]? with
    | none => fail (.notCallable .function)
    | some closure =>
      match Fault.arity? closure.params.length args.length with
      | some fault => fail fault
      | none =>
        let scope ← Effect.allocate (·.newScope (some closure.scope))
        bindAll scope (closure.params.zip args)
        catchReturn (run scope closure.body)
  | other => fail (.notCallable other.type)

mutual

/-- Evaluates an expression. Operands, arguments and elements are evaluated from left to
right, and the first signal ends it all. -/
def evalExpr (scope : Nat) : Expr → Eval Value
  | .ident name => resolve scope name
  | .int value => return .int value
  | .string text => return .string text
  | .bool value => return .bool value
  | .null => return .null
  | .unary op operand => do
    let operand ← evalExpr scope operand
    Eval.ofExcept (op.apply operand)
  | .binary left op right => do
    let left ← evalExpr scope left
    let right ← evalExpr scope right
    Eval.ofExcept (op.apply left right)
  | .cond test yes none => do
    if (← evalExpr scope test).truthy then return (← evalStmts scope none yes).getD .null
    else return .null
  | .cond test yes (some no) => do
    if (← evalExpr scope test).truthy then return (← evalStmts scope none yes).getD .null
    else return (← evalStmts scope none no).getD .null
  | .ternary test yes no => do
    if (← evalExpr scope test).truthy then evalExpr scope yes else evalExpr scope no
  | .function params body => do
    return .function (← Effect.allocate (·.newClosure ⟨params, body, scope⟩))
  | .call callee args => do
    let callee ← evalExpr scope callee
    let args ← evalItems scope args
    apply run callee args
  | .array items => do
    let items ← evalItems scope items
    return .array (← Effect.allocate (·.newArray (.ofList items)))
  | .hash pairs => do
    let hash ← evalPairs scope .empty pairs
    return .hash (← Effect.allocate (·.newHash hash))
  | .index left index => do
    let left ← evalExpr scope left
    let index ← evalExpr scope index
    Eval.ofExcept ((← Effect.heap).subscript left index)

/-- Evaluates a list of expressions. -/
def evalItems (scope : Nat) : List Expr → Eval (List Value)
  | [] => return []
  | item :: rest => do
    let value ← evalExpr scope item
    let values ← evalItems scope rest
    return value :: values

/-- Evaluates the pairs of a hash. A key is checked before the value next to it is
evaluated. -/
def evalPairs (scope : Nat) (done : Hash) : List (Expr × Expr) → Eval Hash
  | [] => return done
  | (key, value) :: rest => do
    let key ← evalExpr scope key
    let hashKey ← Eval.ofExcept key.hashKey
    let value ← evalExpr scope value
    evalPairs scope (done.insert hashKey ⟨key, value⟩) rest

/-- Evaluates a statement. A `let` has no value, and it refuses the name of a builtin
function before it evaluates anything. -/
def evalStmt (scope : Nat) : Stmt → Eval (Option Value)
  | .bind name value =>
    match Builtin.ofName? name with
    | some _ => fail (.reserved name)
    | none => do
      let value ← evalExpr scope value
      Effect.update (·.define scope name value)
      return none
  | .ret none => throw (.ret .null)
  | .ret (some value) => do
    let value ← evalExpr scope value
    throw (.ret value)
  | .expr value => do return some (← evalExpr scope value)

/-- Evaluates statements one after another. The result is that of the last one, or the
given one if there are none. -/
def evalStmts (scope : Nat) (last : Option Value) : List Stmt → Eval (Option Value)
  | [] => return last
  | stmt :: rest => do
    let value ← evalStmt scope stmt
    evalStmts scope value rest

end

/-- Evaluates a block. A block without a value is null. -/
def evalBlock (scope : Nat) (block : Block) : Eval Value := do
  return (← evalStmts run scope none block).getD .null

/-- Evaluates the statements of a program. Whatever stops it early becomes its value:
that of a `return`, or the fault itself. -/
def evalProgram (scope : Nat) (stmts : List Stmt) : Eval (Option Value) := fun state =>
  match evalStmts run scope none stmts state with
  | .error (.ret value) state => .ok (some value) state
  | .error (.fault fault) state => .ok (some (.error fault)) state
  | outcome => outcome

end

/-- Runs the body of a function with a bound on how deep calls may nest inside it. -/
def runBody : Nat → Nat → Block → Eval Value
  | 0, _, _ => throw .exhausted
  | depth + 1, scope, body => evalBlock (runBody depth) scope body

end MonkeyLang
