import MonkeyLang.Proofs.Eval.Truncation

namespace MonkeyLang

/-- A moment at which evaluation comes to a name or to a scope, with the state that it finds: a name
is about to be looked up, a `let` is about to bind its name, or a function is about to be called,
which makes a scope. -/
inductive Moment where
  | name (scope : Nat) (name : String) (state : State)
  | bind (scope : Nat) (name : String) (value : Value) (state : State)
  | call (closure : Closure) (args : List Value) (state : State)

/-- What evaluation finds at a moment. -/
def Moment.state : Moment → State
  | name _ _ state | bind _ _ _ state | call _ _ state => state

/-- The functions that were called, in the order of the calls. -/
def callees (moments : List Moment) : List Closure :=
  moments.filterMap fun
    | .call closure _ _ => some closure
    | _ => none

/-- A computation that keeps a record of its moments. -/
def Recorded (ε α : Type) : Type := State → EStateM.Result ε State α × List Moment

namespace Recorded

variable {ε δ α β : Type}

/-- A computation of which nothing goes on record. -/
def lift (effect : Effect ε α) : Recorded ε α := fun state => (effect state, [])

/-- Puts the present moment on record. -/
def note (moment : State → Moment) : Recorded ε Unit := fun state => (.ok () state, [moment state])

/-- Goes on with whatever a computation comes to, be it a value or an error. Their records are put
together. -/
def resume (first : Recorded ε α) (next : Except ε α → Recorded δ β) : Recorded δ β := fun state =>
  let (outcome, moments) := first state
  let (result, more) := match outcome with
    | .ok value middle => next (.ok value) middle
    | .error error middle => next (.error error) middle
  (result, moments ++ more)

instance : Monad (Recorded ε) where
  pure value := lift (Pure.pure value)
  bind first next := first.resume fun
    | .ok value => next value
    | .error error => lift (throw error)

/-- Ends a `return`, whose value becomes the result. -/
def catchReturn (body : Recorded Signal Value) : Recorded Signal Value :=
  body.resume fun
    | .ok value => pure value
    | .error (.ret value) => pure value
    | .error signal => lift (throw signal)

end Recorded

open Eval Recorded

section

-- Runs the body of a function in the scope that was made for the call.
variable (run : Nat → Block → Recorded Signal Value)

/-- Calls a function as `apply` does. The call goes on record just before its scope is made. -/
def recordApply (callee : Value) (args : List Value) : Recorded Signal Value :=
  match callee with
  | .builtin callee => lift (ofEffect (callee.call args))
  | .function id => do
    match (← lift Effect.heap).closures[id]? with
    | none => lift (fail (.notCallable .function))
    | some closure =>
      match Fault.arity? closure.params.length args.length with
      | some fault => lift (fail fault)
      | none =>
        note (.call closure args)
        let scope ← lift (Effect.allocate (·.newScope (some closure.scope)))
        lift (bindAll scope (closure.params.zip args))
        (run scope closure.body).catchReturn
  | other => lift (fail (.notCallable other.type))

mutual

/-- Evaluates an expression as `evalExpr` does. Every name goes on record just before it is looked
up. -/
def recordExpr (scope : Nat) : Expr → Recorded Signal Value
  | .ident name => do
    note (.name scope name)
    lift (resolve scope name)
  | .int value => return .int value
  | .string text => return .string text
  | .bool value => return .bool value
  | .null => return .null
  | .unary op operand => do
    let operand ← recordExpr scope operand
    lift (Eval.ofExcept (op.apply operand))
  | .binary left op right => do
    let left ← recordExpr scope left
    let right ← recordExpr scope right
    lift (Eval.ofExcept (op.apply left right))
  | .cond test yes none => do
    if (← recordExpr scope test).truthy then return (← recordStmts scope none yes).getD .null
    else return .null
  | .cond test yes (some no) => do
    if (← recordExpr scope test).truthy then return (← recordStmts scope none yes).getD .null
    else return (← recordStmts scope none no).getD .null
  | .ternary test yes no => do
    if (← recordExpr scope test).truthy then recordExpr scope yes else recordExpr scope no
  | .function params body => do
    return .function (← lift (Effect.allocate (·.newClosure ⟨params, body, scope⟩)))
  | .call callee args => do
    let callee ← recordExpr scope callee
    let args ← recordItems scope args
    recordApply run callee args
  | .array items => do
    let items ← recordItems scope items
    return .array (← lift (Effect.allocate (·.newArray (.ofList items))))
  | .hash pairs => do
    let hash ← recordPairs scope .empty pairs
    return .hash (← lift (Effect.allocate (·.newHash hash)))
  | .index left index => do
    let left ← recordExpr scope left
    let index ← recordExpr scope index
    lift (do Eval.ofExcept ((← Effect.heap).subscript left index))

/-- Evaluates a list of expressions. -/
def recordItems (scope : Nat) : List Expr → Recorded Signal (List Value)
  | [] => return []
  | item :: rest => do
    let value ← recordExpr scope item
    let values ← recordItems scope rest
    return value :: values

/-- Evaluates the pairs of a hash. -/
def recordPairs (scope : Nat) (done : Hash) : List (Expr × Expr) → Recorded Signal Hash
  | [] => return done
  | (key, value) :: rest => do
    let key ← recordExpr scope key
    let hashKey ← lift (Eval.ofExcept key.hashKey)
    let value ← recordExpr scope value
    recordPairs scope (done.insert hashKey ⟨key, value⟩) rest

/-- Evaluates a statement as `evalStmt` does. A `let` goes on record just before it binds its
name. -/
def recordStmt (scope : Nat) : Stmt → Recorded Signal (Option Value)
  | .bind name value =>
    match Builtin.ofName? name with
    | some _ => lift (fail (.reserved name))
    | none => do
      let value ← recordExpr scope value
      note (.bind scope name value)
      lift (Effect.update (·.define scope name value))
      return none
  | .ret none => lift (throw (.ret .null))
  | .ret (some value) => do
    let value ← recordExpr scope value
    lift (throw (.ret value))
  | .expr value => do return some (← recordExpr scope value)

/-- Evaluates statements one after another. -/
def recordStmts (scope : Nat) (last : Option Value) : List Stmt → Recorded Signal (Option Value)
  | [] => return last
  | stmt :: rest => do
    let value ← recordStmt scope stmt
    recordStmts scope value rest

end

end

/-- Runs the body of a function with a bound on how deep calls may nest inside it. -/
def recordBody : Nat → Nat → Block → Recorded Signal Value
  | 0, _, _ => lift (throw .exhausted)
  | depth + 1, scope, body => do
    return (← recordStmts (recordBody depth) scope none body).getD .null

namespace Session

/-- Runs a line in a scope as `run` does. -/
def recordLine (depth scope : Nat) (line : String) : Recorded Failure Unit := do
  let program := Program.parse line
  unless program.errors.isEmpty do
    lift (writeErrors (program.errors.map SyntaxError.message))
  (recordStmts (recordBody depth) scope none program.stmts).resume fun outcome =>
    lift (report outcome)

/-- The moments at which some lines come to a name or to a scope, when they are run one after
another. -/
def moments (depth scope : Nat) : List String → State → List Moment
  | [], _ => []
  | line :: lines, state =>
    (recordLine depth scope line state).2 ++
      moments depth scope lines ((run depth scope line).after state)

end Session

end MonkeyLang
