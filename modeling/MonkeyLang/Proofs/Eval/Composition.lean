import MonkeyLang.Proofs.Eval.Tracking

namespace MonkeyLang

namespace Effect

variable {ε α β : Type}

/-- The state in which a computation ends, whatever it comes to. -/
def after (effect : Effect ε α) (state : State) : State :=
  match effect state with
  | .ok _ after => after
  | .error _ after => after

/-- However a computation ends, it leaves the heap in a relation to the one it began with. -/
def Along (R : Heap → Heap → Prop) (effect : Effect ε α) : Prop :=
  ∀ state, R state.heap (effect.after state).heap

theorem after_bind (first : Effect ε α) (next : α → Effect ε β) (state : State) :
    (first >>= next).after state = first.after state ∨
      ∃ value, (first >>= next).after state = (next value).after (first.after state) := by
  simp only [after, bind, EStateM.bind]
  cases first state with
  | ok value after => exact .inr ⟨value, rfl⟩
  | error error after => exact .inl rfl

end Effect

open Eval

/-- A property of computations that a sequence of them has if each of its parts has it, and that
the parts which change no scope have. -/
structure Composable (P : (α : Type) → Eval α → Prop) : Prop where
  pure : ∀ {α : Type} (value : α), P α (Pure.pure value)
  bind : ∀ {α β : Type} {first : Eval α} {next : α → Eval β},
    P α first → (∀ value, P β (next value)) → P β (first >>= next)
  fail : ∀ {α : Type} (fault : Fault), P α (Eval.fail fault)
  heap : P Heap Effect.heap
  newArray : ∀ items, P Nat (Effect.allocate (·.newArray items))
  newHash : ∀ hash, P Nat (Effect.allocate (·.newHash hash))
  newClosure : ∀ closure, P Nat (Effect.allocate (·.newClosure closure))

/-- Along a sequence of computations the heap changes step by step, so a relation between heaps
that holds of every step holds of all of them together. -/
theorem Composable.of_preorder {R : Heap → Heap → Prop} (hrefl : ∀ heap, R heap heap)
    (htrans : ∀ {before middle after}, R before middle → R middle after → R before after)
    (hnewArray : ∀ heap items, R heap (heap.newArray items).2)
    (hnewHash : ∀ heap hash, R heap (heap.newHash hash).2)
    (hnewClosure : ∀ heap closure, R heap (heap.newClosure closure).2) :
    Composable fun _ effect => effect.Along R where
  pure _ state := hrefl state.heap
  bind := by
    intro α β first next hfirst hnext state
    rcases Effect.after_bind first next state with hafter | ⟨value, hafter⟩
    · rw [hafter]
      exact hfirst state
    · rw [hafter]
      exact htrans (hfirst state) (hnext value _)
  fail _ state := hrefl state.heap
  heap state := hrefl state.heap
  newArray items state := hnewArray state.heap items
  newHash hash state := hnewHash state.heap hash
  newClosure closure state := hnewClosure state.heap closure

/-- What a statement does to its scope or to the statements around it has a property. -/
def Stmt.Allows (P : (α : Type) → Eval α → Prop) (scope : Nat) : Stmt → Prop
  | .bind name _ => ∀ value, P Unit (Effect.update (·.define scope name value))
  | .ret _ => ∀ value, P (Option Value) (throw (.ret value))
  | .expr _ => True

namespace Composable

variable {P : (α : Type) → Eval α → Prop} (hP : Composable P)

/-- A computation has a property together with whatever may follow on the results it is known to
have. This is how a property that says nothing about results keeps track of them. -/
def Before (P : (α : Type) → Eval α → Prop) (α : Type) (effect : Eval α) (post : α → Prop) : Prop :=
  ∀ {β : Type} (next : α → Eval β), (∀ value, post value → P β (next value)) → P β (effect >>= next)

include hP

theorem before {α : Type} {effect : Eval α} {post : α → Prop} (heffect : P α effect)
    (hpost : ∀ value, post value) : Before P α effect post :=
  fun _ hnext => hP.bind heffect fun value => hnext value (hpost value)

theorem of_before {α : Type} {effect : Eval α} {post : α → Prop}
    (hbefore : Before P α effect post) : P α effect := by
  have heffect := hbefore Pure.pure fun value _ => hP.pure value
  rwa [bind_pure] at heffect

theorem ofExcept {α : Type} (outcome : Except Fault α) : P α (Eval.ofExcept outcome) := by
  cases outcome with
  | ok value => exact hP.pure value
  | error fault => exact hP.fail fault

theorem tracking : Tracking (fun _ => True) (fun _ => True) (Before P) where
  pure := by
    intro α post value hvalue β next hnext
    rw [pure_bind]
    exact hnext value hvalue
  bind := by
    intro α β first middle next post hfirst hmiddle γ last hlast
    rw [bind_assoc]
    exact hfirst _ fun value hvalue => hmiddle value hvalue last hlast
  fail fault := fun _ _ => hP.fail fault
  int _ := trivial
  bool _ := trivial
  string _ := trivial
  null := trivial
  builtin _ := trivial
  empty := trivial
  insert _ _ _ _ := trivial
  heap := hP.before hP.heap fun _ => ⟨fun _ _ _ => trivial, fun _ _ _ => trivial,
    fun _ _ _ => ⟨trivial, trivial⟩⟩
  newArray _ := hP.before (hP.newArray _) fun _ => trivial
  newHash _ := hP.before (hP.newHash _) fun _ => trivial
  newClosure closure := hP.before (hP.newClosure closure) fun _ => trivial

theorem permits {scope : Nat} {stmt : Stmt} (hstmt : stmt.Allows P scope) :
    stmt.Permits (fun _ => True) (Before P) scope := by
  cases stmt with
  | bind name value => exact fun found _ => hP.before (hstmt found) fun _ => trivial
  | ret value => exact fun found _ => hP.before (hstmt found) fun _ _ _ => trivial
  | expr value => trivial

section

variable {run : Nat → Block → Eval Value} {scope : Nat}

theorem callsTracked (happly : ∀ callee args, P Value (apply run callee args)) :
    CallsTracked (fun _ => True) (Before P) run :=
  fun callee args _ _ => hP.before (happly callee args) fun _ => trivial

/-- Evaluating an expression is a sequence of calls, of what its own statements do, and of parts
that change no scope. -/
theorem evalExpr (happly : ∀ callee args, P Value (apply run callee args)) (expr : Expr)
    (hown : ∀ stmt ∈ expr.ownStmts, stmt.Allows P scope) :
    P Value (MonkeyLang.evalExpr run scope expr) :=
  hP.of_before (hP.tracking.evalExpr (hP.callsTracked happly) expr fun stmt hstmt =>
    hP.permits (hown stmt hstmt))

theorem evalStmt (happly : ∀ callee args, P Value (apply run callee args)) (stmt : Stmt)
    (hown : ∀ own ∈ stmt.ownStmts, own.Allows P scope) :
    P (Option Value) (MonkeyLang.evalStmt run scope stmt) :=
  hP.of_before (hP.tracking.evalStmt (hP.callsTracked happly) stmt fun own hmem =>
    hP.permits (hown own hmem))

theorem evalStmts (happly : ∀ callee args, P Value (apply run callee args)) (last : Option Value)
    (stmts : List Stmt) (hown : ∀ stmt ∈ ownStmts stmts, stmt.Allows P scope) :
    P (Option Value) (MonkeyLang.evalStmts run scope last stmts) :=
  hP.of_before (hP.tracking.evalStmts (hP.callsTracked happly) last (fun _ _ => trivial) stmts
    fun stmt hstmt => hP.permits (hown stmt hstmt))

end

/-- A builtin function writes lines, or files an entry, or does nothing but read and allocate. -/
theorem call (hinsert : ∀ id key entry, P Unit (Effect.update (·.insert id key entry)))
    (hputLine : ∀ arg, P Unit (ofEffect (Builtin.putLine arg))) (callee : Builtin)
    (args : List Value) : P Value (ofEffect (callee.call args)) := by
  refine hP.of_before (hP.tracking.call ?_ ?_ callee args fun _ _ => trivial)
  · exact fun id _ _ _ _ _ _ => hP.before (hinsert id _ _) fun _ => trivial
  · exact fun arg => hP.before (hputLine arg) fun _ => trivial

theorem bindAll {scope : Nat}
    (hdefine : ∀ name value, P Unit (Effect.update (·.define scope name value)))
    (bindings : List (String × Value)) : P Unit (MonkeyLang.bindAll scope bindings) := by
  refine hP.of_before (hP.tracking.bindAll ?_ bindings fun _ _ => trivial)
  exact fun name value _ => hP.before (hdefine name value) fun _ => trivial

/-- A call is either that of a builtin function or a scope, its bindings and a body. -/
theorem apply {run : Nat → Block → Eval Value}
    (hcall : ∀ callee args, P Value (ofEffect (Builtin.call callee args)))
    (hclosure : ∀ outer bindings body, P Value do
      let scope ← Effect.allocate (·.newScope (some outer))
      MonkeyLang.bindAll scope bindings
      catchReturn (run scope body)) (callee : Value) (args : List Value) :
    P Value (MonkeyLang.apply run callee args) := by
  refine hP.of_before (hP.tracking.apply ?_ ?_ callee args trivial fun _ _ => trivial)
  · exact fun callee args _ => hP.before (hcall callee args) fun _ => trivial
  · exact fun outer bindings body _ => hP.before (hclosure outer bindings body) fun _ => trivial

end Composable

end MonkeyLang
