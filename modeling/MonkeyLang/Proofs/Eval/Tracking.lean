import MonkeyLang.Proofs.Eval.NamedTracking

namespace MonkeyLang

open Eval

/-- A property of computations that says what their results are like. A sequence has it if each
part has it for whatever the parts before it come to, and the values that a program can get hold of
are good ones, as are those in the heap and in the hashes that it fills. -/
structure Tracking (good : Value → Prop) (filled : Hash → Prop)
    (P : (α : Type) → Eval α → (α → Prop) → Prop) : Prop where
  pure : ∀ {α : Type} {post : α → Prop} {value : α}, post value → P α (Pure.pure value) post
  bind : ∀ {α β : Type} {first : Eval α} {next : α → Eval β} {middle : α → Prop}
    {post : β → Prop}, P α first middle → (∀ value, middle value → P β (next value) post) →
      P β (first >>= next) post
  fail : ∀ {α : Type} {post : α → Prop} (fault : Fault), P α (Eval.fail fault) post
  int : ∀ value, good (.int value)
  bool : ∀ value, good (.bool value)
  string : ∀ text, good (.string text)
  null : good .null
  builtin : ∀ callee, good (.builtin callee)
  empty : filled .empty
  insert : ∀ {hash : Hash} {key value : Value} {hashKey : HashKey}, filled hash → good key →
    good value → key.hashKey = .ok hashKey → filled (hash.insert hashKey ⟨key, value⟩)
  heap : P Heap Effect.heap (Heap.Holds good)
  newArray : ∀ {items : Sequence Value}, (∀ item ∈ items.toList, good item) →
    P Nat (Effect.allocate (·.newArray items)) fun id => good (.array id)
  newHash : ∀ {hash : Hash}, filled hash →
    P Nat (Effect.allocate (·.newHash hash)) fun id => good (.hash id)
  newClosure : ∀ closure, P Nat (Effect.allocate (·.newClosure closure)) fun id =>
    good (.function id)

namespace Tracking

variable {good : Value → Prop} {filled : Hash → Prop}
  {P : (α : Type) → Eval α → (α → Prop) → Prop} (hP : Tracking good filled P)

include hP

/-- Code may mention every name where all builtin functions are good. -/
theorem named : NamedTracking (fun _ => True) good filled P where
  pure := hP.pure
  bind := hP.bind
  fail := hP.fail
  int := hP.int
  bool := hP.bool
  string := hP.string
  null := hP.null
  builtin _ _ := hP.builtin _
  empty := hP.empty
  insert := hP.insert
  heap := by
    have hheap : P Heap (Effect.heap >>= Pure.pure) (Heap.Admits (fun _ => True) good) :=
      hP.bind hP.heap fun _ hvalues => hP.pure ⟨hvalues, fun _ _ _ _ => trivial⟩
    rwa [bind_pure] at hheap
  newArray := hP.newArray
  newHash := hP.newHash
  newClosure _ := hP.newClosure _

theorem getD {found : Option Value} (hfound : ∀ value ∈ found, good value) :
    good (found.getD .null) :=
  hP.named.getD hfound

section

variable {run : Nat → Block → Eval Value} {scope : Nat}

/-- Evaluating an expression is a sequence of calls, of what its own statements do, and of parts
that change no scope. If calls give good values for good ones, so does the expression. -/
theorem evalExpr (happly : CallsTracked good P run) (expr : Expr)
    (hown : ∀ stmt ∈ expr.ownStmts, stmt.Permits good P scope) :
    P Value (MonkeyLang.evalExpr run scope expr) good :=
  hP.named.evalExpr happly expr (fun _ _ => trivial) hown

theorem evalStmt (happly : CallsTracked good P run) (stmt : Stmt)
    (hown : ∀ own ∈ stmt.ownStmts, own.Permits good P scope) :
    P (Option Value) (MonkeyLang.evalStmt run scope stmt) fun found =>
      ∀ value ∈ found, good value :=
  hP.named.evalStmt happly stmt (fun _ _ => trivial) hown

theorem evalStmts (happly : CallsTracked good P run) (last : Option Value)
    (hlast : ∀ value ∈ last, good value) (stmts : List Stmt)
    (hown : ∀ stmt ∈ ownStmts stmts, stmt.Permits good P scope) :
    P (Option Value) (MonkeyLang.evalStmts run scope last stmts) fun found =>
      ∀ value ∈ found, good value :=
  hP.named.evalStmts happly last hlast stmts (fun _ _ => trivial) hown

end

/-- A builtin function gives a new value, or one that it finds in an array, and stores nothing but
its arguments and what it finds there. -/
theorem call (hinsert : ∀ id {key value : Value} {hashKey : HashKey}, good key → good value →
      key.hashKey = .ok hashKey →
        P Unit (Effect.update (·.insert id hashKey ⟨key, value⟩)) fun _ => True)
    (hputLine : ∀ arg, P Unit (ofEffect (Builtin.putLine arg)) fun _ => True) (callee : Builtin)
    (args : List Value) (hargs : ∀ arg ∈ args, good arg) :
    P Value (ofEffect (callee.call args)) good :=
  hP.named.call (fun _ => hinsert) hputLine (hP.builtin callee) hargs

theorem bindAll {scope : Nat} (hdefine : ∀ name value, good value →
      P Unit (Effect.update (·.define scope name value)) fun _ => True)
    (bindings : List (String × Value)) (hbindings : ∀ binding ∈ bindings, good binding.2) :
    P Unit (MonkeyLang.bindAll scope bindings) fun _ => True :=
  hP.named.bindAll hdefine bindings hbindings

/-- A call is either that of a builtin function or a scope, its bindings and a body. -/
theorem apply {run : Nat → Block → Eval Value}
    (hcall : ∀ callee args, (∀ arg ∈ args, good arg) →
      P Value (ofEffect (Builtin.call callee args)) good)
    (hclosure : ∀ outer bindings body, (∀ binding ∈ bindings, good binding.2) → P Value (do
      let scope ← Effect.allocate (·.newScope (some outer))
      MonkeyLang.bindAll scope bindings
      catchReturn (run scope body)) good) : CallsTracked good P run :=
  hP.named.apply (fun _ hargs => hcall _ _ hargs) fun outer bindings body _ hbindings =>
    hclosure outer bindings body hbindings

end Tracking

end MonkeyLang
