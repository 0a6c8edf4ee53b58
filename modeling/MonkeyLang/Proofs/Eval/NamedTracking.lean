import MonkeyLang.Proofs.Eval.Staging
import MonkeyLang.Proofs.Heap.Contents

namespace MonkeyLang

open Eval

/-- All values that a heap stores are good ones, and its functions mention known names only. -/
structure Heap.Admits (known : String → Prop) (good : Value → Prop) (heap : Heap) : Prop where
  values : heap.Holds good
  bodies : ∀ closure ∈ heap.closures, ∀ name ∈ idents closure.body, known name

/-- A property of computations that says what their results are like. A sequence has it if each
part has it for whatever the parts before it come to, and the values that a program can get hold of
are good ones, as are those in the heap and in the hashes that it fills. A builtin function is only
known to be good if its name may be mentioned. -/
structure NamedTracking (known : String → Prop) (good : Value → Prop) (filled : Hash → Prop)
    (P : (α : Type) → Eval α → (α → Prop) → Prop) : Prop where
  pure : ∀ {α : Type} {post : α → Prop} {value : α}, post value → P α (Pure.pure value) post
  bind : ∀ {α β : Type} {first : Eval α} {next : α → Eval β} {middle : α → Prop}
    {post : β → Prop}, P α first middle → (∀ value, middle value → P β (next value) post) →
      P β (first >>= next) post
  fail : ∀ {α : Type} {post : α → Prop} (fault : Fault), P α (Eval.fail fault) post
  int : ∀ value, good (.int value)
  bool : ∀ value, good (.bool value)
  string : ∀ text, good (.string text)
  null : good .null
  builtin : ∀ {name : String} {callee : Builtin}, known name →
    Builtin.ofName? name = some callee → good (.builtin callee)
  empty : filled .empty
  insert : ∀ {hash : Hash} {key value : Value} {hashKey : HashKey}, filled hash → good key →
    good value → key.hashKey = .ok hashKey → filled (hash.insert hashKey ⟨key, value⟩)
  heap : P Heap Effect.heap (Heap.Admits known good)
  newArray : ∀ {items : Sequence Value}, (∀ item ∈ items.toList, good item) →
    P Nat (Effect.allocate (·.newArray items)) fun id => good (.array id)
  newHash : ∀ {hash : Hash}, filled hash →
    P Nat (Effect.allocate (·.newHash hash)) fun id => good (.hash id)
  newClosure : ∀ {closure : Closure}, (∀ name ∈ idents closure.body, known name) →
    P Nat (Effect.allocate (·.newClosure closure)) fun id => good (.function id)

/-- Calls of good values with good arguments give good values. -/
def CallsTracked (good : Value → Prop) (P : (α : Type) → Eval α → (α → Prop) → Prop)
    (run : Nat → Block → Eval Value) : Prop :=
  ∀ callee args, good callee → (∀ arg ∈ args, good arg) → P Value (apply run callee args) good

/-- What a statement does with a good value, be it to bind it or to return it, has a property. -/
def Stmt.Permits (good : Value → Prop) (P : (α : Type) → Eval α → (α → Prop) → Prop)
    (scope : Nat) : Stmt → Prop
  | .bind name _ => ∀ value, good value →
    P Unit (Effect.update (·.define scope name value)) fun _ => True
  | .ret _ => ∀ value, good value → P (Option Value) (throw (.ret value)) fun found =>
    ∀ other ∈ found, good other
  | .expr _ => True

/-- The names used in code are known ones. What it binds does not matter. -/
def Mention.Known (known : String → Prop) : Mention → Prop
  | .ident name => known name
  | .target _ | .function _ => True

theorem forall_known_iff {known : String → Prop} {mentions : List Mention} :
    (∀ mention ∈ mentions, mention.Known known) ↔
      ∀ name ∈ mentions.filterMap Mention.ident?, known name := by
  constructor
  · intro hknown name hname
    obtain ⟨mention, hmem, hident⟩ := List.mem_filterMap.mp hname
    cases mention with
    | ident other =>
      cases hident
      exact hknown _ hmem
    | target | function => cases hident
  · intro hknown mention hmem
    cases mention with
    | ident name => exact hknown name (List.mem_filterMap.mpr ⟨_, hmem, rfl⟩)
    | target | function => trivial

namespace NamedTracking

variable {known : String → Prop} {good : Value → Prop} {filled : Hash → Prop}

/-- What is good does not depend on the heap, so there is a single stage. -/
def discipline (known : String → Prop) (good : Value → Prop) (filled : Hash → Prop) :
    Discipline Unit where
  later _ _ := True
  known := Mention.Known known
  good _ := good
  filled _ := filled
  callable _ closure := ∀ name ∈ idents closure.body, known name

/-- A property that does not depend on the stage either. -/
def Single (P : (α : Type) → Eval α → (α → Prop) → Prop) (stage : Unit) (α : Type)
    (effect : Eval α) (post : Unit → α → Prop) : Prop :=
  P α effect (post stage)

variable {P : (α : Type) → Eval α → (α → Prop) → Prop} (hP : NamedTracking known good filled P)

include hP

theorem scalar {value : Value} (hvalue : value.Scalar) : good value := by
  cases value with
  | int value => exact hP.int value
  | bool value => exact hP.bool value
  | string text => exact hP.string text
  | null => exact hP.null
  | array | hash | function | builtin | error => cases hvalue

/-- Whoever sees the whole heap sees every part of it. -/
theorem read {α : Type} {view : Heap → α} {post : α → Prop}
    (hview : ∀ heap, heap.Admits known good → post (view heap)) : P α (Effect.read view) post :=
  hP.bind hP.heap fun heap hheap => hP.pure (hview heap hheap)

theorem staged : StagedTracking (discipline known good filled) (Single P) where
  pure hvalue := hP.pure hvalue
  bind hfirst hnext := hP.bind hfirst fun _ hvalue => hnext trivial hvalue
  fail fault := hP.fail fault
  good_later _ hvalue := hvalue
  filled_later _ hhash := hhash
  scalar hvalue := hP.scalar hvalue
  builtin hname hcallee := hP.builtin hname hcallee
  empty := hP.empty
  insert hhash hkey hvalue hhashKey := hP.insert hhash hkey hvalue hhashKey
  lookup _ _ := hP.read fun _ hheap _ hvalue => hheap.values.lookup hvalue
  sequence _ := hP.read fun _ hheap => hheap.values.elements _
  subscript _ _ := hP.read fun _ hheap _ hvalue => hheap.values.subscript hP.null hvalue
  closure _ := hP.read fun _ hheap closure hclosure =>
    hheap.bodies closure (Array.mem_of_getElem? hclosure)
  texts _ := hP.read fun _ _ => trivial
  newArray hitems := hP.newArray hitems
  newHash hhash := hP.newHash hhash
  newClosure := by
    intro stage closure hknown
    have hbody := forall_known_iff.mp (List.forall_mem_cons.mp hknown).2
    rw [filterMap_mentions] at hbody
    exact hP.newClosure hbody

theorem getD {found : Option Value} (hfound : ∀ value ∈ found, good value) :
    good (found.getD .null) := by
  have hgood : (discipline known good filled).good () (found.getD .null) := hP.staged.getD hfound
  exact hgood

section

variable {run : Nat → Block → Eval Value} {scope : Nat}

omit hP in
theorem suits {stmt : Stmt} (hstmt : stmt.Permits good P scope) :
    stmt.Suits (discipline known good filled) (Single P) scope := by
  cases stmt with
  | bind name value => exact fun _ _ {_ found} hfound => hstmt found hfound
  | ret value => exact fun {_ found} hfound => hstmt found hfound
  | expr value => trivial

/-- Evaluating an expression is a sequence of calls, of what its own statements do, and of parts
that change no scope. If it mentions known names only and calls give good values for good ones, so
does the expression. -/
theorem evalExpr (happly : CallsTracked good P run) (expr : Expr)
    (hidents : ∀ name ∈ expr.idents, known name)
    (hown : ∀ stmt ∈ expr.ownStmts, stmt.Permits good P scope) :
    P Value (MonkeyLang.evalExpr run scope expr) good := by
  rw [← expr.filterMap_mentions] at hidents
  change Single P () _ _ fun _ => good
  exact hP.staged.evalExpr (fun _ => happly) expr (forall_known_iff.mpr hidents) fun stmt hstmt =>
    suits (hown stmt hstmt)

theorem evalStmt (happly : CallsTracked good P run) (stmt : Stmt)
    (hidents : ∀ name ∈ stmt.idents, known name)
    (hown : ∀ own ∈ stmt.ownStmts, own.Permits good P scope) :
    P (Option Value) (MonkeyLang.evalStmt run scope stmt) fun found =>
      ∀ value ∈ found, good value := by
  rw [← stmt.filterMap_mentions] at hidents
  change Single P () _ _ fun _ found => ∀ value ∈ found, good value
  exact hP.staged.evalStmt (fun _ => happly) stmt (forall_known_iff.mpr hidents) fun own hmem =>
    suits (hown own hmem)

theorem evalStmts (happly : CallsTracked good P run) (last : Option Value)
    (hlast : ∀ value ∈ last, good value) (stmts : List Stmt)
    (hidents : ∀ name ∈ idents stmts, known name)
    (hown : ∀ stmt ∈ ownStmts stmts, stmt.Permits good P scope) :
    P (Option Value) (MonkeyLang.evalStmts run scope last stmts) fun found =>
      ∀ value ∈ found, good value := by
  rw [← filterMap_mentions] at hidents
  change Single P () _ _ fun _ found => ∀ value ∈ found, good value
  exact hP.staged.evalStmts (fun _ => happly) last hlast stmts (forall_known_iff.mpr hidents)
    fun stmt hstmt => suits (hown stmt hstmt)

end

/-- A builtin function gives a new value, or one that it finds in an array, and stores nothing but
its arguments and what it finds there. Only `set` files anything in a hash. -/
theorem call (hinsert : good (.builtin .set) → ∀ id {key value : Value} {hashKey : HashKey},
      good key → good value → key.hashKey = .ok hashKey →
        P Unit (Effect.update (·.insert id hashKey ⟨key, value⟩)) fun _ => True)
    (hputLine : ∀ arg, P Unit (ofEffect (Builtin.putLine arg)) fun _ => True) {callee : Builtin}
    (hcallee : good (.builtin callee)) {args : List Value} (hargs : ∀ arg ∈ args, good arg) :
    P Value (ofEffect (callee.call args)) good := by
  change Single P () _ _ fun _ => good
  refine hP.staged.call ?_ (fun arg => hputLine arg) hcallee hargs
  intro stage hset id key value hashKey _ hkey hvalue hhashKey
  exact hinsert hset id hkey hvalue hhashKey

theorem bindAll {scope : Nat} (hdefine : ∀ name value, good value →
      P Unit (Effect.update (·.define scope name value)) fun _ => True)
    (bindings : List (String × Value)) (hbindings : ∀ binding ∈ bindings, good binding.2) :
    P Unit (MonkeyLang.bindAll scope bindings) fun _ => True := by
  change Single P () _ _ fun _ _ => True
  exact hP.staged.bindAll (fun binding _ {_} => hdefine binding.1 binding.2) hbindings

/-- A call is either that of a builtin function or a scope, its bindings and a body. -/
theorem apply {run : Nat → Block → Eval Value}
    (hcall : ∀ {callee args}, good (.builtin callee) → (∀ arg ∈ args, good arg) →
      P Value (ofEffect (Builtin.call callee args)) good)
    (hclosure : ∀ outer bindings body, (∀ name ∈ idents body, known name) →
      (∀ binding ∈ bindings, good binding.2) → P Value (do
        let scope ← Effect.allocate (·.newScope (some outer))
        MonkeyLang.bindAll scope bindings
        catchReturn (run scope body)) good) : CallsTracked good P run := by
  intro callee args hcallee hargs
  change Single P () _ _ fun _ => good
  refine hP.staged.apply (fun hcallee hargs => hcall hcallee hargs) ?_ () callee args hcallee hargs
  intro stage closure args hbody _ hargs
  exact hclosure _ _ _ hbody fun binding hbinding => hargs binding.2 (List.of_mem_zip hbinding).2

end NamedTracking

end MonkeyLang
