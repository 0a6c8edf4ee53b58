import MonkeyLang.Proofs.Eval.Cleanness
import MonkeyLang.Proofs.Heap.Growth

namespace MonkeyLang

open Eval

/-- The result of an evaluation is as described, and what it returns to a call is good. -/
def Yields {α : Type} (good : Value → Prop) (post : α → Prop) :
    EStateM.Result Signal State α → Prop
  | .ok value _ => post value
  | .error (.ret value) _ => good value
  | .error _ _ => True

namespace Yields

variable {good : Value → Prop}

/-- A signal says nothing about the result that is missing. -/
theorem of_error {α β : Type} {post : α → Prop} {post' : β → Prop} {signal : Signal}
    {state : State} (hyields : Yields good post (.error signal state)) :
    Yields good post' (.error signal state) := by
  cases signal with
  | ret value => exact hyields
  | fault fault => trivial
  | exhausted => trivial

theorem catchReturn {body : Eval Value} {state : State} (hyields : Yields good good (body state)) :
    Yields good good (catchReturn body state) := by
  rw [Eval.catchReturn]
  cases hresult : body state with
  | ok value after =>
    rw [hresult] at hyields
    exact hyields
  | error signal after =>
    rw [hresult] at hyields
    cases signal with
    | ret value => exact hyields
    | fault fault => trivial
    | exhausted => trivial

end Yields

section

variable (known : String → Prop) (good : Value → Prop) (R : Hash → Hash → Prop)

/-- What evaluation does to a heap. It retains what is there, and adds nothing but good values and
functions that mention known names. -/
structure Heap.Develops (before after : Heap) : Prop where
  retains : before.Retains R after
  admits : after.Admits known good

/-- A computation that, on a heap of good values, does no more than that and has a good outcome. -/
def Retaining (α : Type) (effect : Eval α) (post : α → Prop) : Prop :=
  ∀ state, state.heap.Admits known good →
    state.heap.Develops known good R (effect.after state).heap ∧ Yields good post (effect state)

/-- The changes of a hash that are possible for code which gets hold of good values only. It can get
hold of a builtin function by its name, and needs `set` for any change at all. -/
structure Retention : Prop where
  refl : ∀ hash, R hash hash
  trans : ∀ first second third, R first second → R second third → R first third
  plain : ∀ value, (∀ callee, value ≠ .builtin callee) → good value
  builtin : ∀ {name : String} {callee : Builtin}, known name →
    Builtin.ofName? name = some callee → good (.builtin callee)
  insert : good (.builtin .set) → ∀ (hash : Hash) {key : Value} {hashKey : HashKey},
    key.hashKey = .ok hashKey → ∀ value, R hash (hash.insert hashKey ⟨key, value⟩)

end

namespace Retaining

variable {known : String → Prop} {good : Value → Prop} {R : Hash → Hash → Prop}
  (hR : Retention known good R)

include hR

theorem bind {α β : Type} {first : Eval α} {next : α → Eval β} {middle : α → Prop}
    {post : β → Prop} (hfirst : Retaining known good R α first middle)
    (hnext : ∀ value, middle value → Retaining known good R β (next value) post) :
    Retaining known good R β (first >>= next) post := by
  intro state hheap
  obtain ⟨hdevelops, hyields⟩ := hfirst state hheap
  simp only [Effect.after, Bind.bind, EStateM.bind] at hdevelops ⊢
  cases hresult : first state with
  | ok value after =>
    simp only [hresult] at hdevelops hyields
    obtain ⟨hdevelops', hyields'⟩ := hnext value hyields after hdevelops.admits
    exact ⟨⟨hdevelops.retains.trans hR.trans hdevelops'.retains, hdevelops'.admits⟩, hyields'⟩
  | error signal after =>
    simp only [hresult] at hdevelops hyields
    exact ⟨hdevelops, hyields.of_error⟩

/-- A computation that leaves the heap as it is. -/
theorem of_heap_eq {α : Type} {effect : Eval α} {post : α → Prop}
    (hheap : ∀ state, (effect.after state).heap = state.heap)
    (hyields : ∀ state, state.heap.Admits known good → Yields good post (effect state)) :
    Retaining known good R α effect post := by
  intro state hadmits
  refine ⟨?_, hyields state hadmits⟩
  rw [hheap]
  exact ⟨.of_eq hR.refl rfl rfl, hadmits⟩

theorem tracking :
    NamedTracking known good (Hash.Holds good) (Retaining known good R) where
  pure hvalue := of_heap_eq hR (fun _ => rfl) fun _ _ => hvalue
  bind := bind hR
  fail _ := of_heap_eq hR (fun _ => rfl) fun _ _ => trivial
  int _ := hR.plain _ (by simp)
  bool _ := hR.plain _ (by simp)
  string _ := hR.plain _ (by simp)
  null := hR.plain _ (by simp)
  builtin := hR.builtin
  empty := Hash.holds_empty
  insert hhash hkey hvalue _ := hhash.insert hkey hvalue _
  heap := of_heap_eq hR (fun _ => rfl) fun _ hadmits => hadmits
  newArray hitems state hadmits :=
    ⟨⟨.newArray hR.refl state.heap _, hadmits.values.newArray hitems, hadmits.bodies⟩,
      hR.plain _ (by simp)⟩
  newHash hhash state hadmits :=
    ⟨⟨.newHash hR.refl state.heap _, hadmits.values.newHash hhash, hadmits.bodies⟩,
      hR.plain _ (by simp)⟩
  newClosure hbody state hadmits :=
    ⟨⟨.of_eq hR.refl rfl rfl, hadmits.newClosure hbody⟩, hR.plain _ (by simp)⟩

theorem define (scope : Nat) (name : String) {value : Value} (hvalue : good value) :
    Retaining known good R Unit (Effect.update (·.define scope name value)) fun _ => True :=
  fun _ hadmits =>
    ⟨⟨.of_eq hR.refl rfl rfl, hadmits.values.define scope name hvalue, hadmits.bodies⟩, trivial⟩

theorem permits (scope : Nat) (stmt : Stmt) :
    stmt.Permits good (Retaining known good R) scope := by
  cases stmt with
  | bind name value => exact fun _ hvalue => define hR scope name hvalue
  | ret value => exact fun _ hvalue => of_heap_eq hR (fun _ => rfl) fun _ _ => hvalue
  | expr value => trivial

theorem putLine (arg : Value) :
    Retaining known good R Unit (ofEffect (Builtin.putLine arg)) fun _ => True := by
  refine of_heap_eq hR (heap_after_putLine arg) fun state _ => ?_
  simp only [Builtin.putLine, ofEffect, EStateM.adaptExcept, Bind.bind, EStateM.bind, Effect.heap,
    Effect.print]
  cases state.heap.printLine arg state.output <;> trivial

omit hR in
theorem catchReturn {body : Eval Value} (hbody : Retaining known good R Value body good) :
    Retaining known good R Value (catchReturn body) good := by
  intro state hadmits
  obtain ⟨hdevelops, hyields⟩ := hbody state hadmits
  rw [after_catchReturn]
  exact ⟨hdevelops, hyields.catchReturn⟩

/-- The body of a function in the heap mentions known names only, so a call of it does no more than
other code does. -/
theorem apply {run : Nat → Block → Eval Value}
    (hrun : ∀ scope body, (∀ name ∈ idents body, known name) →
      Retaining known good R Value (run scope body) good) :
    CallsTracked good (Retaining known good R) run := by
  have hP := tracking hR
  refine hP.apply (fun hcallee hargs => hP.call ?_ (putLine hR) hcallee hargs) ?_
  · intro hset id key value hashKey hkey hvalue hhashKey state hadmits
    have hinsert (hash : Hash) := hR.insert hset hash hhashKey value
    exact ⟨⟨.insert hR.refl state.heap id hinsert, hadmits.values.insert id hkey hvalue hashKey,
      hadmits.bodies⟩, trivial⟩
  · intro outer bindings body hbody hbindings
    have hscope : Retaining known good R Nat (Effect.allocate (·.newScope (some outer)))
        fun _ => True := fun state hadmits =>
      ⟨⟨.of_eq hR.refl rfl rfl, hadmits.values.newScope (some outer), hadmits.bodies⟩, trivial⟩
    refine hP.bind hscope fun scope _ => ?_
    refine hP.bind (hP.bindAll (fun name _ => define hR scope name) bindings hbindings) ?_
    exact fun _ _ => catchReturn (hrun scope body hbody)

theorem runBody (depth scope : Nat) {body : Block} (hbody : ∀ name ∈ idents body, known name) :
    Retaining known good R Value (runBody depth scope body) good := by
  induction depth generalizing scope body with
  | zero => exact of_heap_eq hR (fun _ => rfl) fun _ _ => trivial
  | succ depth ih =>
    have hP := tracking hR
    have hstmts := hP.evalStmts (apply hR fun scope _ => ih scope) none (by simp) body hbody
      fun stmt _ => permits hR scope stmt
    exact hP.bind hstmts fun _ hfound => hP.pure (hP.getD hfound)

end Retaining

/-- What can be evaluated in a scope: a piece of code, the lines of a session, or a call. -/
inductive Evaluation where
  | expr (code : Expr)
  | stmt (code : Stmt)
  | block (code : Block)
  | program (code : List Stmt)
  | lines (code : List String)
  | call (callee : Value) (args : List Value)

namespace Evaluation

/-- The state that an evaluation leaves behind, whatever it comes to. -/
def after (depth scope : Nat) : Evaluation → State → State
  | expr code => (evalExpr (runBody depth) scope code).after
  | stmt code => (evalStmt (runBody depth) scope code).after
  | block code => (evalBlock (runBody depth) scope code).after
  | program code => (evalProgram (runBody depth) scope code).after
  | lines code => Session.afterLines depth scope code
  | call callee args => (apply (runBody depth) callee args).after

/-- The names that the evaluated code mentions. -/
def idents : Evaluation → List String
  | expr code => code.idents
  | stmt code => code.idents
  | block code | program code => MonkeyLang.idents code
  | lines code => code.flatMap fun line => MonkeyLang.idents (Program.parse line).stmts
  | call _ _ => []

/-- The values that are given to an evaluation. -/
def values : Evaluation → List Value
  | call callee args => callee :: args
  | _ => []

variable {known : String → Prop} {good : Value → Prop} {R : Hash → Hash → Prop}
  (hR : Retention known good R)

include hR

theorem develops_afterLines (depth scope : Nat) {lines : List String}
    (hlines : ∀ name ∈ (Evaluation.lines lines).idents, known name) {state : State}
    (hadmits : state.heap.Admits known good) :
    state.heap.Develops known good R (Session.afterLines depth scope lines state).heap := by
  induction lines generalizing state with
  | nil => exact ⟨.of_eq hR.refl rfl rfl, hadmits⟩
  | cons line lines ih =>
    rw [idents, List.flatMap_cons, List.forall_mem_append] at hlines
    have hline : state.heap.Develops known good R
        ((Session.run depth scope line).after state).heap := by
      rcases Session.heap_after_run depth scope line state with hafter | ⟨before, hbefore, hafter⟩
      · rw [hafter]
        exact ⟨.of_eq hR.refl rfl rfl, hadmits⟩
      · rw [← hbefore] at hadmits ⊢
        rw [hafter]
        have happly := Retaining.apply hR fun scope _ => Retaining.runBody hR depth scope
        exact ((Retaining.tracking hR).evalStmts happly none (by simp) _ hlines.1
          (fun stmt _ => Retaining.permits hR scope stmt) before hadmits).1
    have hrest := ih hlines.2 hline.admits
    exact ⟨hline.retains.trans hR.trans hrest.retains, hrest.admits⟩

/-- Whatever is evaluated on a heap of good values, it mentions known names only and is given good
values, so all it does to the hashes is possible for such code. -/
theorem develops_after (depth scope : Nat) (evaluation : Evaluation)
    (hidents : ∀ name ∈ evaluation.idents, known name)
    (hvalues : ∀ value ∈ evaluation.values, good value) {state : State}
    (hadmits : state.heap.Admits known good) :
    state.heap.Develops known good R (evaluation.after depth scope state).heap := by
  have hP := Retaining.tracking hR
  have happly := Retaining.apply hR fun scope _ => Retaining.runBody hR depth scope
  have hpermits (stmts : List Stmt) : ∀ stmt ∈ stmts, stmt.Permits good _ scope :=
    fun stmt _ => Retaining.permits hR scope stmt
  cases evaluation with
  | expr expr => exact (hP.evalExpr happly expr hidents (hpermits _) state hadmits).1
  | stmt stmt => exact (hP.evalStmt happly stmt hidents (hpermits _) state hadmits).1
  | block block => exact (Retaining.runBody hR (depth + 1) scope hidents state hadmits).1
  | program stmts =>
    rw [after, after_evalProgram]
    exact (hP.evalStmts happly none (by simp) stmts hidents (hpermits _) state hadmits).1
  | lines lines => exact develops_afterLines hR depth scope hidents hadmits
  | call callee args =>
    obtain ⟨hcallee, hargs⟩ := List.forall_mem_cons.mp hvalues
    exact (happly callee args hcallee hargs state hadmits).1

end Evaluation

private theorem retention_grown : Retention (fun _ => True) (fun _ => True) Hash.Grown where
  refl := .refl
  trans _ _ _ := .trans
  plain _ _ := trivial
  builtin _ _ := trivial
  insert _ hash _ _ hkey value := .insert hash hkey value

theorem Builtin.name_of_ofName? {name : String} {callee : Builtin}
    (hcallee : ofName? name = some callee) : name = callee.name := by
  unfold ofName? at hcallee
  split at hcallee <;> cases hcallee <;> rfl

private theorem retention_eq : Retention (· ≠ "set") (· ≠ .builtin .set) Eq where
  refl _ := rfl
  trans _ _ _ := Eq.trans
  plain _ hvalue := hvalue .set
  builtin := by
    rintro name callee hname hcallee ⟨⟩
    exact hname (Builtin.name_of_ofName? hcallee)
  insert hset := absurd rfl hset

/-- No program changes an array, and all that becomes of a hash is that pairs are filed in it, so
its keys stay where they are. It does not even change where nothing in reach is `set`: the code and
the functions of the heap do not mention it, it is not stored anywhere, and the call is not given
it. -/
theorem containers_over_runs (depth scope : Nat) (evaluation : Evaluation) (state : State) :
    let after := evaluation.after depth scope state
    (∀ (id : Nat) (items : Sequence Value), state.heap.arrays[id]? = some items →
      after.heap.arrays[id]? = some items) ∧
    (∀ (id : Nat) (old : Hash), state.heap.hashes[id]? = some old →
      ∃ new, after.heap.hashes[id]? = some new ∧ old.Grown new ∧
        old.entries.map Prod.fst <+: new.entries.map Prod.fst) ∧
    (state.heap.Admits (· ≠ "set") (· ≠ .builtin .set) → "set" ∉ evaluation.idents →
      .builtin .set ∉ evaluation.values → ∀ (id : Nat) (old : Hash),
        state.heap.hashes[id]? = some old → after.heap.hashes[id]? = some old) := by
  intro after
  have hadmits : state.heap.Admits (fun _ => True) fun _ => True :=
    ⟨⟨fun _ _ _ => trivial, fun _ _ _ => trivial, fun _ _ _ => ⟨trivial, trivial⟩⟩,
      fun _ _ _ _ => trivial⟩
  have hgrown := (evaluation.develops_after retention_grown depth scope (fun _ _ => trivial)
    (fun _ _ => trivial) hadmits).retains
  refine ⟨hgrown.arrays, fun id old hold => ?_, fun hadmits hidents hvalues id old hold => ?_⟩
  · obtain ⟨new, hnew, hold⟩ := hgrown.hashes id old hold
    exact ⟨new, hnew, hold, hold.prefix_keys⟩
  · have hkept := (evaluation.develops_after retention_eq depth scope
      (fun _ hname => ne_of_mem_of_not_mem hname hidents)
      (fun _ hvalue => ne_of_mem_of_not_mem hvalue hvalues) hadmits).retains
    obtain ⟨new, hnew, rfl⟩ := hkept.hashes id old hold
    exact hnew

/-- Two lines hand an array and a hash to a function and put them into new arrays, and the second
line fails on the way. -/
theorem containers_over_runs_push :
    let heap := ((Heap.newScope {} none).2.newArray (.ofList [.int 1])).2
    let heap := ((heap.newHash .empty).2.define 0 "a" (.array 0)).define 0 "h" (.hash 0)
    let evaluation : Evaluation :=
      .lines ["let add = fn(x) \x7b push(a, x) \x7d; add(h)", "[add(a), first([])]"]
    let after := evaluation.after 1 0 ⟨heap, {}⟩
    heap.Admits (· ≠ "set") (· ≠ .builtin .set) ∧ "set" ∉ evaluation.idents ∧
      .builtin .set ∉ evaluation.values ∧
      after.heap.arrays[0]? = some (.ofList [.int 1]) ∧ after.heap.hashes[0]? = some .empty := by
  intro heap heap' evaluation after
  have hvalues : heap'.Holds (· ≠ .builtin .set) := by
    have harray : heap.Holds (· ≠ .builtin .set) :=
      (Heap.holds_empty.newScope none).newArray (by simp [Sequence.toList_ofList])
    exact ((harray.newHash Hash.holds_empty).define 0 "a" (by simp)).define 0 "h" (by simp)
  have hadmits : heap'.Admits (· ≠ "set") (· ≠ .builtin .set) :=
    ⟨hvalues, fun closure hmem => absurd hmem (Array.not_mem_empty closure)⟩
  have hidents : "set" ∉ evaluation.idents := by decide +kernel
  have hcall : .builtin .set ∉ evaluation.values := by simp [evaluation, Evaluation.values]
  obtain ⟨harrays, -, hhashes⟩ := containers_over_runs 1 0 evaluation ⟨heap', {}⟩
  exact ⟨hadmits, hidents, hcall, harrays 0 _ rfl, hhashes hadmits hidents hcall 0 _ rfl⟩

end MonkeyLang
