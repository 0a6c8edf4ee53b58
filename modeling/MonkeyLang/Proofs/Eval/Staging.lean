import MonkeyLang.Eval
import MonkeyLang.Proofs.Expr.Occurrence

namespace MonkeyLang

/-- A value that refers to nothing and cannot be called. -/
def Value.Scalar : Value → Prop
  | .int _ | .bool _ | .string _ | .null => True
  | _ => False

/-- The places at which names stand in a function. -/
def Closure.mentions (closure : Closure) : List Mention :=
  .function closure.params :: MonkeyLang.mentions closure.body

/-- What can be seen of the heap as it is now. -/
def Effect.read {ε α : Type} (view : Heap → α) : Effect ε α := fun state =>
  .ok (view state.heap) state

theorem Eval.ofEffect_bind {α β : Type} (first : Effect Fault α) (next : α → Effect Fault β) :
    ofEffect (first >>= next) = ofEffect first >>= fun value => ofEffect (next value) := by
  funext state
  simp only [ofEffect, EStateM.adaptExcept, bind, EStateM.bind]
  cases first state <;> rfl

/-- The value of a name depends on what the heap binds it to. -/
theorem resolve_eq (scope : Nat) (name : String) : resolve scope name =
    (do
      match ← Effect.read (·.lookup name scope) with
      | some value => return value
      | none =>
        match Builtin.ofName? name with
        | some callee => return .builtin callee
        | none => Eval.fail (.unbound name)) :=
  rfl

private theorem subscript_eq (left index : Value) :
    (do Eval.ofExcept ((← Effect.heap).subscript left index)) =
      Effect.read (·.subscript left index) >>= Eval.ofExcept :=
  rfl

private theorem ofEffect_sputs (args : List Value) :
    Eval.ofEffect (do return .string ("\n".intercalate (args.map (← Effect.heap).render))) =
      Effect.read (fun heap => args.map heap.render) >>= fun texts =>
        (pure (.string ("\n".intercalate texts)) : Eval Value) :=
  rfl

/-- The call of a function depends on what the heap knows about it. -/
theorem apply_function_eq (run : Nat → Block → Eval Value) (id : Nat) (args : List Value) :
    apply run (.function id) args = (do
      match ← Effect.read (·.closures[id]?) with
      | none => Eval.fail (.notCallable .function)
      | some closure =>
        match Fault.arity? closure.params.length args.length with
        | some fault => Eval.fail fault
        | none =>
          let scope ← Effect.allocate (·.newScope (some closure.scope))
          bindAll scope (closure.params.zip args)
          Eval.catchReturn (run scope closure.body)) :=
  rfl

theorem Fault.arity?_eq_none {expected received : Nat} (harity : arity? expected received = none) :
    received = expected := by
  unfold arity? at harity
  split at harity
  · assumption
  · cases harity

open Eval

/-- What code may rely on while it is evaluated. The heap goes through stages, and what is good at
one of them is good at all later ones. -/
structure Discipline (Stage : Type) where
  later : Stage → Stage → Prop
  /-- Where names may stand in the code. -/
  known : Mention → Prop
  good : Stage → Value → Prop
  /-- The hashes that may be filled with good keys and values. -/
  filled : Stage → Hash → Prop
  /-- The functions that may be called. -/
  callable : Stage → Closure → Prop

/-- A property of computations that begin at some stage. It says what their results are like at the
stage at which they end. A sequence has it if each part has it at whatever stage the parts before it
end. The heap is only looked at in a few ways, so that a property may be about several heaps at
once as long as they look the same. -/
structure StagedTracking {Stage : Type} (D : Discipline Stage)
    (P : Stage → (α : Type) → Eval α → (Stage → α → Prop) → Prop) : Prop where
  pure : ∀ {stage} {α : Type} {post : Stage → α → Prop} {value : α}, post stage value →
    P stage α (Pure.pure value) post
  bind : ∀ {stage} {α β : Type} {first : Eval α} {next : α → Eval β} {middle : Stage → α → Prop}
    {post : Stage → β → Prop}, P stage α first middle →
      (∀ {after value}, D.later stage after → middle after value → P after β (next value) post) →
        P stage β (first >>= next) post
  fail : ∀ {stage} {α : Type} {post : Stage → α → Prop} (fault : Fault),
    P stage α (Eval.fail fault) post
  good_later : ∀ {stage after value}, D.later stage after → D.good stage value →
    D.good after value
  filled_later : ∀ {stage after hash}, D.later stage after → D.filled stage hash →
    D.filled after hash
  scalar : ∀ {stage value}, value.Scalar → D.good stage value
  builtin : ∀ {stage name callee}, D.known (.ident name) → Builtin.ofName? name = some callee →
    D.good stage (.builtin callee)
  empty : ∀ {stage}, D.filled stage .empty
  insert : ∀ {stage hash key value hashKey}, D.filled stage hash → D.good stage key →
    D.good stage value → key.hashKey = .ok hashKey →
      D.filled stage (IndexedMap.insert hash hashKey ⟨key, value⟩)
  lookup : ∀ {stage name} (scope : Nat), D.known (.ident name) →
    P stage (Option Value) (Effect.read (·.lookup name scope)) fun after found =>
      ∀ value ∈ found, D.good after value
  sequence : ∀ {stage id}, D.good stage (.array id) →
    P stage (Sequence Value) (Effect.read (·.sequence id)) fun after items =>
      ∀ item ∈ items.toList, D.good after item
  subscript : ∀ {stage left} (index : Value), D.good stage left →
    P stage (Except Fault Value) (Effect.read (·.subscript left index)) fun after outcome =>
      ∀ value, outcome = .ok value → D.good after value
  closure : ∀ {stage id}, D.good stage (.function id) →
    P stage (Option Closure) (Effect.read (·.closures[id]?)) fun after found =>
      ∀ closure ∈ found, D.callable after closure
  texts : ∀ {stage} (args : List Value),
    P stage (List String) (Effect.read fun heap => args.map heap.render) fun _ _ => True
  newArray : ∀ {stage} {items : Sequence Value}, (∀ item ∈ items.toList, D.good stage item) →
    P stage Nat (Effect.allocate (·.newArray items)) fun after id => D.good after (.array id)
  newHash : ∀ {stage hash}, D.filled stage hash →
    P stage Nat (Effect.allocate (·.newHash hash)) fun after id => D.good after (.hash id)
  newClosure : ∀ {stage} {closure : Closure}, (∀ mention ∈ closure.mentions, D.known mention) →
    P stage Nat (Effect.allocate (·.newClosure closure)) fun after id =>
      D.good after (.function id)

section

variable {Stage : Type} (D : Discipline Stage)
  (P : Stage → (α : Type) → Eval α → (Stage → α → Prop) → Prop)

/-- Calls of good values with good arguments give good values. -/
def CallsStaged (run : Nat → Block → Eval Value) : Prop :=
  ∀ stage callee args, D.good stage callee → (∀ arg ∈ args, D.good stage arg) →
    P stage Value (apply run callee args) D.good

/-- What a statement does with a good value, be it to bind it or to return it, has a property. The
name of a builtin function is never bound by a `let`. -/
def Stmt.Suits (scope : Nat) : Stmt → Prop
  | .bind name _ => D.known (.target name) → Builtin.ofName? name = none →
    ∀ {stage value}, D.good stage value →
      P stage Unit (Effect.update (·.define scope name value)) fun _ _ => True
  | .ret _ => ∀ {stage value}, D.good stage value →
    P stage (Option Value) (throw (.ret value)) fun after found =>
      ∀ other ∈ found, D.good after other
  | .expr _ => True

end

namespace StagedTracking

variable {Stage : Type} {D : Discipline Stage}
  {P : Stage → (α : Type) → Eval α → (Stage → α → Prop) → Prop} (hP : StagedTracking D P)
  {stage : Stage}

include hP

theorem ofExcept {α : Type} {post : Stage → α → Prop} {outcome : Except Fault α}
    (hpost : ∀ value, outcome = .ok value → post stage value) :
    P stage α (Eval.ofExcept outcome) post := by
  cases outcome with
  | ok value => exact hP.pure (hpost value rfl)
  | error fault => exact hP.fail fault

/-- What comes out of an outcome is what it says. -/
theorem outcome {α : Type} (outcome : Except Fault α) :
    P stage α (Eval.ofExcept outcome) fun _ value => outcome = .ok value :=
  hP.ofExcept fun _ hvalue => hvalue

theorem resolve (scope : Nat) {name : String} (hname : D.known (.ident name)) :
    P stage Value (MonkeyLang.resolve scope name) D.good := by
  rw [resolve_eq]
  refine hP.bind (hP.lookup scope hname) fun _ hfound => ?_
  split
  · exact hP.pure (hfound _ rfl)
  split
  · rename_i callee hcallee
    exact hP.pure (hP.builtin hname hcallee)
  · exact hP.fail _

theorem getD {found : Option Value} (hfound : ∀ value ∈ found, D.good stage value) :
    D.good stage (found.getD .null) := by
  cases found with
  | none => exact hP.scalar trivial
  | some value => exact hfound value rfl

theorem unary (op : UnaryOp) (operand : Value) :
    P stage Value (Eval.ofExcept (op.apply operand)) D.good := by
  refine hP.ofExcept fun value hvalue => hP.scalar ?_
  unfold UnaryOp.apply at hvalue
  split at hvalue <;> cases hvalue <;> trivial

theorem binary (op : BinaryOp) (left right : Value) :
    P stage Value (Eval.ofExcept (op.apply left right)) D.good := by
  have hint (x y : Int64) : ∀ value, op.applyInt x y = .ok value → value.Scalar := by
    intro value hvalue
    cases op with
    | add | sub | mul | less | greater | equal | notEqual =>
      cases hvalue
      trivial
    | div =>
      rw [BinaryOp.applyInt] at hvalue
      split at hvalue <;> cases hvalue
      trivial
  refine hP.ofExcept fun value hvalue => hP.scalar ?_
  unfold BinaryOp.apply at hvalue
  split at hvalue
  · exact hint _ _ value hvalue
  · cases hvalue
    trivial
  · split at hvalue <;> cases hvalue
    trivial
  · split at hvalue <;> cases hvalue
    trivial
  · cases hvalue

section

variable {run : Nat → Block → Eval Value} {scope : Nat}

mutual

/-- Evaluating an expression is a sequence of calls, of what its own statements do, and of parts
that change no scope. If its names stand where they may and calls give good values for good ones,
so does the expression. -/
theorem evalExpr (happly : CallsStaged D P run) {stage : Stage} : (expr : Expr) →
    (∀ mention ∈ expr.mentions, D.known mention) →
    (∀ stmt ∈ expr.ownStmts, stmt.Suits D P scope) →
      P stage Value (MonkeyLang.evalExpr run scope expr) D.good
  | .ident name, hknown, _ => by
    rw [MonkeyLang.evalExpr]
    exact hP.resolve scope (hknown _ (List.mem_singleton_self _))
  | .int _, _, _ => by
    rw [MonkeyLang.evalExpr]
    exact hP.pure (hP.scalar trivial)
  | .string _, _, _ => by
    rw [MonkeyLang.evalExpr]
    exact hP.pure (hP.scalar trivial)
  | .bool _, _, _ => by
    rw [MonkeyLang.evalExpr]
    exact hP.pure (hP.scalar trivial)
  | .null, _, _ => by
    rw [MonkeyLang.evalExpr]
    exact hP.pure (hP.scalar trivial)
  | .unary op operand, hknown, hown => by
    rw [MonkeyLang.evalExpr]
    exact hP.bind (evalExpr happly operand hknown hown) fun _ _ => hP.unary op _
  | .binary left op right, hknown, hown => by
    obtain ⟨hknown, hknown'⟩ := List.forall_mem_append.mp hknown
    obtain ⟨hleft, hright⟩ := List.forall_mem_append.mp hown
    rw [MonkeyLang.evalExpr]
    refine hP.bind (evalExpr happly left hknown hleft) fun _ _ => ?_
    exact hP.bind (evalExpr happly right hknown' hright) fun _ _ => hP.binary op _ _
  | .cond test yes none, hknown, hown => by
    obtain ⟨hknown, hknown'⟩ := List.forall_mem_append.mp hknown
    obtain ⟨htest, hyes⟩ := List.forall_mem_append.mp hown
    rw [MonkeyLang.evalExpr]
    refine hP.bind (evalExpr happly test hknown htest) fun _ _ => ?_
    split
    · exact hP.bind (evalStmts happly none (by simp) yes hknown' hyes) fun _ hfound =>
        hP.pure (hP.getD hfound)
    · exact hP.pure (hP.scalar trivial)
  | .cond test yes (some no), hknown, hown => by
    obtain ⟨hknown, hblocks⟩ := List.forall_mem_append.mp hknown
    obtain ⟨hknownYes, hknownNo⟩ := List.forall_mem_append.mp hblocks
    obtain ⟨htest, hblocks⟩ := List.forall_mem_append.mp hown
    obtain ⟨hyes, hno⟩ := List.forall_mem_append.mp hblocks
    rw [MonkeyLang.evalExpr]
    refine hP.bind (evalExpr happly test hknown htest) fun _ _ => ?_
    split
    · exact hP.bind (evalStmts happly none (by simp) yes hknownYes hyes) fun _ hfound =>
        hP.pure (hP.getD hfound)
    · exact hP.bind (evalStmts happly none (by simp) no hknownNo hno) fun _ hfound =>
        hP.pure (hP.getD hfound)
  | .ternary test yes no, hknown, hown => by
    obtain ⟨hknown, hbranches⟩ := List.forall_mem_append.mp hknown
    obtain ⟨hknownYes, hknownNo⟩ := List.forall_mem_append.mp hbranches
    obtain ⟨htest, hbranches⟩ := List.forall_mem_append.mp hown
    obtain ⟨hyes, hno⟩ := List.forall_mem_append.mp hbranches
    rw [MonkeyLang.evalExpr]
    refine hP.bind (evalExpr happly test hknown htest) fun _ _ => ?_
    split
    · exact evalExpr happly yes hknownYes hyes
    · exact evalExpr happly no hknownNo hno
  | .function params body, hknown, _ => by
    rw [MonkeyLang.evalExpr]
    exact hP.bind (hP.newClosure hknown) fun _ hid => hP.pure hid
  | .call callee args, hknown, hown => by
    obtain ⟨hknown, hknown'⟩ := List.forall_mem_append.mp hknown
    obtain ⟨hcallee, hargs⟩ := List.forall_mem_append.mp hown
    rw [MonkeyLang.evalExpr]
    refine hP.bind (evalExpr happly callee hknown hcallee) fun _ hfunction => ?_
    exact hP.bind (evalItems happly args hknown' hargs) fun hlater hvalues =>
      happly _ _ _ (hP.good_later hlater hfunction) hvalues
  | .array items, hknown, hown => by
    rw [MonkeyLang.evalExpr]
    refine hP.bind (evalItems happly items hknown hown) fun {after values} _ hvalues => ?_
    have hitems : ∀ item ∈ (Sequence.ofList values).toList, D.good after item := by
      rw [Sequence.toList_ofList]
      exact hvalues
    exact hP.bind (hP.newArray hitems) fun _ hid => hP.pure hid
  | .hash pairs, hknown, hown => by
    rw [MonkeyLang.evalExpr]
    refine hP.bind (evalPairs happly hP.empty pairs hknown hown) fun _ hhash => ?_
    exact hP.bind (hP.newHash hhash) fun _ hid => hP.pure hid
  | .index left index, hknown, hown => by
    obtain ⟨hknown, hknown'⟩ := List.forall_mem_append.mp hknown
    obtain ⟨hleft, hindex⟩ := List.forall_mem_append.mp hown
    rw [MonkeyLang.evalExpr]
    refine hP.bind (evalExpr happly left hknown hleft) fun _ hgood => ?_
    refine hP.bind (evalExpr happly index hknown' hindex) fun hlater _ => ?_
    rw [subscript_eq]
    exact hP.bind (hP.subscript _ (hP.good_later hlater hgood)) fun _ hvalue =>
      hP.ofExcept hvalue

theorem evalItems (happly : CallsStaged D P run) {stage : Stage} : (items : List Expr) →
    (∀ mention ∈ itemMentions items, D.known mention) →
    (∀ stmt ∈ itemStmts items, stmt.Suits D P scope) →
      P stage (List Value) (MonkeyLang.evalItems run scope items) fun after values =>
        ∀ value ∈ values, D.good after value
  | [], _, _ => by
    rw [MonkeyLang.evalItems]
    exact hP.pure (by simp)
  | item :: rest, hknown, hown => by
    obtain ⟨hknown, hknown'⟩ := List.forall_mem_append.mp hknown
    obtain ⟨hitem, hrest⟩ := List.forall_mem_append.mp hown
    rw [MonkeyLang.evalItems]
    refine hP.bind (evalExpr happly item hknown hitem) fun _ hvalue => ?_
    exact hP.bind (evalItems happly rest hknown' hrest) fun hlater hvalues =>
      hP.pure (List.forall_mem_cons.mpr ⟨hP.good_later hlater hvalue, hvalues⟩)

theorem evalPairs (happly : CallsStaged D P run) {stage : Stage} {done : Hash}
    (hdone : D.filled stage done) : (pairs : List (Expr × Expr)) →
    (∀ mention ∈ pairMentions pairs, D.known mention) →
    (∀ stmt ∈ pairStmts pairs, stmt.Suits D P scope) →
      P stage Hash (MonkeyLang.evalPairs run scope done pairs) D.filled
  | [], _, _ => by
    rw [MonkeyLang.evalPairs]
    exact hP.pure hdone
  | (key, value) :: rest, hknown, hown => by
    obtain ⟨hknownKey, hknown⟩ := List.forall_mem_append.mp hknown
    obtain ⟨hknownValue, hknown⟩ := List.forall_mem_append.mp hknown
    obtain ⟨hkey, hown⟩ := List.forall_mem_append.mp hown
    obtain ⟨hvalue, hrest⟩ := List.forall_mem_append.mp hown
    rw [MonkeyLang.evalPairs]
    refine hP.bind (evalExpr happly key hknownKey hkey) fun hlater hgoodKey => ?_
    replace hdone := hP.filled_later hlater hdone
    refine hP.bind (hP.outcome _) fun hlater hhashKey => ?_
    replace hdone := hP.filled_later hlater hdone
    replace hgoodKey := hP.good_later hlater hgoodKey
    refine hP.bind (evalExpr happly value hknownValue hvalue) fun hlater hgood => ?_
    replace hdone := hP.filled_later hlater hdone
    replace hgoodKey := hP.good_later hlater hgoodKey
    exact evalPairs happly (hP.insert hdone hgoodKey hgood hhashKey) rest hknown hrest

theorem evalStmt (happly : CallsStaged D P run) {stage : Stage} : (stmt : Stmt) →
    (∀ mention ∈ stmt.mentions, D.known mention) →
    (∀ own ∈ stmt.ownStmts, own.Suits D P scope) →
      P stage (Option Value) (MonkeyLang.evalStmt run scope stmt) fun after found =>
        ∀ value ∈ found, D.good after value
  | .bind name value, hknown, hown => by
    obtain ⟨htarget, hknown⟩ := List.forall_mem_cons.mp hknown
    obtain ⟨hself, hvalue⟩ := List.forall_mem_cons.mp hown
    rw [MonkeyLang.evalStmt]
    split
    · exact hP.fail _
    · rename_i hname
      refine hP.bind (evalExpr happly value hknown hvalue) fun _ hgood => ?_
      exact hP.bind (hself htarget hname hgood) fun _ _ => hP.pure (by simp)
  | .ret none, _, hown => by
    rw [MonkeyLang.evalStmt]
    exact (List.forall_mem_cons.mp hown).1 (hP.scalar trivial)
  | .ret (some value), hknown, hown => by
    obtain ⟨hself, hvalue⟩ := List.forall_mem_cons.mp hown
    rw [MonkeyLang.evalStmt]
    exact hP.bind (evalExpr happly value hknown hvalue) fun _ hgood => hself hgood
  | .expr value, hknown, hown => by
    rw [MonkeyLang.evalStmt]
    exact hP.bind (evalExpr happly value hknown (List.forall_mem_cons.mp hown).2) fun _ hgood =>
      hP.pure (by simpa using hgood)

theorem evalStmts (happly : CallsStaged D P run) {stage : Stage} (last : Option Value)
    (hlast : ∀ value ∈ last, D.good stage value) : (stmts : List Stmt) →
    (∀ mention ∈ mentions stmts, D.known mention) →
    (∀ stmt ∈ ownStmts stmts, stmt.Suits D P scope) →
      P stage (Option Value) (MonkeyLang.evalStmts run scope last stmts) fun after found =>
        ∀ value ∈ found, D.good after value
  | [], _, _ => by
    rw [MonkeyLang.evalStmts]
    exact hP.pure hlast
  | stmt :: rest, hknown, hown => by
    obtain ⟨hknown, hknown'⟩ := List.forall_mem_append.mp hknown
    obtain ⟨hstmt, hrest⟩ := List.forall_mem_append.mp hown
    rw [MonkeyLang.evalStmts]
    exact hP.bind (evalStmt happly stmt hknown hstmt) fun _ hfound =>
      evalStmts happly _ hfound rest hknown' hrest

end

end

theorem sequenceOf (callee : Builtin) {arg : Value} (harg : D.good stage arg) :
    P stage (Sequence Value) (ofEffect (Builtin.sequenceOf callee arg)) fun after items =>
      ∀ item ∈ items.toList, D.good after item := by
  unfold Builtin.sequenceOf
  split
  · exact hP.sequence harg
  · exact hP.fail _

theorem nonemptyOf (callee : Builtin) {arg : Value} (harg : D.good stage arg) :
    P stage (Sequence Value) (ofEffect (Builtin.nonemptyOf callee arg)) fun after items =>
      ∀ item ∈ items.toList, D.good after item := by
  rw [Builtin.nonemptyOf, ofEffect_bind]
  refine hP.bind (hP.sequenceOf callee harg) fun _ hitems => ?_
  split
  · exact hP.fail _
  · exact hP.pure hitems

theorem forM {α : Type} {action : α → Effect Fault PUnit} {stage : Stage} (items : List α)
    (haction : ∀ {stage} item, P stage PUnit (ofEffect (action item)) fun _ _ => True) :
    P stage PUnit (ofEffect (items.forM action)) fun _ _ => True := by
  induction items generalizing stage with
  | nil => exact hP.pure trivial
  | cons item rest ih =>
    change P stage PUnit (ofEffect (action item >>= fun _ => rest.forM action)) _
    rw [ofEffect_bind]
    exact hP.bind (haction item) fun _ _ => ih

theorem newArrayOf {items : Sequence Value} (hitems : ∀ item ∈ items.toList, D.good stage item) :
    P stage Value (ofEffect (Builtin.newArray items)) D.good := by
  rw [Builtin.newArray, ofEffect_bind]
  exact hP.bind (hP.newArray hitems) fun _ hid => hP.pure hid

theorem callLen {arg : Value} (harg : D.good stage arg) :
    P stage Value (ofEffect (Builtin.callLen arg)) D.good := by
  unfold Builtin.callLen
  split
  · exact hP.pure (hP.scalar trivial)
  · rename_i id
    change P stage Value (Effect.read (·.sequence id) >>= fun items =>
      Pure.pure (.int (.ofNat items.size))) D.good
    exact hP.bind (hP.sequence harg) fun _ _ => hP.pure (hP.scalar trivial)
  · exact hP.fail _

/-- A builtin function gives a new value, or one that it finds in an array, and stores nothing but
its arguments and what it finds there. Only `set` files anything in a hash. -/
theorem call (hinsert : ∀ {stage}, D.good stage (.builtin .set) → ∀ {id key value hashKey},
      D.good stage (.hash id) → D.good stage key → D.good stage value →
        key.hashKey = .ok hashKey →
          P stage Unit (Effect.update (·.insert id hashKey ⟨key, value⟩)) fun _ _ => True)
    (hputLine : ∀ {stage} arg, P stage Unit (ofEffect (Builtin.putLine arg)) fun _ _ => True)
    {stage : Stage} {callee : Builtin} (hcallee : D.good stage (.builtin callee))
    {args : List Value} (hargs : ∀ arg ∈ args, D.good stage arg) :
    P stage Value (ofEffect (callee.call args)) D.good := by
  unfold Builtin.call
  split
  · exact hP.callLen (hargs _ (by simp))
  · rw [ofEffect_bind]
    refine hP.bind (hP.nonemptyOf _ (hargs _ (by simp))) fun _ hitems =>
      hP.pure (hP.getD fun item hitem => ?_)
    rw [Sequence.first?, ← Sequence.getElem?_toList] at hitem
    exact hitems item (List.mem_of_getElem? hitem)
  · rw [ofEffect_bind]
    refine hP.bind (hP.nonemptyOf _ (hargs _ (by simp))) fun _ hitems =>
      hP.pure (hP.getD fun item hitem => ?_)
    rw [← Sequence.getLast?_toList] at hitem
    exact hitems item (List.mem_of_getLast? hitem)
  · rw [ofEffect_bind]
    refine hP.bind (hP.nonemptyOf _ (hargs _ (by simp))) fun _ hitems =>
      hP.newArrayOf fun item hitem => ?_
    rw [Sequence.toList_rest] at hitem
    exact hitems item (List.mem_of_mem_tail hitem)
  · rw [ofEffect_bind]
    refine hP.bind (hP.sequenceOf _ (hargs _ (by simp))) fun hlater hitems =>
      hP.newArrayOf fun item hitem => ?_
    rw [Sequence.toList_push, List.mem_append, List.mem_singleton] at hitem
    rcases hitem with hold | rfl
    · exact hitems item hold
    · exact hP.good_later hlater (hargs item (by simp))
  · unfold Builtin.callSet
    split
    · rw [ofEffect_bind]
      refine hP.bind (hP.outcome _) fun hlater hkey => ?_
      replace hargs arg harg := hP.good_later hlater (hargs arg harg)
      rw [ofEffect_bind]
      exact hP.bind (hinsert (hP.good_later hlater hcallee) (hargs _ (by simp)) (hargs _ (by simp))
        (hargs _ (by simp)) hkey) fun _ _ => hP.pure (hP.scalar trivial)
    · exact hP.fail _
  · rw [ofEffect_bind]
    exact hP.bind (hP.forM _ hputLine) fun _ _ => hP.pure (hP.scalar trivial)
  · rw [ofEffect_sputs]
    exact hP.bind (hP.texts _) fun _ _ => hP.pure (hP.scalar trivial)
  all_goals exact hP.fail _

theorem bindAll {scope : Nat} {stage : Stage} : {bindings : List (String × Value)} →
    (∀ binding ∈ bindings, ∀ {stage}, D.good stage binding.2 →
      P stage Unit (Effect.update (·.define scope binding.1 binding.2)) fun _ _ => True) →
    (∀ binding ∈ bindings, D.good stage binding.2) →
      P stage Unit (MonkeyLang.bindAll scope bindings) fun _ _ => True
  | [], _, _ => hP.pure trivial
  | _ :: _, hdefine, hbindings => by
    obtain ⟨hfirst, hdefine⟩ := List.forall_mem_cons.mp hdefine
    obtain ⟨hvalue, hrest⟩ := List.forall_mem_cons.mp hbindings
    exact hP.bind (hfirst hvalue) fun hlater _ => bindAll hdefine fun binding hbinding =>
      hP.good_later hlater (hrest binding hbinding)

/-- A call is either that of a builtin function or a scope, its bindings and a body. -/
theorem apply {run : Nat → Block → Eval Value}
    (hcall : ∀ {stage callee args}, D.good stage (.builtin callee) →
      (∀ arg ∈ args, D.good stage arg) → P stage Value (ofEffect (Builtin.call callee args)) D.good)
    (hclosure : ∀ {stage closure args}, D.callable stage closure →
      args.length = closure.params.length → (∀ arg ∈ args, D.good stage arg) →
        P stage Value (do
          let scope ← Effect.allocate (·.newScope (some closure.scope))
          MonkeyLang.bindAll scope (closure.params.zip args)
          catchReturn (run scope closure.body)) D.good) : CallsStaged D P run := by
  intro stage callee args hcallee hargs
  cases callee with
  | builtin callee => exact hcall hcallee hargs
  | function id =>
    rw [apply_function_eq]
    refine hP.bind (hP.closure hcallee) fun hlater hfound => ?_
    split
    · exact hP.fail _
    rename_i closure
    split
    · exact hP.fail _
    · rename_i harity
      refine hclosure (hfound closure rfl) (Fault.arity?_eq_none harity) fun arg harg => ?_
      exact hP.good_later hlater (hargs arg harg)
  | int | bool | string | null | array | hash | error => exact hP.fail _

end StagedTracking

end MonkeyLang
