import MonkeyLang.Proofs.Eval.Composition
import MonkeyLang.Proofs.Eval.Depth
import MonkeyLang.Proofs.Eval.Staging
import MonkeyLang.Proofs.Heap.Contents

namespace MonkeyLang

open Eval

/-- A value other than a function that a program has written. -/
def Value.Plain (value : Value) : Prop := ∀ id, value ≠ .function id

/-- No function is bound in a scope, is an element of an array or is a value of a hash. -/
def Heap.FunctionFree (heap : Heap) : Prop := heap.Stores (fun _ => True) Value.Plain

theorem Value.plain_of_hashKey (value : Value) (hashKey : HashKey)
    (hkey : value.hashKey = .ok hashKey) : value.Plain := by
  rintro id rfl
  cases hkey

/-- A heap in which no function is within reach and to which none was added. The keys of its hashes
have a property of their own. -/
structure Heap.Plain (goodKey : Value → Prop) (closures : Array Closure) (heap : Heap) : Prop where
  stores : heap.Stores goodKey Value.Plain
  closures_eq : heap.closures = closures

/-- Evaluation does not give up, and however it ends it leaves a heap without functions behind. Its
result is as described, and what it returns to a call is no function. -/
def PlainOutcome {α : Type} (goodKey : Value → Prop) (closures : Array Closure) (post : α → Prop) :
    EStateM.Result Signal State α → Prop
  | .ok value after => after.heap.Plain goodKey closures ∧ post value
  | .error (.ret value) after => after.heap.Plain goodKey closures ∧ value.Plain
  | .error (.fault _) after => after.heap.Plain goodKey closures
  | .error .exhausted _ => False

/-- Code without function literals. It has no function to call. -/
def Mention.plain (goodKey : Value → Prop) : Discipline Unit where
  later _ _ := True
  known mention := ∀ params, mention ≠ .function params
  good _ value := value.Plain
  filled _ hash := hash.Stores goodKey Value.Plain
  callable _ _ := False

/-- A computation that ends on every heap without functions. -/
def Concludes (goodKey : Value → Prop) (closures : Array Closure) (_ : Unit) (α : Type)
    (effect : Eval α) (post : Unit → α → Prop) : Prop :=
  ∀ state, state.heap.Plain goodKey closures →
    PlainOutcome goodKey closures (post ()) (effect state)

namespace Concludes

variable {goodKey : Value → Prop} {closures : Array Closure}

theorem bind {α β : Type} {first : Eval α} {next : α → Eval β} {middle : Unit → α → Prop}
    {post : Unit → β → Prop} (hfirst : Concludes goodKey closures () α first middle)
    (hnext : ∀ value, middle () value → Concludes goodKey closures () β (next value) post) :
    Concludes goodKey closures () β (first >>= next) post := by
  intro state hplain
  have houtcome := hfirst state hplain
  simp only [Bind.bind, EStateM.bind]
  cases hresult : first state with
  | ok value after =>
    rw [hresult] at houtcome
    exact hnext value houtcome.2 after houtcome.1
  | error signal after =>
    rw [hresult] at houtcome
    cases signal with
    | ret value => exact houtcome
    | fault fault => exact houtcome
    | exhausted => exact houtcome

theorem read {α : Type} {view : Heap → α} {post : Unit → α → Prop}
    (hview : ∀ heap : Heap, heap.Stores goodKey Value.Plain → post () (view heap)) :
    Concludes goodKey closures () α (Effect.read view) post :=
  fun state hplain => ⟨hplain, hview state.heap hplain.stores⟩

theorem allocate {new : Heap → Nat × Heap} {post : Unit → Nat → Prop}
    (hnew : ∀ heap : Heap, heap.Plain goodKey closures → (new heap).2.Plain goodKey closures)
    (hpost : ∀ id, post () id) : Concludes goodKey closures () Nat (Effect.allocate new) post :=
  fun state hplain => ⟨hnew state.heap hplain, hpost _⟩

theorem update {change : Heap → Heap}
    (hchange : ∀ heap : Heap, heap.Plain goodKey closures → (change heap).Plain goodKey closures) :
    Concludes goodKey closures () Unit (Effect.update change) fun _ _ => True :=
  fun state hplain => ⟨hchange state.heap hplain, trivial⟩

theorem putLine (arg : Value) :
    Concludes goodKey closures () Unit (ofEffect (Builtin.putLine arg)) fun _ _ => True := by
  intro state hplain
  simp only [Builtin.putLine, ofEffect, EStateM.adaptExcept, Bind.bind, EStateM.bind, Effect.heap,
    Effect.print]
  cases state.heap.printLine arg state.output with
  | ok value output => exact ⟨hplain, trivial⟩
  | error error output => exact hplain

theorem suits (scope : Nat) (stmt : Stmt) :
    stmt.Suits (Mention.plain goodKey) (Concludes goodKey closures) scope := by
  cases stmt with
  | bind name value =>
    exact fun _ _ _ _ hvalue => update fun _ hplain =>
      ⟨hplain.stores.define scope name hvalue, hplain.closures_eq⟩
  | ret value => exact fun hvalue _ hplain => ⟨hplain, hvalue⟩
  | expr value => trivial

variable (hkeys : ∀ key hashKey, Value.hashKey key = .ok hashKey → goodKey key)

include hkeys

theorem staged : StagedTracking (Mention.plain goodKey) (Concludes goodKey closures) where
  pure hvalue _ hplain := ⟨hplain, hvalue⟩
  bind hfirst hnext := bind hfirst fun _ hmiddle => hnext trivial hmiddle
  fail _ _ hplain := hplain
  good_later _ hgood := hgood
  filled_later _ hfilled := hfilled
  scalar hscalar id heq := by
    subst heq
    cases hscalar
  builtin _ _ id heq := by cases heq
  empty := Hash.stores_empty
  insert hhash _ hvalue hkey := hhash.insert (hkeys _ _ hkey) hvalue _
  lookup _ _ := read fun _ hstores _ hvalue => hstores.lookup hvalue
  sequence _ := read fun _ hstores => hstores.elements _
  subscript _ _ := read fun _ hstores _ hvalue => hstores.subscript (by simp [Value.Plain]) hvalue
  closure hgood := absurd rfl (hgood _)
  texts _ := read fun _ _ => trivial
  newArray hitems := allocate (fun _ hplain => ⟨hplain.stores.newArray hitems, hplain.closures_eq⟩)
    (by simp [Mention.plain, Value.Plain])
  newHash hhash := allocate (fun _ hplain => ⟨hplain.stores.newHash hhash, hplain.closures_eq⟩)
    (by simp [Mention.plain, Value.Plain])
  newClosure hknown := absurd rfl (hknown _ List.mem_cons_self _)

/-- No call runs the body of a function. -/
theorem apply (run : Nat → Block → Eval Value) :
    CallsStaged (Mention.plain goodKey) (Concludes goodKey closures) run := by
  have hP : StagedTracking (Mention.plain goodKey) (Concludes goodKey closures) := staged hkeys
  refine hP.apply (fun hcallee hargs => hP.call ?_ putLine hcallee hargs) fun hcallable _ _ =>
    hcallable.elim
  intro _ _ id key value hashKey _ _ hvalue hkey
  exact update fun _ hplain =>
    ⟨hplain.stores.insert id (hkeys _ _ hkey) hvalue hashKey, hplain.closures_eq⟩

theorem evalStmts (run : Nat → Block → Eval Value) (scope : Nat) {stmts : List Stmt}
    (hstmts : ∀ params, Mention.function params ∉ mentions stmts) :
    Concludes goodKey closures () (Option Value) (evalStmts run scope none stmts) fun _ found =>
      ∀ value ∈ found, value.Plain :=
  (staged hkeys).evalStmts (apply hkeys run) none (by simp) stmts
    (fun _ hmention params heq => hstmts params (heq ▸ hmention)) fun stmt _ => suits scope stmt

theorem evalProgram (run : Nat → Block → Eval Value) (scope : Nat) {stmts : List Stmt}
    (hstmts : ∀ params, Mention.function params ∉ mentions stmts) {state : State}
    (hstate : state.heap.Stores goodKey Value.Plain) :
    ∃ found after, evalProgram run scope stmts state = .ok found after ∧
      after.heap.Plain goodKey state.heap.closures ∧ ∀ value ∈ found, value.Plain := by
  have houtcome := evalStmts hkeys run scope hstmts state ⟨hstate, rfl⟩
  rw [MonkeyLang.evalProgram]
  cases hresult : MonkeyLang.evalStmts run scope none stmts state with
  | ok found after =>
    rw [hresult] at houtcome
    exact ⟨found, after, rfl, houtcome.1, houtcome.2⟩
  | error signal after =>
    rw [hresult] at houtcome
    cases signal with
    | ret value => exact ⟨some value, after, rfl, houtcome.1, by simpa using houtcome.2⟩
    | fault fault => exact ⟨some (.error fault), after, rfl, houtcome, by simp [Value.Plain]⟩
    | exhausted => exact houtcome.elim

end Concludes

/-- A program without function literals ends if no function is within its reach. It comes to the
same whatever would run the bodies of functions, so it runs none. No function has come about, and
none is in the state or the result, not even as a key unless it was one before. -/
theorem programs_without_functions_end (scope : Nat) (stmts : List Stmt) (state : State)
    (hstmts : ∀ params, Mention.function params ∉ mentions stmts)
    (hstate : state.heap.FunctionFree) :
    ∃ found after, (∀ run, evalProgram run scope stmts state = .ok found after) ∧
      (∀ value ∈ found, value.Plain) ∧ after.heap.FunctionFree ∧
      (state.heap.Holds Value.Plain → after.heap.Holds Value.Plain) ∧
      after.heap.closures = state.heap.closures := by
  -- Bodies that give up at once show what a program comes to without them.
  let idle : Nat → Block → Eval Value := fun _ _ => throw .exhausted
  obtain ⟨found, after, hidle, hplain, hfound⟩ :=
    Concludes.evalProgram (fun _ _ _ => trivial) idle scope hstmts hstate
  refine ⟨found, after, fun run => ?_, hfound, hplain.stores, fun hkeys => ?_, hplain.closures_eq⟩
  · rw [← hidle]
    refine ExtendedBy.evalProgram (fun _ _ => .exhausted _) stmts state fun last hlast => ?_
    rw [hidle] at hlast
    cases hlast
  · obtain ⟨found', after', hidle', hplain', -⟩ :=
      Concludes.evalProgram Value.plain_of_hashKey idle scope hstmts hkeys.stores
    rw [hidle] at hidle'
    cases hidle'
    exact hplain'.stores.holds

/-- A hash is filed in itself and called for a builtin function in it, which writes down the hash.
Then the program fails. -/
theorem programs_without_functions_end_cyclic :
    let hash : Expr := .ident "h"
    let stmts : List Stmt := [.bind "h" (.hash [(.int 1, .ident "sputs")]),
      .expr (.call (.ident "set") [hash, .int 2, hash]),
      .bind "text" (.call (.index (.index hash (.int 2)) (.int 1)) [hash]),
      .expr (.binary (.ident "text") .sub (.int 1))]
    let state : State := ⟨(Heap.newScope {} none).2, {}⟩
    let heap := ((evalProgram (runBody 0) 0 stmts).after state).heap
    (∀ params, Mention.function params ∉ mentions stmts) ∧ state.heap.FunctionFree ∧
      heap.lookup "text" 0 = some (.string "\x7b1: builtin function, 2: \x7b...\x7d\x7d") ∧
      ∃ found after, (∀ run, evalProgram run 0 stmts state = .ok found after) ∧
        (∀ value ∈ found, value.Plain) ∧ after.heap.Holds Value.Plain := by
  intro hash stmts state heap
  have hstmts : ∀ params, Mention.function params ∉ mentions stmts := by
    simp [stmts, hash, mentions, Stmt.mentions, Expr.mentions, itemMentions, pairMentions]
  have hstate : state.heap.FunctionFree := Heap.stores_empty.newScope none
  refine ⟨hstmts, hstate, by decide +kernel, ?_⟩
  obtain ⟨found, after, hruns, hfound, -, hkeys, -⟩ :=
    programs_without_functions_end 0 stmts state hstmts hstate
  exact ⟨found, after, hruns, hfound, hkeys (Heap.holds_empty.newScope none)⟩

end MonkeyLang
