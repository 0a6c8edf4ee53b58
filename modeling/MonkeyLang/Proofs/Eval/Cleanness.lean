import MonkeyLang.Proofs.Eval.Frame
import MonkeyLang.Proofs.Eval.Interruption
import MonkeyLang.Proofs.Eval.Truncation

namespace MonkeyLang

open Eval

/-- A value other than an error. -/
def Value.Ordinary (value : Value) : Prop := ∀ fault, value ≠ .error fault

/-- No error is stored in a heap: none is bound in a scope, is an element of an array, or is a key
or a value of a hash. -/
def Heap.Clean (heap : Heap) : Prop := heap.Holds Value.Ordinary

/-- However evaluation ends, the heap that it leaves behind is clean. Its result is as described,
and what it returns to a call is not an error. -/
def CleanOutcome {α : Type} (post : α → Prop) : EStateM.Result Signal State α → Prop
  | .ok value after => after.heap.Clean ∧ post value
  | .error (.ret value) after => after.heap.Clean ∧ value.Ordinary
  | .error _ after => after.heap.Clean

/-- A computation that comes to a clean outcome on every clean heap. -/
def Clean (α : Type) (effect : Eval α) (post : α → Prop) : Prop :=
  ∀ state, state.heap.Clean → CleanOutcome post (effect state)

theorem CleanOutcome.heap {α : Type} {post : α → Prop} {effect : Eval α} {state : State}
    (hclean : CleanOutcome post (effect state)) : (effect.after state).heap.Clean := by
  rw [Effect.after]
  cases heffect : effect state with
  | ok value after =>
    rw [heffect] at hclean
    exact hclean.1
  | error signal after =>
    rw [heffect] at hclean
    cases signal with
    | ret value => exact hclean.1
    | fault fault => exact hclean
    | exhausted => exact hclean

namespace Clean

/-- A change of the heap that keeps it clean. -/
theorem update {change : Heap → Heap} (hchange : ∀ heap, heap.Clean → (change heap).Clean) :
    Clean Unit (Effect.update change) fun _ => True :=
  fun state hclean => ⟨hchange state.heap hclean, trivial⟩

theorem allocate {new : Heap → Nat × Heap} {post : Nat → Prop}
    (hnew : ∀ heap, heap.Clean → (new heap).2.Clean) (hpost : ∀ id, post id) :
    Clean Nat (Effect.allocate new) post :=
  fun state hclean => ⟨hnew state.heap hclean, hpost _⟩

theorem bind {α β : Type} {first : Eval α} {next : α → Eval β} {middle : α → Prop}
    {post : β → Prop} (hfirst : Clean α first middle)
    (hnext : ∀ value, middle value → Clean β (next value) post) :
    Clean β (first >>= next) post := by
  intro state hclean
  have houtcome := hfirst state hclean
  simp only [Bind.bind, EStateM.bind]
  cases hresult : first state with
  | ok value after =>
    rw [hresult] at houtcome
    exact hnext value houtcome.2 after houtcome.1
  | error signal after =>
    rw [hresult] at houtcome
    cases signal with
    | ret value => exact houtcome
    | fault fault => exact houtcome
    | exhausted => exact houtcome

theorem tracking : Tracking Value.Ordinary (Hash.Holds Value.Ordinary) Clean where
  pure hvalue _ hclean := ⟨hclean, hvalue⟩
  bind := bind
  fail _ _ hclean := hclean
  int _ := by simp [Value.Ordinary]
  bool _ := by simp [Value.Ordinary]
  string _ := by simp [Value.Ordinary]
  null := by simp [Value.Ordinary]
  builtin _ := by simp [Value.Ordinary]
  empty := Hash.holds_empty
  insert hhash hkey hvalue _ := hhash.insert hkey hvalue _
  heap _ hclean := ⟨hclean, hclean⟩
  newArray hitems := allocate (fun _ hclean => hclean.newArray hitems) (by simp [Value.Ordinary])
  newHash hhash := allocate (fun _ hclean => hclean.newHash hhash) (by simp [Value.Ordinary])
  newClosure _ := allocate (fun _ hclean => ⟨hclean.bindings, hclean.elements, hclean.contents⟩)
    (by simp [Value.Ordinary])

theorem permits (scope : Nat) (stmt : Stmt) : stmt.Permits Value.Ordinary Clean scope := by
  cases stmt with
  | bind name value => exact fun _ hvalue => update fun _ hclean => hclean.define scope name hvalue
  | ret value => exact fun _ hvalue _ hclean => ⟨hclean, hvalue⟩
  | expr value => trivial

theorem putLine (arg : Value) : Clean Unit (ofEffect (Builtin.putLine arg)) fun _ => True := by
  intro state hclean
  simp only [Builtin.putLine, ofEffect, EStateM.adaptExcept, Bind.bind, EStateM.bind, Effect.heap,
    Effect.print]
  cases state.heap.printLine arg state.output with
  | ok value output => exact ⟨hclean, trivial⟩
  | error error output => exact hclean

theorem catchReturn {body : Eval Value} (hbody : Clean Value body Value.Ordinary) :
    Clean Value (catchReturn body) Value.Ordinary := by
  intro state hclean
  have houtcome := hbody state hclean
  rw [Eval.catchReturn]
  cases hresult : body state with
  | ok value after =>
    rw [hresult] at houtcome
    exact houtcome
  | error signal after =>
    rw [hresult] at houtcome
    cases signal with
    | ret value => exact houtcome
    | fault fault => exact houtcome
    | exhausted => exact houtcome

theorem apply {run : Nat → Block → Eval Value}
    (hrun : ∀ scope body, Clean Value (run scope body) Value.Ordinary) :
    CallsTracked Value.Ordinary Clean run := by
  have hdefine (scope : Nat) (name : String) (value : Value) (hvalue : value.Ordinary) :
      Clean Unit (Effect.update (·.define scope name value)) fun _ => True :=
    update fun _ hclean => hclean.define scope name hvalue
  refine tracking.apply (tracking.call ?_ putLine) ?_
  · intro id key value hashKey hkey hvalue _
    exact update fun _ hclean => hclean.insert id hkey hvalue hashKey
  · intro outer bindings body hbindings
    refine bind (allocate (fun _ hclean => hclean.newScope outer) fun _ => trivial)
      fun scope _ => ?_
    refine bind (tracking.bindAll (hdefine scope) bindings hbindings) fun _ _ => ?_
    exact (hrun scope body).catchReturn

theorem runBody (depth scope : Nat) (body : Block) :
    Clean Value (runBody depth scope body) Value.Ordinary := by
  induction depth generalizing scope body with
  | zero => exact fun state hclean => hclean
  | succ depth ih =>
    have hstmts := tracking.evalStmts (apply ih) none (by simp) body fun stmt _ =>
      permits scope stmt
    exact bind hstmts fun _ hfound => tracking.pure (tracking.getD hfound)

theorem evalStmts (depth scope : Nat) (stmts : List Stmt) :
    Clean (Option Value) (evalStmts (MonkeyLang.runBody depth) scope none stmts) fun found =>
      ∀ value ∈ found, value.Ordinary :=
  tracking.evalStmts (apply (runBody depth)) none (by simp) stmts fun stmt _ => permits scope stmt

end Clean

/-- Whatever stops a program, its state is the one that its statements leave behind. -/
theorem after_evalProgram (run : Nat → Block → Eval Value) (scope : Nat) (stmts : List Stmt)
    (state : State) :
    (evalProgram run scope stmts).after state = (evalStmts run scope none stmts).after state := by
  simp only [Effect.after, evalProgram]
  cases evalStmts run scope none stmts state with
  | ok value after => rfl
  | error signal after => cases signal <;> rfl

/-- On a clean heap a program has an error for its value exactly if a statement failed with it, and
that was the last one to be evaluated. -/
theorem evalProgram_eq_error_iff {depth scope : Nat} {stmts : List Stmt} {state after : State}
    {fault : Fault} (hclean : state.heap.Clean) :
    evalProgram (runBody depth) scope stmts state = .ok (some (.error fault)) after ↔
      Stops (runBody depth) scope stmts state (.fault fault) after := by
  have houtcome := Clean.evalStmts depth scope stmts state hclean
  rw [stops_iff, evalProgram]
  constructor
  · intro hprogram
    cases hstmts : evalStmts (runBody depth) scope none stmts state with
    | ok value left =>
      rw [hstmts] at houtcome hprogram
      cases hprogram
      exact absurd rfl (houtcome.2 _ rfl fault)
    | error signal left =>
      rw [hstmts] at houtcome hprogram
      cases signal with
      | ret value =>
        cases hprogram
        exact absurd rfl (houtcome.2 fault)
      | fault found =>
        cases hprogram
        rfl
      | exhausted => cases hprogram
  · intro hstmts
    rw [hstmts]

theorem Effect.after_resume {ε δ α β : Type} (effect : Effect ε α)
    (next : Except ε α → Effect δ β) (state : State) :
    ∃ outcome, (effect.resume next).after state = (next outcome).after (effect.after state) := by
  simp only [after, resume]
  cases effect state with
  | ok value after => exact ⟨.ok value, rfl⟩
  | error error after => exact ⟨.error error, rfl⟩

namespace Session

theorem heap_after_writeErrors (messages : List String) (state : State) :
    ((writeErrors messages).after state).heap = state.heap := by
  simp only [writeErrors, Effect.after, Effect.write]
  rcases state.output.write (errorReport messages) with ⟨_ | _, output⟩ <;> rfl

theorem heap_after_report (outcome : Except Signal (Option Value)) (state : State) :
    ((report outcome).after state).heap = state.heap := by
  rcases report_cases outcome with hreport | ⟨value, hreport⟩ | hreport
  · rw [hreport]
    rfl
  · simp only [hreport, reportValue, Effect.after, bind, EStateM.bind, Effect.heap, Effect.print]
    cases state.heap.printLine value state.output <;> rfl
  · rw [hreport]
    rfl

/-- A run changes the heap through the statements of its program and in no other way. Nothing of
them is evaluated if there is no room for the report on syntax errors. -/
theorem heap_after_run (depth scope : Nat) (code : String) (state : State) :
    ((run depth scope code).after state).heap = state.heap ∨
      ∃ before : State, before.heap = state.heap ∧ ((run depth scope code).after state).heap =
        ((evalStmts (runBody depth) scope none (Program.parse code).stmts).after before).heap := by
  have hbody (before : State) :
      (((evalStmts (runBody depth) scope none (Program.parse code).stmts).resume report).after
        before).heap =
      ((evalStmts (runBody depth) scope none (Program.parse code).stmts).after before).heap := by
    obtain ⟨outcome, hafter⟩ := Effect.after_resume
      (evalStmts (runBody depth) scope none (Program.parse code).stmts) report before
    rw [hafter, heap_after_report]
  rw [run_eq]
  dsimp only
  split
  · exact .inr ⟨state, rfl, hbody state⟩
  · rcases Effect.after_bind (writeErrors _) _ state with hafter | ⟨value, hafter⟩
    · rw [hafter, heap_after_writeErrors]
      exact .inl rfl
    · rw [hafter, hbody]
      exact .inr ⟨_, heap_after_writeErrors _ state, rfl⟩

/-- The value of a program may be an error, but all that becomes of it is a line of text. -/
theorem clean_after_run (depth scope : Nat) (code : String) {state : State}
    (hclean : state.heap.Clean) : ((run depth scope code).after state).heap.Clean := by
  rcases heap_after_run depth scope code state with hafter | ⟨before, hbefore, hafter⟩
  · rw [hafter]
    exact hclean
  · rw [← hbefore] at hclean
    rw [hafter]
    exact (Clean.evalStmts depth scope _ before hclean).heap

/-- The state after some lines have been run one after another, however each of them ended. -/
def afterLines (depth scope : Nat) (lines : List String) (state : State) : State :=
  lines.foldl (fun state line => (run depth scope line).after state) state

theorem clean_afterLines (depth scope : Nat) (lines : List String) {state : State}
    (hclean : state.heap.Clean) : (afterLines depth scope lines state).heap.Clean := by
  induction lines generalizing state with
  | nil => exact hclean
  | cons line lines ih => exact ih (clean_after_run depth scope line hclean)

end Session

/-- Errors never become values. On a clean heap nothing but the value of a whole program is ever an
error, and it is one exactly if a statement failed, which was then the last one to be evaluated.
Whatever is evaluated leaves a clean heap behind, so the lines of a session never meet an error. -/
theorem errors_stay_apart (depth scope : Nat) :
    (∀ expr, Clean Value (evalExpr (runBody depth) scope expr) Value.Ordinary) ∧
    (∀ stmt, Clean (Option Value) (evalStmt (runBody depth) scope stmt) fun found =>
      ∀ value ∈ found, value.Ordinary) ∧
    (∀ block, Clean Value (evalBlock (runBody depth) scope block) Value.Ordinary) ∧
    (∀ callee args, callee.Ordinary → (∀ arg ∈ args, arg.Ordinary) →
      Clean Value (apply (runBody depth) callee args) Value.Ordinary) ∧
    (∀ stmts state, state.heap.Clean →
      ((evalProgram (runBody depth) scope stmts).after state).heap.Clean ∧
      ∀ fault after,
        evalProgram (runBody depth) scope stmts state = .ok (some (.error fault)) after ↔
          Stops (runBody depth) scope stmts state (.fault fault) after) ∧
    ∀ (lines : List String) (output : Output),
      let fresh := (Session.newScope : Effect Failure Nat).after ⟨{}, output⟩
      (Session.afterLines depth scope lines fresh).heap.Clean := by
  have happly := Clean.apply (Clean.runBody depth)
  refine ⟨fun expr => ?_, fun stmt => ?_, Clean.runBody (depth + 1) scope, happly,
    fun stmts state hclean => ⟨?_, fun fault after => evalProgram_eq_error_iff hclean⟩, ?_⟩
  · exact Clean.tracking.evalExpr happly expr fun stmt _ => Clean.permits scope stmt
  · exact Clean.tracking.evalStmt happly stmt fun own _ => Clean.permits scope own
  · rw [after_evalProgram]
    exact (Clean.evalStmts depth scope stmts state hclean).heap
  · intro lines output
    have hfresh : (Heap.newScope {} none).2.Clean := Heap.holds_empty.newScope none
    exact Session.clean_afterLines depth scope lines hfresh

/-- A function puts an array into a copy of itself, and the program fails when it looks behind the
only element. What it would print after that is not printed. -/
theorem errors_stay_apart_missing_element :
    let stmts := (Program.parse
      "let nest = fn(x) \x7b push(x, x) \x7d; let a = nest([]); first(rest(a)); puts(1)").stmts
    let state : State := ⟨{ scopes := #[{}] }, {}⟩
    (∃ after, Stops (runBody 1) 0 stmts state (.fault (.emptyArray .first)) after ∧
      after.heap.Clean) ∧
    Clean Value (apply (runBody 1) (.builtin .push) [.array 0, .null]) Value.Ordinary := by
  intro stmts state
  obtain ⟨-, -, -, happly, hprogram, -⟩ := errors_stay_apart 1 0
  obtain ⟨hheap, hstops⟩ := hprogram stmts state (Heap.holds_empty.newScope none)
  have hfault : (match evalProgram (runBody 1) 0 stmts state with
      | .ok (some (.error fault)) _ => some fault
      | _ => none) = some (.emptyArray .first) := by decide +kernel
  refine ⟨?_, happly _ _ (by simp [Value.Ordinary]) (by simp [Value.Ordinary])⟩
  split at hfault
  · rename_i fault after hvalue
    cases hfault
    refine ⟨after, (hstops _ _).mp hvalue, ?_⟩
    rw [Effect.after, hvalue] at hheap
    exact hheap
  · cases hfault

end MonkeyLang
