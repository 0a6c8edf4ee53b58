import MonkeyLang.Proofs.Eval.Chronicle
import MonkeyLang.Proofs.Eval.Record
import MonkeyLang.Proofs.Heap.Attribution

namespace MonkeyLang

open Eval Heap

theorem callees_append (moments more : List Moment) :
    callees (moments ++ more) = callees moments ++ callees more :=
  List.filterMap_append

/-- Code belongs to a scope if that is the first one, or if the function whose call made the scope
mentions all names of the code. -/
def Belongs (called : List Closure) (scope : Nat) (names : List String) : Prop :=
  scope = 0 ∨ ∃ closure, callee? called scope = some closure ∧ names ⊆ idents closure.body

/-- Code goes on belonging to its scope when other functions are called. -/
theorem Belongs.append {called : List Closure} {scope : Nat} {names : List String}
    (hnames : Belongs called scope names) (more : List Closure) :
    Belongs (called ++ more) scope names := by
  refine hnames.imp_right ?_
  rintro ⟨closure, hclosure, hsubset⟩
  refine ⟨closure, ?_, hsubset⟩
  cases scope with
  | zero => cases hclosure
  | succ scope =>
    obtain ⟨hlt, -⟩ := List.getElem?_eq_some_iff.mp hclosure
    rw [callee?, List.getElem?_append_left hlt]
    exact hclosure

/-- The body of a function belongs to the scope that its call makes. -/
theorem Heap.Attributed.belongs {called : List Closure} {heap : Heap}
    (hheap : heap.Attributed called) (closure : Closure) :
    Belongs (called ++ [closure]) heap.scopes.size (idents closure.body) := by
  refine .inr ⟨closure, ?_, List.Subset.refl _⟩
  rw [callee?_append, if_pos hheap.size]

/-- What a record tells of a moment fits what it has told before. The scopes are those of the calls
so far, a name belongs to the scope in which it is looked up, a `let` binds no name of a builtin
function, and only functions of the heap are called. -/
def Moment.Fits (past : List Moment) (moment : Moment) : Prop :=
  moment.state.heap.Attributed (callees past) ∧
    match moment with
    | .name scope text _ => Belongs (callees past) scope [text]
    | .bind _ text _ _ => Builtin.ofName? text = none
    | .call closure args state =>
      closure ∈ state.heap.closures ∧ args.length = closure.params.length

/-- Moments that fit those before them one after another. -/
def InOrder (past : List Moment) : List Moment → Prop
  | [] => True
  | moment :: rest => moment.Fits past ∧ InOrder (past ++ [moment]) rest

namespace InOrder

variable {past moments more : List Moment}

theorem append (hmoments : InOrder past moments) (hmore : InOrder (past ++ moments) more) :
    InOrder past (moments ++ more) := by
  induction moments generalizing past with
  | nil => rwa [List.append_nil] at hmore
  | cons moment moments ih =>
    rw [List.append_cons] at hmore
    exact ⟨hmoments.1, ih hmoments.2 hmore⟩

theorem fits {moment : Moment} (hmoments : InOrder past (moments ++ moment :: more)) :
    moment.Fits (past ++ moments) := by
  induction moments generalizing past with
  | nil =>
    rw [List.append_nil]
    exact hmoments.1
  | cons earlier moments ih =>
    rw [List.append_cons]
    exact ih hmoments.2

end InOrder

/-- A call goes on record and makes its scope, and then the body of the function is run. -/
theorem recordApply_function (recorded : Nat → Block → Recorded Signal Value) (id : Nat)
    (args : List Value) (state : State) :
    recordApply recorded (.function id) args state =
      match state.heap.closures[id]? with
      | none => (.error (.fault (.notCallable .function)) state, [])
      | some closure =>
        match Fault.arity? closure.params.length args.length with
        | some fault => (.error (.fault fault) state, [])
        | none =>
          let body := (recorded state.heap.scopes.size closure.body).catchReturn
            { state with heap := state.heap.enter closure args }
          (body.1, .call closure args state :: body.2) := by
  simp only [recordApply, bind, Recorded.resume, Recorded.lift, Effect.heap]
  cases state.heap.closures[id]? with
  | none => rfl
  | some closure =>
    dsimp only
    cases Fault.arity? closure.params.length args.length with
    | some fault => rfl
    | none =>
      simp only [Recorded.resume, Recorded.note, Recorded.lift, Effect.allocate, bindAll_eq]
      rfl

theorem apply_function (run : Nat → Block → Eval Value) (id : Nat) (args : List Value)
    (state : State) :
    apply run (.function id) args state =
      match state.heap.closures[id]? with
      | none => .error (.fault (.notCallable .function)) state
      | some closure =>
        match Fault.arity? closure.params.length args.length with
        | some fault => .error (.fault fault) state
        | none => catchReturn (run state.heap.scopes.size closure.body)
            { state with heap := state.heap.enter closure args } := by
  simp only [apply_function_eq, Effect.read, bind, EStateM.bind]
  cases state.heap.closures[id]? with
  | none => rfl
  | some closure =>
    dsimp only
    cases Fault.arity? closure.params.length args.length with
    | some fault => rfl
    | none =>
      exact enter_then closure args (fun scope => catchReturn (run scope closure.body)) state

theorem scopesStay : Composable fun _ effect => effect.Along fun before after =>
    after.scopes = before.scopes :=
  .of_preorder (fun _ => rfl) (fun hfirst hsecond => hsecond.trans hfirst) (fun _ _ => rfl)
    (fun _ _ => rfl) fun _ _ => rfl

/-- A computation with a record does what it does without one. If its code belongs to its scope,
then what it puts on record is in order, and the scopes that it leaves are those of the calls by
then. -/
structure Records (names : List String) (scope : Nat) {ε α : Type} (recorded : Recorded ε α)
    (effect : Effect ε α) : Prop where
  outcome : ∀ state, (recorded state).1 = effect state
  inOrder : ∀ past state, state.heap.Attributed (callees past) →
    Belongs (callees past) scope names → InOrder past (recorded state).2 ∧
      (effect.after state).heap.Attributed (callees (past ++ (recorded state).2))

/-- Ways to run the body of a function, with a record and without one. -/
def BodiesRecorded (recorded : Nat → Block → Recorded Signal Value)
    (run : Nat → Block → Eval Value) : Prop :=
  ∀ scope body, Records (idents body) scope (recorded scope body) (run scope body)

namespace Records

variable {names : List String} {scope : Nat} {ε δ α β : Type}

/-- A computation that leaves the scopes as they are needs no record. -/
theorem lift {effect : Effect ε α}
    (hscopes : effect.Along fun before after => after.scopes = before.scopes) :
    Records names scope (.lift effect) effect where
  outcome _ := rfl
  inOrder past state hheap _ := by
    refine ⟨trivial, ?_⟩
    simp only [Recorded.lift, List.append_nil]
    exact hheap.of_scopes_eq (hscopes state)

theorem pure (value : α) :
    Records names scope (Pure.pure value : Recorded ε α) (Pure.pure value) :=
  lift fun _ => rfl

theorem throw (error : ε) : Records names scope (.lift (throw error)) (throw error : Effect ε α) :=
  lift fun _ => rfl

theorem resume {first : Recorded ε α} {effect : Effect ε α} {next : Except ε α → Recorded δ β}
    {following : Except ε α → Effect δ β} (hfirst : Records names scope first effect)
    (hnext : ∀ outcome, Records names scope (next outcome) (following outcome)) :
    Records names scope (first.resume next) (effect.resume following) := by
  constructor
  · intro state
    simp only [Recorded.resume, Effect.resume, hfirst.outcome]
    cases effect state with
    | ok value middle => exact (hnext _).outcome middle
    | error error middle => exact (hnext _).outcome middle
  · intro past state hheap hnames
    obtain ⟨hmoments, hmiddle⟩ := hfirst.inOrder past state hheap hnames
    have hnames' : Belongs (callees (past ++ (first state).2)) scope names := by
      rw [callees_append]
      exact hnames.append _
    have htogether (outcome : Except ε α) (middle : State)
        (hmiddle : middle.heap.Attributed (callees (past ++ (first state).2))) :
        InOrder past ((first state).2 ++ (next outcome middle).2) ∧
          ((following outcome).after middle).heap.Attributed
            (callees (past ++ ((first state).2 ++ (next outcome middle).2))) := by
      obtain ⟨hmore, hafter⟩ := (hnext outcome).inOrder _ middle hmiddle hnames'
      rw [← List.append_assoc]
      exact ⟨hmoments.append hmore, hafter⟩
    simp only [Effect.after, Recorded.resume, Effect.resume, hfirst.outcome] at hmiddle ⊢
    cases hresult : effect state with
    | ok value middle =>
      rw [hresult] at hmiddle
      exact htogether (.ok value) middle hmiddle
    | error error middle =>
      rw [hresult] at hmiddle
      exact htogether (.error error) middle hmiddle

theorem bind {first : Recorded ε α} {effect : Effect ε α} {next : α → Recorded ε β}
    {following : α → Effect ε β} (hfirst : Records names scope first effect)
    (hnext : ∀ value, Records names scope (next value) (following value)) :
    Records names scope (first >>= next) (effect >>= following) := by
  rw [Effect.bind_eq_resume]
  refine hfirst.resume ?_
  rintro (error | value)
  · exact throw error
  · exact hnext value

theorem catchReturn {body : Recorded Signal Value} {effect : Eval Value}
    (hbody : Records names scope body effect) :
    Records names scope body.catchReturn (catchReturn effect) := by
  rw [catchReturn_eq_resume]
  refine hbody.resume ?_
  rintro (signal | value)
  · cases signal with
    | ret value => exact pure value
    | fault fault => exact throw _
    | exhausted => exact throw _
  · exact pure value

/-- A moment that is no call goes on record before whatever follows. -/
theorem note {moment : State → Moment} {next : Recorded ε α} {effect : Effect ε α}
    (hcallees : ∀ state, callees [moment state] = [])
    (hfits : ∀ past state, state.heap.Attributed (callees past) →
      Belongs (callees past) scope names → (moment state).Fits past)
    (hnext : Records names scope next effect) :
    Records names scope (do Recorded.note moment; next) effect where
  outcome := hnext.outcome
  inOrder past state hheap hnames := by
    have hpast : callees (past ++ [moment state]) = callees past := by
      rw [callees_append, hcallees, List.append_nil]
    obtain ⟨hmoments, hafter⟩ := hnext.inOrder (past ++ [moment state]) state
      (by rwa [hpast]) (by rwa [hpast])
    rw [← List.append_cons] at hafter
    exact ⟨⟨hfits past state hheap hnames, hmoments⟩, hafter⟩

theorem resolve {name : String} (hname : name ∈ names) :
    Records names scope (do
      Recorded.note (.name scope name)
      Recorded.lift (MonkeyLang.resolve scope name)) (MonkeyLang.resolve scope name) := by
  refine note (fun _ => rfl) (fun past state hheap hnames => ⟨hheap, ?_⟩) (lift ?_)
  · refine hnames.imp_right ?_
    rintro ⟨closure, hclosure, hsubset⟩
    exact ⟨closure, hclosure, by simpa using hsubset hname⟩
  · refine scopesStay.bind scopesStay.heap fun heap => ?_
    split
    · exact scopesStay.pure _
    split
    · exact scopesStay.pure _
    · exact scopesStay.fail _

/-- Only names that belong to no builtin function are bound outside of calls. -/
theorem define {name : String} (hname : Builtin.ofName? name = none) (value : Value) :
    Records names scope (.lift (Effect.update (·.define scope name value)))
      (Effect.update (·.define scope name value) : Effect ε Unit) where
  outcome _ := rfl
  inOrder past state hheap _ := by
    have hframe : Frame scope (name = ·) state.heap (state.heap.define scope name value) :=
      .define state.heap rfl value
    refine ⟨trivial, ?_⟩
    simp only [Recorded.lift, List.append_nil]
    exact hheap.frame hframe Array.size_modify (by rintro other rfl; exact hname)

section

variable {recorded : Nat → Block → Recorded Signal Value} {run : Nat → Block → Eval Value}

/-- The call of a function fits what is on record, and so does what its body does. -/
theorem function (hrun : BodiesRecorded recorded run) (id : Nat) (args : List Value) :
    Records names scope (recordApply recorded (.function id) args)
      (apply run (.function id) args) := by
  constructor
  · intro state
    rw [recordApply_function, apply_function]
    split
    · rfl
    split
    · rfl
    · exact (hrun _ _).catchReturn.outcome _
  · intro past state hheap hnames
    rw [Effect.after, recordApply_function, apply_function]
    cases hclosure : state.heap.closures[id]? with
    | none => exact ⟨trivial, by rwa [List.append_nil]⟩
    | some closure =>
      dsimp only
      cases harity : Fault.arity? closure.params.length args.length with
      | some fault => exact ⟨trivial, by rwa [List.append_nil]⟩
      | none =>
        let call := Moment.call closure args state
        have hcallees : callees (past ++ [call]) = callees past ++ [closure] := callees_append _ _
        have hentered := hheap.enter closure args
        have hbody := hheap.belongs closure
        rw [← hcallees] at hentered hbody
        obtain ⟨hmoments, hafter⟩ := (hrun state.heap.scopes.size closure.body).catchReturn.inOrder
          (past ++ [call]) { state with heap := state.heap.enter closure args } hentered hbody
        rw [← List.append_cons] at hafter
        exact ⟨⟨⟨hheap, Array.mem_of_getElem? hclosure, Fault.arity?_eq_none harity⟩, hmoments⟩,
          hafter⟩

theorem apply (hrun : BodiesRecorded recorded run) (callee : Value) (args : List Value) :
    Records names scope (recordApply recorded callee args) (apply run callee args) := by
  cases callee with
  | builtin callee =>
    refine lift (scopesStay.call (fun _ _ _ _ => rfl) (fun arg state => ?_) callee args)
    rw [heap_after_putLine]
  | function id => exact function hrun id args
  | int | bool | string | null | array | hash | error => exact lift fun _ => rfl

mutual

/-- An expression is evaluated in the same steps with a record and without one. -/
theorem recordExpr (hrun : BodiesRecorded recorded run) : (expr : Expr) → expr.idents ⊆ names →
      Records names scope (recordExpr recorded scope expr) (evalExpr run scope expr)
  | .ident name, hnames => by
    rw [MonkeyLang.recordExpr, evalExpr]
    exact resolve (hnames List.mem_cons_self)
  | .int _, _ | .string _, _ | .bool _, _ | .null, _ => by
    rw [MonkeyLang.recordExpr, evalExpr]
    exact pure _
  | .unary op operand, hnames => by
    rw [MonkeyLang.recordExpr, evalExpr]
    exact bind (recordExpr hrun operand hnames) fun _ => lift (scopesStay.ofExcept _)
  | .binary left op right, hnames => by
    obtain ⟨hleft, hright⟩ := List.append_subset.mp hnames
    rw [MonkeyLang.recordExpr, evalExpr]
    refine bind (recordExpr hrun left hleft) fun _ => ?_
    exact bind (recordExpr hrun right hright) fun _ => lift (scopesStay.ofExcept _)
  | .cond test yes none, hnames => by
    obtain ⟨htest, hyes⟩ := List.append_subset.mp hnames
    rw [MonkeyLang.recordExpr, evalExpr]
    refine bind (recordExpr hrun test htest) fun _ => ?_
    split
    · exact bind (recordStmts hrun none yes hyes) fun _ => pure _
    · exact pure _
  | .cond test yes (some no), hnames => by
    obtain ⟨htest, hbranches⟩ := List.append_subset.mp hnames
    obtain ⟨hyes, hno⟩ := List.append_subset.mp hbranches
    rw [MonkeyLang.recordExpr, evalExpr]
    refine bind (recordExpr hrun test htest) fun _ => ?_
    split
    · exact bind (recordStmts hrun none yes hyes) fun _ => pure _
    · exact bind (recordStmts hrun none no hno) fun _ => pure _
  | .ternary test yes no, hnames => by
    obtain ⟨htest, hbranches⟩ := List.append_subset.mp hnames
    obtain ⟨hyes, hno⟩ := List.append_subset.mp hbranches
    rw [MonkeyLang.recordExpr, evalExpr]
    refine bind (recordExpr hrun test htest) fun _ => ?_
    split
    · exact recordExpr hrun yes hyes
    · exact recordExpr hrun no hno
  | .function params body, _ => by
    rw [MonkeyLang.recordExpr, evalExpr]
    exact bind (lift (scopesStay.newClosure _)) fun _ => pure _
  | .call callee args, hnames => by
    obtain ⟨hcallee, hargs⟩ := List.append_subset.mp hnames
    rw [MonkeyLang.recordExpr, evalExpr]
    refine bind (recordExpr hrun callee hcallee) fun _ => ?_
    exact bind (recordItems hrun args hargs) fun _ => apply hrun _ _
  | .array items, hnames => by
    rw [MonkeyLang.recordExpr, evalExpr]
    refine bind (recordItems hrun items hnames) fun _ => ?_
    exact bind (lift (scopesStay.newArray _)) fun _ => pure _
  | .hash pairs, hnames => by
    rw [MonkeyLang.recordExpr, evalExpr]
    refine bind (recordPairs hrun .empty pairs hnames) fun _ => ?_
    exact bind (lift (scopesStay.newHash _)) fun _ => pure _
  | .index left index, hnames => by
    obtain ⟨hleft, hindex⟩ := List.append_subset.mp hnames
    rw [MonkeyLang.recordExpr, evalExpr]
    refine bind (recordExpr hrun left hleft) fun _ => ?_
    refine bind (recordExpr hrun index hindex) fun _ => lift ?_
    exact scopesStay.bind scopesStay.heap fun _ => scopesStay.ofExcept _

theorem recordItems (hrun : BodiesRecorded recorded run) :
    (items : List Expr) → itemIdents items ⊆ names →
      Records names scope (recordItems recorded scope items) (evalItems run scope items)
  | [], _ => by
    rw [MonkeyLang.recordItems, evalItems]
    exact pure _
  | item :: rest, hnames => by
    obtain ⟨hitem, hrest⟩ := List.append_subset.mp hnames
    rw [MonkeyLang.recordItems, evalItems]
    refine bind (recordExpr hrun item hitem) fun _ => ?_
    exact bind (recordItems hrun rest hrest) fun _ => pure _

theorem recordPairs (hrun : BodiesRecorded recorded run) (done : Hash) :
    (pairs : List (Expr × Expr)) → pairIdents pairs ⊆ names →
      Records names scope (recordPairs recorded scope done pairs) (evalPairs run scope done pairs)
  | [], _ => by
    rw [MonkeyLang.recordPairs, evalPairs]
    exact pure _
  | (key, value) :: rest, hnames => by
    obtain ⟨hkey, hmore⟩ := List.append_subset.mp hnames
    obtain ⟨hvalue, hrest⟩ := List.append_subset.mp hmore
    rw [MonkeyLang.recordPairs, evalPairs]
    refine bind (recordExpr hrun key hkey) fun _ => ?_
    refine bind (lift (scopesStay.ofExcept _)) fun _ => ?_
    exact bind (recordExpr hrun value hvalue) fun _ => recordPairs hrun _ rest hrest

theorem recordStmt (hrun : BodiesRecorded recorded run) : (stmt : Stmt) → stmt.idents ⊆ names →
      Records names scope (recordStmt recorded scope stmt) (evalStmt run scope stmt)
  | .bind name value, hnames => by
    rw [MonkeyLang.recordStmt, evalStmt]
    cases hname : Builtin.ofName? name with
    | some callee => exact lift (scopesStay.fail _)
    | none =>
      refine bind (recordExpr hrun value hnames) fun _ => ?_
      refine note (fun _ => rfl) (fun _ _ hheap _ => ⟨hheap, hname⟩) ?_
      exact bind (define hname _) fun _ => pure _
  | .ret none, _ => by
    rw [MonkeyLang.recordStmt, evalStmt]
    exact throw _
  | .ret (some value), hnames => by
    rw [MonkeyLang.recordStmt, evalStmt]
    exact bind (recordExpr hrun value hnames) fun _ => throw _
  | .expr value, hnames => by
    rw [MonkeyLang.recordStmt, evalStmt]
    exact bind (recordExpr hrun value hnames) fun _ => pure _

theorem recordStmts (hrun : BodiesRecorded recorded run) (last : Option Value) :
    (stmts : List Stmt) → idents stmts ⊆ names →
      Records names scope (recordStmts recorded scope last stmts) (evalStmts run scope last stmts)
  | [], _ => by
    rw [MonkeyLang.recordStmts, evalStmts]
    exact pure _
  | stmt :: rest, hnames => by
    obtain ⟨hstmt, hrest⟩ := List.append_subset.mp hnames
    rw [MonkeyLang.recordStmts, evalStmts]
    exact bind (recordStmt hrun stmt hstmt) fun value => recordStmts hrun value rest hrest

end

end

theorem recordBody (depth : Nat) : BodiesRecorded (recordBody depth) (runBody depth) := by
  intro scope body
  induction depth generalizing scope body with
  | zero => exact throw _
  | succ depth ih =>
    exact bind (recordStmts ih none body (List.Subset.refl _)) fun _ => pure _

/-- Nothing that a session writes goes on record. -/
theorem recordLine (depth scope : Nat) (line : String) :
    Records (idents (Program.parse line).stmts) scope (Session.recordLine depth scope line)
      (Session.run depth scope line) := by
  have hstmts : Records _ scope _ _ :=
    recordStmts (recordBody depth) none (Program.parse line).stmts (List.Subset.refl _)
  have hbody := hstmts.resume fun outcome => lift fun state =>
    congrArg Heap.scopes (Session.heap_after_report outcome state)
  rw [Session.run_eq, Session.recordLine]
  dsimp only
  split
  · exact hbody
  · refine bind (lift fun state => ?_) fun _ => hbody
    rw [Session.heap_after_writeErrors]

end Records

/-- Whatever lines a session runs, and however each of them ends, their record is in order. -/
theorem Session.inOrder_moments (depth : Nat) (lines : List String) (past : List Moment)
    (state : State) (hheap : state.heap.Attributed (callees past)) :
    InOrder past (moments depth 0 lines state) ∧
      (afterLines depth 0 lines state).heap.Attributed
        (callees (past ++ moments depth 0 lines state)) := by
  induction lines generalizing past state with
  | nil =>
    rw [moments, List.append_nil]
    exact ⟨trivial, hheap⟩
  | cons line lines ih =>
    obtain ⟨hline, hafter⟩ := (Records.recordLine depth 0 line).inOrder past state hheap (.inl rfl)
    obtain ⟨hlines, hlast⟩ := ih _ _ hafter
    rw [moments, ← List.append_assoc]
    exact ⟨hline.append hlines, hlast⟩

end MonkeyLang
