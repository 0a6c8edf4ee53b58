import MonkeyLang.Proofs.Eval.Cleanness
import MonkeyLang.Proofs.Eval.Staging

namespace MonkeyLang

namespace OrderedMap

variable {K V : Type} [DecidableEq K]

/-- The map without the entry of a key. All other entries stay in their order. -/
def without (m : OrderedMap K V) (key : K) : OrderedMap K V :=
  ⟨m.entries.filter fun entry => entry.1 ≠ key⟩

theorem get?_without (m : OrderedMap K V) {key other : K} (hne : other ≠ key) :
    (m.without key).get? other = m.get? other := by
  obtain ⟨entries⟩ := m
  simp only [get?, without]
  induction entries with
  | nil => rfl
  | cons entry rest ih =>
    obtain ⟨k, v⟩ := entry
    by_cases hkey : k = key
    · rw [List.filter_cons_of_neg (by simpa using hkey), ih, List.lookup_cons, hkey,
        beq_false_of_ne hne]
    · rw [List.filter_cons_of_pos (by simpa using hkey), List.lookup_cons, List.lookup_cons, ih]

theorem insert_without (m : OrderedMap K V) {key other : K} (hne : other ≠ key) (value : V) :
    (m.without key).insert other value = (m.insert other value).without key := by
  obtain ⟨entries⟩ := m
  simp only [insert, without, mk.injEq]
  induction entries with
  | nil => simp [upsert, hne]
  | cons entry rest ih =>
    by_cases hkey : entry.1 = key
    · have hother : entry.1 ≠ other := fun hother => hne (hother.symm.trans hkey)
      rw [List.filter_cons_of_neg (by simpa using hkey), ih, upsert, if_neg hother,
        List.filter_cons_of_neg (by simpa using hkey)]
    · rw [List.filter_cons_of_pos (by simpa using hkey), upsert, upsert]
      split
      · rw [List.filter_cons_of_pos (by simpa using hne)]
      · rw [ih, List.filter_cons_of_pos (by simpa using hkey)]

theorem without_insert_self (m : OrderedMap K V) (key : K) (value : V) :
    (m.insert key value).without key = m.without key := by
  obtain ⟨entries⟩ := m
  simp only [insert, without, mk.injEq]
  induction entries with
  | nil => simp [upsert]
  | cons entry rest ih =>
    rw [upsert]
    split
    · rename_i hkey
      rw [List.filter_cons_of_neg (by simp), List.filter_cons_of_neg (by simpa using hkey)]
    · rename_i hkey
      rw [List.filter_cons_of_pos (by simpa using hkey),
        List.filter_cons_of_pos (by simpa using hkey), ih]

end OrderedMap

/-- The scope without its binding of a name. -/
def Scope.without (scope : Scope) (name : String) : Scope :=
  { scope with bindings := scope.bindings.without name }

/-- The heap without the binding of a name in one of its scopes. -/
def Heap.without (heap : Heap) (scope : Nat) (name : String) : Heap :=
  { heap with scopes := heap.scopes.modify scope (·.without name) }

/-- The state without the binding of a name in one of its scopes. -/
def State.without (state : State) (scope : Nat) (name : String) : State :=
  { state with heap := state.heap.without scope name }

/-- The outcome of a computation, without the binding of a name in the state at the end. -/
def Effect.outcomeWithout {ε α : Type} (scope : Nat) (name : String) :
    EStateM.Result ε State α → EStateM.Result ε State α
  | .ok value after => .ok value (after.without scope name)
  | .error error after => .error error (after.without scope name)

namespace Heap

section

variable (heap : Heap) (hidden : Nat) {name other : String}

/-- Whoever looks for another name does not notice that a binding is missing. -/
theorem lookup_without (hne : other ≠ name) (scope : Nat) :
    (heap.without hidden name).lookup other scope = heap.lookup other scope := by
  have hseen {i : Nat} {found : Scope} (hfound : heap.scopes[i]? = some found) :
      ∃ seen, (heap.without hidden name).scopes[i]? = some seen ∧
        seen.bindings.get? other = found.bindings.get? other ∧ seen.outer = found.outer := by
    rw [without, Array.getElem?_modify, hfound]
    split
    · exact ⟨_, rfl, found.bindings.get?_without hne, rfl⟩
    · exact ⟨found, rfl, rfl, rfl⟩
  fun_induction Heap.lookup heap other scope with
  | case1 scope hscope =>
    have hnone : (heap.without hidden name).scopes[scope]? = none := by
      rw [without, Array.getElem?_modify, hscope]
      split <;> rfl
    rw [Heap.lookup, hnone]
  | case2 scope found hscope value hbound =>
    obtain ⟨seen, hscope, hget, -⟩ := hseen hscope
    simp only [Heap.lookup, hscope, hget, hbound]
  | case3 scope found hscope hbound houter =>
    obtain ⟨seen, hscope, hget, hsame⟩ := hseen hscope
    simp only [Heap.lookup, hscope, hget, hbound, hsame, houter]
  | case4 scope found hscope hbound outer houter hlt ih =>
    obtain ⟨seen, hscope, hget, hsame⟩ := hseen hscope
    rw [Heap.lookup]
    simp only [hscope, hget, hbound, hsame, houter, if_pos hlt, ih]
  | case5 scope found hscope hbound outer houter hlt =>
    obtain ⟨seen, hscope, hget, hsame⟩ := hseen hscope
    rw [Heap.lookup]
    simp only [hscope, hget, hbound, hsame, houter, if_neg hlt]

theorem define_without (hne : other ≠ name) (scope : Nat) (value : Value) :
    (heap.without hidden name).define scope other value =
      (heap.define scope other value).without hidden name := by
  have hscopes : (heap.scopes.modify hidden (·.without name)).modify scope
      (fun old => { old with bindings := old.bindings.insert other value }) =
      (heap.scopes.modify scope fun old =>
        { old with bindings := old.bindings.insert other value }).modify hidden
          (·.without name) := by
    refine Array.ext_getElem? fun i => ?_
    simp only [Array.getElem?_modify]
    split <;> split
    · rw [Option.map_map, Option.map_map]
      refine congrArg (fun change => heap.scopes[i]?.map change) (funext fun old => ?_)
      simp only [Function.comp_apply, Scope.without, OrderedMap.insert_without _ hne]
    all_goals rfl
  exact congrArg (fun scopes => { heap with scopes }) hscopes

theorem newScope_without (outer : Option Nat) : (heap.without hidden name).newScope outer =
    ((heap.newScope outer).1, (heap.newScope outer).2.without hidden name) := by
  have hscopes : (heap.scopes.modify hidden (·.without name)).push { outer } =
      (heap.scopes.push { outer }).modify hidden (·.without name) := by
    -- The new scope may be the one in question, but it has no bindings yet.
    refine Array.ext_getElem? fun i => ?_
    simp only [Array.getElem?_modify, Array.getElem?_push, Array.size_modify]
    split <;> split <;> rfl
  exact Prod.ext Array.size_modify (congrArg (fun scopes => { heap with scopes }) hscopes)

theorem without_define_self (value : Value) :
    (heap.define hidden name value).without hidden name = heap.without hidden name := by
  have hscopes : (heap.scopes.modify hidden fun old =>
      { old with bindings := old.bindings.insert name value }).modify hidden (·.without name) =
      heap.scopes.modify hidden (·.without name) := by
    refine Array.ext_getElem? fun i => ?_
    simp only [Array.getElem?_modify]
    split
    · rw [Option.map_map]
      refine congrArg (fun change => heap.scopes[i]?.map change) (funext fun old => ?_)
      simp only [Function.comp_apply, Scope.without, OrderedMap.without_insert_self]
    · rfl
  exact congrArg (fun scopes => { heap with scopes }) hscopes

theorem subscript_without (left index : Value) :
    (heap.without hidden name).subscript left index = heap.subscript left index := by
  unfold subscript
  split <;> rfl

/-- The text of a value does not depend on what is bound. -/
theorem renderWithin_without (trail : Trail) (value : Value) :
    (heap.without hidden name).renderWithin trail value = heap.renderWithin trail value := by
  fun_induction Heap.renderWithin heap trail value with
  | case1 | case2 | case3 | case4 | case5 | case11 | case12 => rw [Heap.renderWithin]
  | case10 =>
    rw [Heap.renderWithin]
    rfl
  | case6 trail id hid => rw [renderWithin_array, if_pos hid]
  | case8 trail id hid => rw [renderWithin_hash, if_pos hid]
  | case7 trail id hid ih =>
    have hitems : ((heap.without hidden name).elements id).map
        ((heap.without hidden name).renderWithin (trail.insert (.array id))) =
        (heap.elements id).map (heap.renderWithin (trail.insert (.array id))) :=
      List.map_congr_left fun item hitem => ih ⟨item, hitem⟩
    rw [renderWithin_array, if_neg hid, hitems, List.attach_map_val]
  | case9 trail id hid ihkey ihvalue =>
    have hentries : ((heap.without hidden name).contents id).entries.map (fun entry =>
        (heap.without hidden name).renderWithin (trail.insert (.hash id)) entry.2.key ++ ": " ++
          (heap.without hidden name).renderWithin (trail.insert (.hash id)) entry.2.value) =
        (heap.contents id).entries.map fun entry =>
          heap.renderWithin (trail.insert (.hash id)) entry.2.key ++ ": " ++
            heap.renderWithin (trail.insert (.hash id)) entry.2.value :=
      List.map_congr_left fun entry hentry => by
        rw [ihkey ⟨entry, hentry⟩, ihvalue ⟨entry, hentry⟩]
    rw [renderWithin_hash, if_neg hid, hentries, List.attach_map_val
      (f := fun entry : HashKey × Entry =>
        heap.renderWithin (trail.insert (.hash id)) entry.2.key ++ ": " ++
          heap.renderWithin (trail.insert (.hash id)) entry.2.value)]

theorem printLine_without (value : Value) :
    (heap.without hidden name).printLine value = heap.printLine value := by
  rw [printLine_eq_text, printLine_eq_text, render, render, renderWithin_without]

end

end Heap

open Eval

/-- No function of a heap has a certain name in it. -/
def Heap.Silent (heap : Heap) (name : String) : Prop :=
  ∀ closure ∈ heap.closures, ∀ mention ∈ closure.mentions, name ∉ mention.names

theorem forall_mentions_iff {name : String} {block : List Stmt} :
    (∀ mention ∈ mentions block, name ∉ mention.names) ↔ name ∉ names block := by
  simp [names]

theorem Closure.forall_mentions_iff {name : String} {closure : Closure} :
    (∀ mention ∈ closure.mentions, name ∉ mention.names) ↔
      name ∉ closure.params ∧ name ∉ names closure.body := by
  rw [Closure.mentions, List.forall_mem_cons, MonkeyLang.forall_mentions_iff]
  rfl

/-- Code in which a name does not stand. There is nothing else to know about it. -/
def Mention.discipline (name : String) : Discipline Unit where
  later _ _ := True
  known mention := name ∉ mention.names
  good _ _ := True
  filled _ _ := True
  callable _ closure := ∀ mention ∈ closure.mentions, name ∉ mention.names

/-- A computation to which the binding of a name in a scope makes no difference. It comes to the
same without it, as long as no function has that name in it. -/
def Indifferent (hidden : Nat) (name : String) (_ : Unit) (α : Type) (effect : Eval α)
    (post : Unit → α → Prop) : Prop :=
  ∀ state, state.heap.Silent name →
    effect (state.without hidden name) = Effect.outcomeWithout hidden name (effect state) ∧
      (effect.after state).heap.Silent name ∧
      ∀ value after, effect state = .ok value after → post () value

namespace Indifferent

variable {hidden : Nat} {name : String}

theorem pure {α : Type} {value : α} {post : Unit → α → Prop} (hvalue : post () value) :
    Indifferent hidden name () α (Pure.pure value) post := by
  refine fun state hsilent => ⟨rfl, hsilent, fun found after hfound => ?_⟩
  cases hfound
  exact hvalue

theorem throw {α : Type} {signal : Signal} {post : Unit → α → Prop} :
    Indifferent hidden name () α (throw signal) post := by
  refine fun state hsilent => ⟨rfl, hsilent, fun found after hfound => ?_⟩
  cases hfound

theorem bind {α β : Type} {first : Eval α} {next : α → Eval β} {middle : Unit → α → Prop}
    {post : Unit → β → Prop} (hfirst : Indifferent hidden name () α first middle)
    (hnext : ∀ value, middle () value → Indifferent hidden name () β (next value) post) :
    Indifferent hidden name () β (first >>= next) post := by
  intro state hsilent
  obtain ⟨hsame, hsilent, hmiddle⟩ := hfirst state hsilent
  simp only [Effect.after, Bind.bind, EStateM.bind, hsame] at hsilent ⊢
  cases hresult : first state with
  | ok value after =>
    rw [hresult] at hsilent
    exact hnext value (hmiddle value after hresult) after hsilent
  | error signal after =>
    rw [hresult] at hsilent
    exact ⟨rfl, hsilent, fun found last hfound => by cases hfound⟩

theorem read {α : Type} {view : Heap → α} {post : Unit → α → Prop}
    (hsame : ∀ heap : Heap, view (heap.without hidden name) = view heap)
    (hview : ∀ heap : Heap, heap.Silent name → post () (view heap)) :
    Indifferent hidden name () α (Effect.read view) post := by
  intro state hsilent
  refine ⟨congrArg (fun value => EStateM.Result.ok value _) (hsame state.heap), hsilent, ?_⟩
  intro value after hvalue
  cases hvalue
  exact hview state.heap hsilent

theorem allocate {new : Heap → Nat × Heap} {post : Unit → Nat → Prop}
    (hsame : ∀ heap : Heap, new (heap.without hidden name) =
      ((new heap).1, (new heap).2.without hidden name))
    (hnew : ∀ heap : Heap, heap.Silent name → (new heap).2.Silent name)
    (hpost : ∀ id, post () id) :
    Indifferent hidden name () Nat (Effect.allocate new) post := by
  intro state hsilent
  refine ⟨?_, hnew state.heap hsilent, fun id _ _ => hpost id⟩
  simp only [Effect.allocate, State.without, hsame, Effect.outcomeWithout]

theorem update {change : Heap → Heap}
    (hsame : ∀ heap : Heap, change (heap.without hidden name) =
      (change heap).without hidden name)
    (hchange : ∀ heap : Heap, heap.Silent name → (change heap).Silent name) :
    Indifferent hidden name () Unit (Effect.update change) fun _ _ => True := by
  intro state hsilent
  refine ⟨?_, hchange state.heap hsilent, fun _ _ _ => trivial⟩
  simp only [Effect.update, State.without, hsame, Effect.outcomeWithout]

theorem define (scope : Nat) {other : String} (hne : other ≠ name) (value : Value) :
    Indifferent hidden name () Unit (Effect.update (·.define scope other value))
      fun _ _ => True :=
  update (fun heap => heap.define_without hidden hne scope value) fun _ hsilent => hsilent

theorem putLine (arg : Value) :
    Indifferent hidden name () Unit (ofEffect (Builtin.putLine arg)) fun _ _ => True := by
  intro state hsilent
  refine ⟨?_, ?_, fun _ _ _ => trivial⟩
  · simp only [Builtin.putLine, ofEffect, EStateM.adaptExcept, Bind.bind, EStateM.bind, Effect.heap,
      Effect.print, State.without, Heap.printLine_without]
    cases state.heap.printLine arg state.output <;> rfl
  · rw [heap_after_putLine]
    exact hsilent

theorem catchReturn {body : Eval Value}
    (hbody : Indifferent hidden name () Value body fun _ _ => True) :
    Indifferent hidden name () Value (catchReturn body) fun _ _ => True := by
  intro state hsilent
  obtain ⟨hsame, hsilent, -⟩ := hbody state hsilent
  refine ⟨?_, ?_, fun _ _ _ => trivial⟩
  · simp only [Eval.catchReturn, hsame]
    cases body state with
    | ok value after => rfl
    | error signal after => cases signal <;> rfl
  · rw [after_catchReturn]
    exact hsilent

theorem staged (hidden : Nat) (name : String) :
    StagedTracking (Mention.discipline name) (Indifferent hidden name) where
  pure := pure
  bind hfirst hnext := bind hfirst fun _ => hnext trivial
  fail _ := throw
  good_later _ _ := trivial
  filled_later _ _ := trivial
  scalar _ := trivial
  builtin _ _ := trivial
  empty := trivial
  insert _ _ _ _ := trivial
  lookup scope hother := by
    have hne := List.ne_of_not_mem_cons hother
    exact read (fun heap => heap.lookup_without hidden hne.symm scope) fun _ _ _ _ => trivial
  sequence _ := read (fun _ => rfl) fun _ _ _ _ => trivial
  subscript index _ := read (fun heap => heap.subscript_without hidden _ index)
    fun _ _ _ _ => trivial
  closure _ := read (fun _ => rfl) fun heap hsilent closure hclosure =>
    hsilent closure (Array.mem_of_getElem? hclosure)
  texts args := by
    refine read (fun heap => List.map_congr_left fun arg _ => ?_) fun _ _ => trivial
    exact heap.renderWithin_without hidden ∅ arg
  newArray _ := allocate (fun _ => rfl) (fun _ hsilent => hsilent) fun _ => trivial
  newHash _ := allocate (fun _ => rfl) (fun _ hsilent => hsilent) fun _ => trivial
  newClosure hclosure := by
    refine allocate (fun _ => rfl) (fun heap hsilent other hother => ?_) fun _ => trivial
    rcases Array.mem_push.mp hother with hold | rfl
    · exact hsilent other hold
    · exact hclosure

theorem suits (hidden : Nat) (name : String) (scope : Nat) (stmt : Stmt) :
    stmt.Suits (Mention.discipline name) (Indifferent hidden name) scope := by
  cases stmt with
  | bind other _ =>
    intro hother _ _ value _
    exact define scope (List.ne_of_not_mem_cons hother).symm value
  | ret _ => exact fun _ => throw
  | expr _ => trivial

/-- A call binds the parameters of a function and evaluates its body, and the name is in neither. -/
theorem apply {run : Nat → Block → Eval Value}
    (hrun : ∀ scope body, name ∉ names body →
      Indifferent hidden name () Value (run scope body) fun _ _ => True) :
    CallsStaged (Mention.discipline name) (Indifferent hidden name) run := by
  have hP := staged hidden name
  refine hP.apply (fun hcallee hargs => hP.call ?_ putLine hcallee hargs) ?_
  · intro stage _ id key value hashKey _ _ _ _
    exact update (fun _ => rfl) fun _ hsilent => hsilent
  · intro stage closure args hclosure _ _
    obtain ⟨hparams, hbody⟩ := Closure.forall_mentions_iff.mp hclosure
    have hscope : Indifferent hidden name () Nat
        (Effect.allocate (·.newScope (some closure.scope))) fun _ _ => True :=
      allocate (fun heap => heap.newScope_without hidden _) (fun _ hsilent => hsilent)
        fun _ => trivial
    refine bind hscope fun scope _ => ?_
    have hdefine : ∀ binding ∈ closure.params.zip args,
        Indifferent hidden name () Unit
          (Effect.update (·.define scope binding.1 binding.2)) fun _ _ => True := by
      intro binding hbinding
      refine define scope ?_ binding.2
      exact ne_of_mem_of_not_mem (List.of_mem_zip hbinding).1 hparams
    have hbindings : Indifferent hidden name () Unit (bindAll scope (closure.params.zip args))
        fun _ _ => True :=
      hP.bindAll (fun binding hbinding {_} _ => hdefine binding hbinding) fun _ _ => trivial
    exact bind hbindings fun _ _ => catchReturn (hrun scope closure.body hbody)

theorem evalStmts {run : Nat → Block → Eval Value}
    (hrun : ∀ scope body, name ∉ names body →
      Indifferent hidden name () Value (run scope body) fun _ _ => True) (scope : Nat)
    {stmts : List Stmt} (hstmts : name ∉ names stmts) :
    Indifferent hidden name () (Option Value) (evalStmts run scope none stmts)
      fun _ _ => True := by
  have heval : Indifferent hidden name () (Option Value)
      (MonkeyLang.evalStmts run scope none stmts) fun _ found => ∀ value ∈ found, True :=
    (staged hidden name).evalStmts (apply hrun) none (by simp) stmts
      (forall_mentions_iff.mpr hstmts) fun stmt _ => suits hidden name scope stmt
  intro state hsilent
  obtain ⟨hsame, hsilent, -⟩ := heval state hsilent
  exact ⟨hsame, hsilent, fun _ _ _ => trivial⟩

theorem runBody (depth scope : Nat) (body : Block) (hbody : name ∉ names body) :
    Indifferent hidden name () Value (runBody depth scope body) fun _ _ => True := by
  induction depth generalizing scope body with
  | zero => exact throw
  | succ depth ih => exact bind (evalStmts ih scope hbody) fun _ _ => pure trivial

end Indifferent

/-- What stops a program early does not depend on what it leaves behind. -/
theorem evalProgram_without {run : Nat → Block → Eval Value} {hidden scope : Nat} {name : String}
    {stmts : List Stmt} {state : State}
    (hstmts : evalStmts run scope none stmts (state.without hidden name) =
      Effect.outcomeWithout hidden name (evalStmts run scope none stmts state)) :
    evalProgram run scope stmts (state.without hidden name) =
      Effect.outcomeWithout hidden name (evalProgram run scope stmts state) := by
  simp only [evalProgram, hstmts]
  cases evalStmts run scope none stmts state with
  | ok value after => rfl
  | error signal after => cases signal <;> rfl

/-- A variable that is mentioned nowhere has no influence on a program. If its name stands neither
in the program nor in any function of the heap, then the program comes to the same value and the
same output, or ends with the same signal, whether or not the variable is bound first. The states at
the end are the same but for that binding. -/
theorem unmentioned_variables_do_not_matter (depth scope hidden : Nat) (name : String)
    (value : Value) (stmts : List Stmt) (state : State) (hstmts : name ∉ names stmts)
    (hclosures : ∀ closure ∈ state.heap.closures,
      name ∉ closure.params ∧ name ∉ names closure.body) :
    let bound : State := { state with heap := state.heap.define hidden name value }
    Effect.outcomeWithout hidden name (evalProgram (runBody depth) scope stmts bound) =
      Effect.outcomeWithout hidden name (evalProgram (runBody depth) scope stmts state) ∧
    Effect.outcomeWithout hidden name (evalStmts (runBody depth) scope none stmts bound) =
      Effect.outcomeWithout hidden name (evalStmts (runBody depth) scope none stmts state) := by
  intro bound
  have hsilent : state.heap.Silent name := fun closure hclosure =>
    Closure.forall_mentions_iff.mpr (hclosures closure hclosure)
  have hbound : bound.without hidden name = state.without hidden name :=
    congrArg (fun heap => State.mk heap state.output)
      (state.heap.without_define_self hidden value)
  have heval : Indifferent hidden name () (Option Value)
      (evalStmts (runBody depth) scope none stmts) fun _ _ => True :=
    Indifferent.evalStmts (Indifferent.runBody depth) scope hstmts
  obtain ⟨hstate, -⟩ := heval state hsilent
  obtain ⟨hstate', -⟩ := heval bound hsilent
  refine ⟨?_, ?_⟩
  · rw [← evalProgram_without hstate, ← evalProgram_without hstate', hbound]
  · rw [← hstate, ← hstate', hbound]

/-- A program calls a function that prints, and binds a name of its own. All that is left of a
variable bound before it is the name of that variable among the others. -/
theorem unmentioned_variables_do_not_matter_call :
    let function := (Program.parse "let f = fn(y) \x7b puts(y); y + 1 \x7d").stmts
    let state := (evalProgram (runBody 1) 0 function).after ⟨(Heap.newScope {} none).2, {}⟩
    let bound : State := { state with heap := state.heap.define 0 "x" (.int 7) }
    let stmts := (Program.parse "let g = f; g(2)").stmts
    "x" ∉ names stmts ∧
      (∀ closure ∈ state.heap.closures, "x" ∉ closure.params ∧ "x" ∉ names closure.body) ∧
      ((evalProgram (runBody 1) 0 stmts).after bound).heap.names 0 = ["f", "x", "g"] ∧
      ((evalProgram (runBody 1) 0 stmts).after state).heap.names 0 = ["f", "g"] ∧
      Effect.outcomeWithout 0 "x" (evalProgram (runBody 1) 0 stmts bound) =
        Effect.outcomeWithout 0 "x" (evalProgram (runBody 1) 0 stmts state) := by
  intro function state bound stmts
  have hstmts : "x" ∉ names stmts := by decide +kernel
  have hclosures : ∀ closure ∈ state.heap.closures,
      "x" ∉ closure.params ∧ "x" ∉ names closure.body := by decide +kernel
  refine ⟨hstmts, hclosures, by decide +kernel, by decide +kernel, ?_⟩
  exact (unmentioned_variables_do_not_matter 1 0 0 "x" (.int 7) stmts state hstmts hclosures).1

end MonkeyLang
