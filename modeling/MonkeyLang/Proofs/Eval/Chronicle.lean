import MonkeyLang.Proofs.Eval.Retention
import MonkeyLang.Proofs.Heap.History

namespace MonkeyLang

open Eval

variable {settable : Prop}

/-- What code may rely on when the heap goes through the stages of a history. -/
def Heap.discipline (settable : Prop) : Discipline Heap where
  later before after := ∃ events, History settable before events after
  known := Mention.Known fun name => name = "set" → settable
  good := Heap.Offers settable
  filled heap hash := hash.Filed ∧ hash.Holds (heap.Offers settable)
  callable heap closure := closure ∈ heap.closures

/-- A computation that makes history on a sound heap. What comes of it is at hand afterwards. -/
def Chronicled (settable : Prop) (heap : Heap) (α : Type) (effect : Eval α)
    (post : Heap → α → Prop) : Prop :=
  ∀ output, heap.Sound settable →
    let after := (effect.after ⟨heap, output⟩).heap
    (∃ events, History settable heap events after) ∧
      Yields (after.Offers settable) (post after) (effect ⟨heap, output⟩)

namespace Chronicled

variable {heap : Heap}

/-- A computation that leaves the heap as it is. -/
theorem of_heap_eq {α : Type} {effect : Eval α} {post : Heap → α → Prop}
    (hheap : ∀ state, (effect.after state).heap = state.heap)
    (hyields : ∀ output, heap.Sound settable →
      Yields (heap.Offers settable) (post heap) (effect ⟨heap, output⟩)) :
    Chronicled settable heap α effect post := by
  intro output hsound
  dsimp only
  rw [hheap]
  exact ⟨⟨[], .nil heap⟩, hyields output hsound⟩

theorem read {α : Type} {view : Heap → α} {post : Heap → α → Prop}
    (hview : heap.Sound settable → post heap (view heap)) :
    Chronicled settable heap α (Effect.read view) post :=
  of_heap_eq (fun _ => rfl) fun _ => hview

/-- A computation that is a single event. -/
theorem of_event {α : Type} {effect : Eval α} {post : Heap → α → Prop} (event : Event) (value : α)
    (heffect : ∀ output, effect ⟨heap, output⟩ = .ok value ⟨event.apply heap, output⟩)
    (hpossible : event.Possible settable heap) (hpost : post (event.apply heap) value) :
    Chronicled settable heap α effect post := by
  intro output _
  dsimp only
  rw [Effect.after, heffect]
  exact ⟨⟨[event], .single hpossible⟩, hpost⟩

theorem bind {α β : Type} {first : Eval α} {next : α → Eval β} {middle : Heap → α → Prop}
    {post : Heap → β → Prop} (hfirst : Chronicled settable heap α first middle)
    (hnext : ∀ {after value}, (∃ events, History settable heap events after) →
      middle after value → Chronicled settable after β (next value) post) :
    Chronicled settable heap β (first >>= next) post := by
  intro output hsound
  obtain ⟨⟨events, hevents⟩, hyields⟩ := hfirst output hsound
  simp only [Effect.after, Bind.bind, EStateM.bind] at hevents ⊢
  cases hresult : first ⟨heap, output⟩ with
  | ok value after =>
    simp only [Effect.after, hresult] at hevents hyields
    obtain ⟨⟨more, hmore⟩, hyields'⟩ :=
      hnext ⟨events, hevents⟩ hyields after.output (hevents.sound hsound)
    exact ⟨⟨events ++ more, hevents.append hmore⟩, hyields'⟩
  | error signal after =>
    simp only [Effect.after, hresult] at hevents hyields
    exact ⟨⟨events, hevents⟩, hyields.of_error⟩

theorem staged (settable : Prop) :
    StagedTracking (Heap.discipline settable) (Chronicled settable) where
  pure hvalue := of_heap_eq (fun _ => rfl) fun _ _ => hvalue
  bind := bind
  fail _ := of_heap_eq (fun _ => rfl) fun _ _ => trivial
  good_later := by
    rintro stage after value ⟨events, hevents⟩ hvalue
    exact hevents.offers hvalue
  filled_later := by
    rintro stage after hash ⟨events, hevents⟩ ⟨hfiled, hholds⟩
    exact ⟨hfiled, hholds.imp fun _ => hevents.offers⟩
  scalar := by
    intro stage value hvalue
    cases value with
    | int | bool | string | null => exact ⟨trivial, by simp⟩
    | array | hash | function | builtin | error => cases hvalue
  builtin := by
    rintro stage name callee hname hcallee
    refine ⟨trivial, ?_⟩
    rintro ⟨⟩
    exact hname (Builtin.name_of_ofName? hcallee)
  empty := ⟨Hash.filed_empty, Hash.holds_empty⟩
  insert hhash hkey hvalue hhashKey :=
    ⟨hhash.1.insert hhashKey _, hhash.2.insert hkey hvalue _⟩
  lookup _ _ := read fun hsound _ hvalue => hsound.values.lookup hvalue
  sequence _ := read fun hsound => hsound.values.elements _
  subscript _ _ := read fun hsound _ hvalue =>
    hsound.values.subscript ⟨trivial, by simp⟩ hvalue
  closure _ := read fun _ _ hclosure => Array.mem_of_getElem? hclosure
  texts _ := read fun _ => trivial
  newArray := by
    intro stage items hitems
    exact of_event (.newArray items) stage.arrays.size (fun _ => rfl) hitems
      ⟨by simp [Heap.Has, Event.apply, Heap.newArray], by simp⟩
  newHash := by
    intro stage hash hhash
    exact of_event (.newHash hash) stage.hashes.size (fun _ => rfl) hhash
      ⟨by simp [Heap.Has, Event.apply, Heap.newHash], by simp⟩
  newClosure := by
    intro stage closure hknown
    have hbody := forall_known_iff.mp (List.forall_mem_cons.mp hknown).2
    rw [filterMap_mentions] at hbody
    exact of_event (.newClosure closure) stage.closures.size (fun _ => rfl) hbody
      ⟨by simp [Heap.Has, Event.apply, Heap.newClosure], by simp⟩

theorem suits (scope : Nat) (stmt : Stmt) :
    stmt.Suits (Heap.discipline settable) (Chronicled settable) scope := by
  cases stmt with
  | bind name _ =>
    intro _ hname stage value hvalue
    exact of_event (.bind scope name value) () (fun _ => rfl) ⟨hname, hvalue⟩ trivial
  | ret _ => exact fun hvalue => of_heap_eq (fun _ => rfl) fun _ _ => hvalue
  | expr _ => trivial

theorem putLine (arg : Value) :
    Chronicled settable heap Unit (ofEffect (Builtin.putLine arg)) fun _ _ => True := by
  refine of_heap_eq (heap_after_putLine arg) fun output _ => ?_
  simp only [Builtin.putLine, ofEffect, EStateM.adaptExcept, Bind.bind, EStateM.bind, Effect.heap,
    Effect.print]
  cases heap.printLine arg output <;> trivial

theorem catchReturn {body : Eval Value}
    (hbody : Chronicled settable heap Value body (Heap.Offers settable)) :
    Chronicled settable heap Value (catchReturn body) (Heap.Offers settable) := by
  intro output hsound
  obtain ⟨hevents, hyields⟩ := hbody output hsound
  dsimp only
  rw [after_catchReturn]
  exact ⟨hevents, hyields.catchReturn⟩

end Chronicled

theorem bindAll_eq (scope : Nat) (bindings : List (String × Value)) (state : State) :
    bindAll scope bindings state =
      .ok () { state with heap := state.heap.defineAll scope bindings } := by
  induction bindings generalizing state with
  | nil => rfl
  | cons binding bindings ih => exact ih _

/-- The body of a function begins after a single event. -/
theorem enter_then {α : Type} (closure : Closure) (args : List Value) (next : Nat → Eval α)
    (state : State) :
    (do
      let scope ← Effect.allocate (·.newScope (some closure.scope))
      bindAll scope (closure.params.zip args)
      next scope) state =
    next state.heap.scopes.size { state with heap := state.heap.enter closure args } := by
  simp only [bind, EStateM.bind, Effect.allocate, bindAll_eq]
  rfl

/-- Bodies of functions make history as long as they do not use `set` where it may not be used. -/
def BodiesChronicled (settable : Prop) (run : Nat → Block → Eval Value) : Prop :=
  ∀ heap scope body, (∀ name ∈ idents body, name = "set" → settable) →
    Chronicled settable heap Value (run scope body) (Heap.Offers settable)

namespace BodiesChronicled

variable {run : Nat → Block → Eval Value} (hrun : BodiesChronicled settable run)

include hrun

/-- A call of a function is the event of that call and what its body does. -/
theorem enter {heap : Heap} {closure : Closure} {args : List Value} (output : Output)
    (hsound : heap.Sound settable) (hpossible : (Event.call closure args).Possible settable heap) :
    let body := do
      let scope ← Effect.allocate (·.newScope (some closure.scope))
      bindAll scope (closure.params.zip args)
      catchReturn (run scope closure.body)
    let after := (body.after ⟨heap, output⟩).heap
    (∃ events, History settable heap (.call closure args :: events) after) ∧
      Yields (after.Offers settable) (after.Offers settable) (body ⟨heap, output⟩) := by
  dsimp only
  rw [Effect.after, enter_then]
  have hbody := hsound.bodies closure hpossible.1
  obtain ⟨⟨events, hevents⟩, hyields⟩ :=
    (hrun (heap.enter closure args) heap.scopes.size closure.body hbody).catchReturn output
      (Event.sound_apply hpossible hsound)
  exact ⟨⟨events, .cons hpossible hevents⟩, hyields⟩

theorem apply : CallsStaged (Heap.discipline settable) (Chronicled settable) run := by
  have hP := Chronicled.staged settable
  refine hP.apply (fun hcallee hargs => hP.call ?_ Chronicled.putLine hcallee hargs) ?_
  · intro stage hset id key value hashKey hid hkey hvalue hhashKey
    exact .of_event (.insert id key value hashKey) () (fun _ => rfl)
      ⟨hset.usable rfl, hid.has, hkey, hvalue, hhashKey⟩ trivial
  · intro stage closure args hclosure hlength hargs output hsound
    obtain ⟨⟨events, hevents⟩, hyields⟩ := hrun.enter output hsound ⟨hclosure, hlength, hargs⟩
    exact ⟨⟨_, hevents⟩, hyields⟩

theorem evalStmts (heap : Heap) (scope : Nat) {stmts : List Stmt}
    (hstmts : ∀ name ∈ idents stmts, name = "set" → settable) :
    Chronicled settable heap (Option Value) (evalStmts run scope none stmts) fun after found =>
      ∀ value ∈ found, after.Offers settable value := by
  rw [← filterMap_mentions] at hstmts
  exact (Chronicled.staged settable).evalStmts hrun.apply none (by simp) stmts
    (forall_known_iff.mpr hstmts) fun stmt _ => Chronicled.suits scope stmt

end BodiesChronicled

theorem bodiesChronicled (depth : Nat) : BodiesChronicled settable (runBody depth) := by
  induction depth with
  | zero => exact fun _ _ _ _ => .of_heap_eq (fun _ => rfl) fun _ _ => trivial
  | succ depth ih =>
    intro heap scope body hbody
    have hP := Chronicled.staged settable
    exact hP.bind (ih.evalStmts heap scope hbody) fun _ hfound => hP.pure (hP.getD hfound)

/-- The statements of a program make history, however they end. -/
theorem history_evalStmts (depth scope : Nat) {stmts : List Stmt}
    (hstmts : ∀ name ∈ idents stmts, name = "set" → settable) (state : State)
    (hsound : state.heap.Sound settable) : ∃ events, History settable state.heap events
      ((evalStmts (runBody depth) scope none stmts).after state).heap :=
  ((bodiesChronicled depth).evalStmts state.heap scope hstmts state.output hsound).1

/-- The state after some programs have been evaluated one after another, however each of them
ended. -/
def afterPrograms (depth scope : Nat) (programs : List (List Stmt)) (state : State) : State :=
  programs.foldl (fun state stmts => (evalProgram (runBody depth) scope stmts).after state) state

theorem history_afterPrograms (depth scope : Nat) {programs : List (List Stmt)}
    (hprograms : ∀ stmts ∈ programs, ∀ name ∈ idents stmts, name = "set" → settable)
    (state : State) (hsound : state.heap.Sound settable) : ∃ events,
      History settable state.heap events (afterPrograms depth scope programs state).heap := by
  induction programs generalizing state with
  | nil => exact ⟨[], .nil _⟩
  | cons stmts programs ih =>
    obtain ⟨hstmts, hprograms⟩ := List.forall_mem_cons.mp hprograms
    obtain ⟨events, hevents⟩ := history_evalStmts depth scope hstmts state hsound
    rw [← after_evalProgram] at hevents
    obtain ⟨more, hmore⟩ := ih hprograms _ (hevents.sound hsound)
    exact ⟨events ++ more, hevents.append hmore⟩

end MonkeyLang
