import MonkeyLang.Proofs.Heap.Growth

namespace MonkeyLang

/-- What evaluation can do to a heap. The call of a function makes a scope with the arguments in it,
and all else is done to scopes and containers that are there already or stand on their own. -/
inductive Event where
  | bind (scope : Nat) (name : String) (value : Value)
  | call (closure : Closure) (args : List Value)
  | newArray (items : Sequence Value)
  | newHash (hash : Hash)
  | insert (id : Nat) (key value : Value) (hashKey : HashKey)
  | newClosure (closure : Closure)

/-- A hash in which every entry is filed under the key that it keeps. -/
def Hash.Filed (hash : Hash) : Prop := ∀ entry ∈ hash.entries, entry.2.key.hashKey = .ok entry.1

namespace Hash

theorem filed_empty : Filed .empty := by
  intro entry hentry
  cases hentry

theorem Filed.insert {hash : Hash} (hhash : hash.Filed) {key : Value} {hashKey : HashKey}
    (hkey : key.hashKey = .ok hashKey) (value : Value) :
    Filed (hash.insert hashKey ⟨key, value⟩) := by
  intro entry hentry
  rcases mem_insert hentry with rfl | hold
  · exact hkey
  · exact hhash entry hold

end Hash

namespace Heap

/-- The heap in which some names are bound in a scope, one after another. -/
def defineAll (heap : Heap) (scope : Nat) (bindings : List (String × Value)) : Heap :=
  bindings.foldl (fun heap binding => heap.define scope binding.1 binding.2) heap

/-- The heap at the beginning of the body of a function. -/
def enter (heap : Heap) (closure : Closure) (args : List Value) : Heap :=
  (heap.newScope (some closure.scope)).2.defineAll heap.scopes.size (closure.params.zip args)

/-- A value that does not refer to anything outside the heap. -/
def Has (heap : Heap) : Value → Prop
  | .array id => id < heap.arrays.size
  | .hash id => id < heap.hashes.size
  | .function id => id < heap.closures.size
  | _ => True

variable (settable : Prop)

/-- A value that code can get hold of on this heap. It is only `set` if that may be used at all. -/
structure Offers (heap : Heap) (value : Value) : Prop where
  has : heap.Has value
  usable : value = .builtin .set → settable

/-- A heap that refers to nothing outside itself. Nothing in it stands for `set` if that may not be
used. -/
def Sound (heap : Heap) : Prop :=
  heap.Admits (fun name => name = "set" → settable) (heap.Offers settable)

end Heap

namespace Event

/-- What an event makes of a heap. -/
def apply (heap : Heap) : Event → Heap
  | bind scope name value => heap.define scope name value
  | call closure args => heap.enter closure args
  | newArray items => (heap.newArray items).2
  | newHash hash => (heap.newHash hash).2
  | insert id key value hashKey => heap.insert id hashKey ⟨key, value⟩
  | newClosure closure => (heap.newClosure closure).2

/-- What there has to be on the heap for an event. A `let` does not bind the name of a builtin
function, and only functions of the heap are called, with as many arguments as they take. -/
def Possible (settable : Prop) (heap : Heap) : Event → Prop
  | bind _ name value => Builtin.ofName? name = none ∧ heap.Offers settable value
  | call closure args => closure ∈ heap.closures ∧ args.length = closure.params.length ∧
    ∀ arg ∈ args, heap.Offers settable arg
  | newArray items => ∀ item ∈ items.toList, heap.Offers settable item
  | newHash hash => hash.Filed ∧ hash.Holds (heap.Offers settable)
  | insert id key value hashKey => settable ∧ heap.Has (.hash id) ∧ heap.Offers settable key ∧
    heap.Offers settable value ∧ key.hashKey = .ok hashKey
  | newClosure closure => ∀ name ∈ idents closure.body, name = "set" → settable

end Event

/-- The events that lead from one heap to another, each of them possible when it happens. -/
inductive History (settable : Prop) : Heap → List Event → Heap → Prop where
  | nil (heap : Heap) : History settable heap [] heap
  | cons {heap after : Heap} {event : Event} {events : List Event}
      (hpossible : event.Possible settable heap)
      (hrest : History settable (event.apply heap) events after) :
      History settable heap (event :: events) after

namespace History

variable {settable : Prop} {before middle after : Heap}

theorem single {event : Event} (hpossible : event.Possible settable before) :
    History settable before [event] (event.apply before) :=
  .cons hpossible (.nil _)

theorem append {events more : List Event} (hfirst : History settable before events middle)
    (hsecond : History settable middle more after) :
    History settable before (events ++ more) after := by
  induction hfirst with
  | nil => exact hsecond
  | cons hpossible _ ih => exact .cons hpossible (ih hsecond)

/-- What holds at first and is kept by every event holds at the end. It may be about the events that
have happened by then. -/
theorem invariant {I : List Event → Heap → Prop}
    (hstep : ∀ past heap event, event.Possible settable heap → I past heap →
      I (past ++ [event]) (event.apply heap))
    {events : List Event} (hhistory : History settable before events after) (past : List Event)
    (hfirst : I past before) : I (past ++ events) after := by
  induction hhistory generalizing past with
  | nil => rwa [List.append_nil]
  | @cons heap _ event _ hpossible _ ih =>
    rw [List.append_cons]
    exact ih _ (hstep past heap event hpossible hfirst)

theorem keeps {I : Heap → Prop}
    (hstep : ∀ heap (event : Event), event.Possible settable heap → I heap → I (event.apply heap))
    {events : List Event} (hhistory : History settable before events after)
    (hfirst : I before) : I after :=
  hhistory.invariant (I := fun _ => I) (fun _ => hstep) [] hfirst

end History

variable {settable : Prop}

namespace Heap

/-- Only scopes are touched when names are bound. -/
theorem defineAll_eq (heap : Heap) (scope : Nat) (bindings : List (String × Value)) :
    heap.defineAll scope bindings =
      { heap with scopes := (heap.defineAll scope bindings).scopes } := by
  induction bindings generalizing heap with
  | nil => rfl
  | cons binding bindings ih => exact ih (heap.define scope binding.1 binding.2)

theorem enter_eq (heap : Heap) (closure : Closure) (args : List Value) :
    heap.enter closure args = { heap with scopes := (heap.enter closure args).scopes } :=
  defineAll_eq _ _ _

theorem Holds.defineAll {good : Value → Prop} {heap : Heap} (hheap : heap.Holds good) (scope : Nat)
    {bindings : List (String × Value)} (hbindings : ∀ binding ∈ bindings, good binding.2) :
    (heap.defineAll scope bindings).Holds good := by
  induction bindings generalizing heap with
  | nil => exact hheap
  | cons binding bindings ih =>
    obtain ⟨hvalue, hrest⟩ := List.forall_mem_cons.mp hbindings
    exact ih (hheap.define scope binding.1 hvalue) hrest

theorem sound_fresh : ((Heap.newScope {} none).2).Sound settable :=
  ⟨holds_empty.newScope none, fun closure hmem => absurd hmem (Array.not_mem_empty closure)⟩

end Heap

namespace Event

/-- Nothing is ever taken away. -/
theorem has_apply (event : Event) {heap : Heap} {value : Value} (hvalue : heap.Has value) :
    (event.apply heap).Has value := by
  have hle : heap.arrays.size ≤ (event.apply heap).arrays.size ∧
      heap.hashes.size ≤ (event.apply heap).hashes.size ∧
      heap.closures.size ≤ (event.apply heap).closures.size := by
    cases event with
    | call closure args =>
      rw [apply, Heap.enter_eq]
      exact ⟨Nat.le_refl _, Nat.le_refl _, Nat.le_refl _⟩
    | bind | newArray | newHash | insert | newClosure =>
      simp [apply, Heap.define, Heap.newArray, Heap.newHash, Heap.insert, Heap.newClosure]
  obtain ⟨harrays, hhashes, hclosures⟩ := hle
  cases value with
  | array id => exact Nat.lt_of_lt_of_le hvalue harrays
  | hash id => exact Nat.lt_of_lt_of_le hvalue hhashes
  | function id => exact Nat.lt_of_lt_of_le hvalue hclosures
  | int | bool | string | null | builtin | error => trivial

theorem offers_apply (event : Event) {heap : Heap} {value : Value}
    (hvalue : heap.Offers settable value) : (event.apply heap).Offers settable value :=
  ⟨event.has_apply hvalue.has, hvalue.usable⟩

theorem sound_apply {event : Event} {heap : Heap} (hpossible : event.Possible settable heap)
    (hheap : heap.Sound settable) : (event.apply heap).Sound settable := by
  -- What is stored already is offered by the new heap as well, and so is what the event adds.
  have hvalues : heap.Holds ((event.apply heap).Offers settable) :=
    hheap.values.imp fun value hvalue => event.offers_apply hvalue
  cases event with
  | bind scope name value =>
    exact ⟨hvalues.define scope name (offers_apply (.bind scope name value) hpossible.2),
      hheap.bodies⟩
  | call closure args =>
    obtain ⟨-, -, hargs⟩ := hpossible
    refine ⟨(hvalues.newScope _).defineAll _ fun binding hbinding => ?_, ?_⟩
    · exact offers_apply (.call closure args) (hargs _ (List.of_mem_zip hbinding).2)
    · rw [apply, Heap.enter_eq]
      exact hheap.bodies
  | newArray items =>
    exact ⟨hvalues.newArray fun item hitem => offers_apply (.newArray items) (hpossible item hitem),
      hheap.bodies⟩
  | newHash hash =>
    exact ⟨hvalues.newHash (hpossible.2.imp fun value => offers_apply (.newHash hash)),
      hheap.bodies⟩
  | insert id key value hashKey =>
    obtain ⟨-, -, hkey, hvalue, -⟩ := hpossible
    exact ⟨hvalues.insert id (offers_apply (.insert id key value hashKey) hkey)
      (offers_apply (.insert id key value hashKey) hvalue) hashKey, hheap.bodies⟩
  | newClosure closure => exact Heap.Admits.newClosure ⟨hvalues, hheap.bodies⟩ hpossible

end Event

namespace History

variable {before after : Heap} {events : List Event}

theorem offers (hhistory : History settable before events after) {value : Value}
    (hvalue : before.Offers settable value) : after.Offers settable value :=
  hhistory.keeps (I := fun heap => heap.Offers settable value)
    (fun _ event _ => event.offers_apply) hvalue

theorem sound (hhistory : History settable before events after)
    (hbefore : before.Sound settable) : after.Sound settable :=
  hhistory.keeps (fun _ _ => Event.sound_apply) hbefore

end History

end MonkeyLang
