import MonkeyLang.Heap
import MonkeyLang.Output.Printing

namespace MonkeyLang

/-- All that evaluation can change. -/
structure State where
  heap : Heap := {}
  output : Output := {}

/-- A computation that changes the state and may stop early. What it has changed by then
stays changed. -/
abbrev Effect (ε α : Type) := EStateM ε State α

namespace Effect

variable {ε : Type}

/-- The heap as it is now. -/
def heap : Effect ε Heap := fun state => .ok state.heap state

/-- Adds something to the heap and gives its position. -/
def allocate (new : Heap → Nat × Heap) : Effect ε Nat := fun state =>
  .ok (new state.heap).1 { state with heap := (new state.heap).2 }

/-- Changes the heap. -/
def update (change : Heap → Heap) : Effect ε Unit := fun state =>
  .ok () { state with heap := change state.heap }

/-- Writes a text. If there is no room for all of it the computation stops. -/
def write (failure : ε) (text : String) : Effect ε Unit := fun state =>
  let (complete, output) := state.output.write text
  if complete then .ok () { state with output } else .error failure { state with output }

/-- Prints to the output of the state. If there is no room for all of it the computation
stops. -/
def print (failure : ε) (printing : Printing) : Effect ε Unit := fun state =>
  match printing state.output with
  | .ok _ output => .ok () { state with output }
  | .error _ output => .error failure { state with output }

theorem print_text (failure : ε) (text : String) :
    print failure (Printing.text text) = write failure text := by
  funext state
  simp only [print, write, Printing.text]
  rcases state.output.write text with ⟨_ | _, output⟩ <;> rfl

/-- An outcome that changes nothing. -/
def ofExcept {α : Type} (outcome : Except ε α) : Effect ε α := fun state =>
  match outcome with
  | .ok value => .ok value state
  | .error error => .error error state

end Effect

end MonkeyLang
