import MonkeyLang.Sequence
import MonkeyLang.Value

namespace MonkeyLang

/-- A scope has its own bindings and stands inside at most one other scope. -/
structure Scope where
  bindings : OrderedMap String Value := .empty
  outer : Option Nat := none

/-- A function together with the scope in which it was written. -/
structure Closure where
  params : List String
  body : Block
  scope : Nat

/-- Everything that values share. References are positions, and nothing is ever removed,
so a reference stays good. -/
structure Heap where
  scopes : Array Scope := #[]
  arrays : Array (Sequence Value) := #[]
  hashes : Array Hash := #[]
  closures : Array Closure := #[]

namespace Heap

/-- Adds a scope without bindings. -/
def newScope (heap : Heap) (outer : Option Nat) : Nat × Heap :=
  (heap.scopes.size, { heap with scopes := heap.scopes.push { outer } })

/-- The bindings of a scope itself. -/
def bindings (heap : Heap) (scope : Nat) : OrderedMap String Value :=
  (heap.scopes[scope]?.map Scope.bindings).getD .empty

/-- The names bound in a scope itself, in the order of their first binding. -/
def names (heap : Heap) (scope : Nat) : List String := (heap.bindings scope).keys

/-- Binds a name in a scope and in no other. -/
def define (heap : Heap) (scope : Nat) (name : String) (value : Value) : Heap :=
  { heap with
    scopes := heap.scopes.modify scope fun old =>
      { old with bindings := old.bindings.insert name value } }

/-- The value of a name in the nearest scope that binds it. A scope is only created inside
an older one, so the search always moves to a smaller position. -/
def lookup (heap : Heap) (name : String) (scope : Nat) : Option Value :=
  match heap.scopes[scope]? with
  | none => none
  | some found =>
    match found.bindings.get? name with
    | some value => some value
    | none =>
      match found.outer with
      | none => none
      | some outer => if outer < scope then heap.lookup name outer else none
termination_by scope

/-- The contents of an array. -/
def sequence (heap : Heap) (id : Nat) : Sequence Value := heap.arrays[id]?.getD .empty

/-- The elements of an array. -/
def elements (heap : Heap) (id : Nat) : List Value := (heap.sequence id).toList

/-- Adds an array. -/
def newArray (heap : Heap) (items : Sequence Value) : Nat × Heap :=
  (heap.arrays.size, { heap with arrays := heap.arrays.push items })

/-- Appends an element to an existing array. -/
def append (heap : Heap) (id : Nat) (item : Value) : Heap :=
  { heap with arrays := heap.arrays.modify id (·.push item) }

/-- The contents of a hash. -/
def contents (heap : Heap) (id : Nat) : Hash := heap.hashes[id]?.getD .empty

/-- Adds a hash. -/
def newHash (heap : Heap) (hash : Hash) : Nat × Heap :=
  (heap.hashes.size, { heap with hashes := heap.hashes.push hash })

/-- Files an entry in an existing hash. -/
def insert (heap : Heap) (id : Nat) (key : HashKey) (entry : Entry) : Heap :=
  { heap with hashes := heap.hashes.modify id (·.insert key entry) }

/-- Adds a function. -/
def newClosure (heap : Heap) (closure : Closure) : Nat × Heap :=
  (heap.closures.size, { heap with closures := heap.closures.push closure })

end Heap

end MonkeyLang
