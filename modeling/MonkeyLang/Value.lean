import MonkeyLang.Fault
import MonkeyLang.IndexedMap

namespace MonkeyLang

/-- Values. Arrays, hashes and functions are references into a heap, so that copies of a
value share what it refers to. -/
inductive Value where
  | int (value : Int64)
  | bool (value : Bool)
  | string (text : String)
  | null
  | array (id : Nat)
  | hash (id : Nat)
  | function (id : Nat)
  | builtin (callee : Builtin)
  | error (fault : Fault)
deriving DecidableEq

/-- What identifies an entry of a hash. Keys of different types are never equal. -/
inductive HashKey where
  | int (value : Int64)
  | bool (value : Bool)
  | string (text : String)
deriving DecidableEq

namespace HashKey

/-- The place of the type of a key in the order of keys. -/
def rank : HashKey → Nat
  | int _ => 0
  | bool _ => 1
  | string _ => 2

/-- The number of a key, with numbers for the two booleans. -/
def number : HashKey → Int64
  | int value => value
  | bool value => if value then 1 else 0
  | string _ => 0

/-- The text of a key, which is empty unless the key is a string. -/
def text : HashKey → String
  | string text => text
  | _ => ""

/-- Keys are ordered by their types first. The order serves only to find them again. -/
instance : Ord HashKey where
  compare := compareLex (compareOn rank) (compareLex (compareOn number) (compareOn text))

instance : Std.TransOrd HashKey :=
  inferInstanceAs (Std.TransCmp
    (compareLex (compareOn rank) (compareLex (compareOn number) (compareOn text))))

instance : Std.LawfulEqOrd HashKey where
  eq_of_compare := by
    intro left right hcompare
    obtain ⟨hrank, hothers⟩ := compareLex_eq_eq.mp hcompare
    obtain ⟨hnumber, htext⟩ := compareLex_eq_eq.mp hothers
    have hrank' : left.rank = right.rank := Std.LawfulEqOrd.eq_of_compare hrank
    have hnumber' : left.number = right.number := Std.LawfulEqOrd.eq_of_compare hnumber
    have htext' : left.text = right.text := Std.LawfulEqOrd.eq_of_compare htext
    cases left <;> cases right <;> simp_all [rank, number, text]
    rename_i left right
    cases left <;> cases right <;> simp_all

end HashKey

namespace Value

/-- The type of a value. -/
def type : Value → ValueType
  | int _ => .integer
  | bool _ => .boolean
  | string _ => .string
  | null => .null
  | array _ => .array
  | hash _ => .hash
  | function _ => .function
  | builtin _ => .builtin
  | error _ => .error

/-- Only `false` and null count as false. -/
def truthy : Value → Bool
  | bool value => value
  | null => false
  | _ => true

/-- The key under which a value is filed in a hash. Only integers, booleans and strings
have one. -/
def hashKey (value : Value) : Except Fault HashKey :=
  match value with
  | int value => .ok (.int value)
  | bool value => .ok (.bool value)
  | string text => .ok (.string text)
  | other => .error (.unhashable other.type)

/-- Whether two values are one and the same. Containers and functions are compared by
reference, everything else by value. -/
def same (left right : Value) : Bool := left = right

end Value

/-- An entry of a hash keeps the value it was filed under. -/
structure Entry where
  key : Value
  value : Value
deriving DecidableEq

/-- The contents of a hash, in the order in which the keys first appeared. -/
abbrev Hash := IndexedMap HashKey Entry compare

namespace Hash

/-- Files a value under a key that must be hashable. -/
def file (hash : Hash) (key value : Value) : Except Fault Hash :=
  key.hashKey.map fun hashKey => hash.insert hashKey ⟨key, value⟩

/-- The hash of a list of pairs. The first unhashable key decides the fault, and of equal
keys the last value stays. -/
def ofPairs (pairs : List (Value × Value)) : Except Fault Hash :=
  pairs.foldlM (fun hash (key, value) => file hash key value) .empty

end Hash

end MonkeyLang
