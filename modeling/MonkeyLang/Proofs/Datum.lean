import MonkeyLang.Heap.Container
import MonkeyLang.Proofs.Heap.Growth

namespace MonkeyLang

/-- Data without parts of its own that can be a key. The smallest integer is left out, as a minus
sign before its digits would stand before a number that is out of range. -/
inductive Atom where
  | int (number : Int64) (hnumber : number ≠ Int64.minValue)
  | bool (truth : Bool)

namespace Atom

/-- The value of an atom. -/
def value : Atom → Value
  | int number _ => .int number
  | bool truth => .bool truth

/-- What an atom is filed under as a key. -/
def hashKey : Atom → HashKey
  | int number _ => .int number
  | bool truth => .bool truth

/-- The text of an atom. -/
def text : Atom → String
  | int number _ => Decimal.write number
  | bool true => "true"
  | bool false => "false"

/-- The expression that denotes an atom. A number below zero is the negation of one above. -/
def literal : Atom → Expr
  | int number _ => if 0 ≤ number.toInt then .int number else .unary .negate (.int (-number))
  | bool truth => .bool truth

theorem hashKey_value (atom : Atom) : atom.value.hashKey = .ok atom.hashKey := by
  cases atom <;> rfl

theorem value_injective {first second : Atom} (hvalue : first.value = second.value) :
    first = second := by
  cases first <;> cases second <;> cases hvalue <;> rfl

end Atom

/-- Data as a tree, with the pairs of a hash in order. There is no sharing in it and there are no
cycles. -/
inductive Datum where
  | null
  | atom (atom : Atom)
  | array (items : List Datum)
  | hash (pairs : List (Atom × Datum))

mutual

/-- The text of a datum. -/
def Datum.text : Datum → String
  | .null => "null"
  | .atom atom => atom.text
  | .array items => "[" ++ ", ".intercalate (itemTexts items) ++ "]"
  | .hash pairs => "\x7b" ++ ", ".intercalate (pairTexts pairs) ++ "\x7d"

def itemTexts : List Datum → List String
  | [] => []
  | item :: rest => item.text :: itemTexts rest

def pairTexts : List (Atom × Datum) → List String
  | [] => []
  | (key, datum) :: rest => (key.text ++ ": " ++ datum.text) :: pairTexts rest

end

mutual

/-- The expression that denotes a datum. -/
def Datum.literal : Datum → Expr
  | .null => .null
  | .atom atom => atom.literal
  | .array items => .array (itemLiterals items)
  | .hash pairs => .hash (pairLiterals pairs)

def itemLiterals : List Datum → List Expr
  | [] => []
  | item :: rest => item.literal :: itemLiterals rest

def pairLiterals : List (Atom × Datum) → List (Expr × Expr)
  | [] => []
  | (key, datum) :: rest => (key.literal, datum.literal) :: pairLiterals rest

end

namespace Heap

mutual

/-- What a value stands for if all that can be reached from it is data. Its containers are all in
the heap, and they may be shared. -/
inductive Represents (heap : Heap) : Datum → Value → Prop where
  | null : Represents heap .null .null
  | atom {atom : Atom} {value : Value} (hvalue : value = atom.value) :
      Represents heap (.atom atom) value
  | array {items : List Datum} {id : Nat} {sequence : Sequence Value}
      (hid : heap.arrays[id]? = some sequence)
      (hitems : RepresentsItems heap items sequence.toList) :
      Represents heap (.array items) (.array id)
  | hash {pairs : List (Atom × Datum)} {id : Nat} {hash : Hash}
      (hid : heap.hashes[id]? = some hash) (hpairs : RepresentsPairs heap pairs hash.entries) :
      Represents heap (.hash pairs) (.hash id)

inductive RepresentsItems (heap : Heap) : List Datum → List Value → Prop where
  | nil : RepresentsItems heap [] []
  | cons {item : Datum} {items : List Datum} {value : Value} {values : List Value}
      (hitem : Represents heap item value) (hitems : RepresentsItems heap items values) :
      RepresentsItems heap (item :: items) (value :: values)

/-- The entries are in the order of the pairs, and each is filed under the key that it keeps. -/
inductive RepresentsPairs (heap : Heap) : List (Atom × Datum) → List (HashKey × Entry) → Prop where
  | nil : RepresentsPairs heap [] []
  | cons {key : Atom} {datum : Datum} {pairs : List (Atom × Datum)} {hashKey : HashKey}
      {entry : Entry} {entries : List (HashKey × Entry)} (hhash : hashKey = key.hashKey)
      (hkey : entry.key = key.value) (hdatum : Represents heap datum entry.value)
      (hpairs : RepresentsPairs heap pairs entries) :
      RepresentsPairs heap ((key, datum) :: pairs) ((hashKey, entry) :: entries)

end

variable {heap : Heap}

theorem Represents.eq_atom {datum : Datum} {atom : Atom} {value : Value}
    (hdatum : heap.Represents datum value) (hvalue : value = atom.value) : datum = .atom atom := by
  subst hvalue
  cases atom with
  | int | bool =>
    cases hdatum with
    | atom hvalue => rw [Atom.value_injective hvalue]

mutual

/-- A value stands for one datum at most. -/
theorem Represents.unique : {first second : Datum} → {value : Value} →
    heap.Represents first value → heap.Represents second value → first = second
  | _, _, _, .atom hvalue, hsecond => (hsecond.eq_atom hvalue).symm
  | _, _, _, hfirst, .atom hvalue => hfirst.eq_atom hvalue
  | _, _, _, .null, .null => rfl
  | _, _, _, .array hid hitems, .array hother hothers => by
    cases hid.symm.trans hother
    rw [hitems.unique hothers]
  | _, _, _, .hash hid hpairs, .hash hother hothers => by
    cases hid.symm.trans hother
    rw [hpairs.unique hothers]

theorem RepresentsItems.unique : {first second : List Datum} → {values : List Value} →
    heap.RepresentsItems first values → heap.RepresentsItems second values → first = second
  | _, _, _, .nil, .nil => rfl
  | _, _, _, .cons hitem hitems, .cons hother hothers => by
    rw [hitem.unique hother, hitems.unique hothers]

theorem RepresentsPairs.unique : {first second : List (Atom × Datum)} →
    {entries : List (HashKey × Entry)} → heap.RepresentsPairs first entries →
    heap.RepresentsPairs second entries → first = second
  | _, _, _, .nil, .nil => rfl
  | _, _, _, .cons _ hkey hdatum hpairs, .cons _ hkey' hother hothers => by
    rw [Atom.value_injective (hkey.symm.trans hkey'), hdatum.unique hother, hpairs.unique hothers]

end

/-- No container of a heap is changed. There may be new ones. -/
def Extends (before after : Heap) : Prop := before.Retains Eq after

namespace Extends

theorem of_eq {before after : Heap} (harrays : after.arrays = before.arrays)
    (hhashes : after.hashes = before.hashes) : before.Extends after :=
  Retains.of_eq (fun _ => rfl) harrays hhashes

theorem trans {before middle after : Heap} (hfirst : before.Extends middle)
    (hsecond : middle.Extends after) : before.Extends after :=
  Retains.trans (fun _ _ _ hold hnew => hold.trans hnew) hfirst hsecond

theorem newArray (heap : Heap) (items : Sequence Value) : heap.Extends (heap.newArray items).2 :=
  Retains.newArray (fun _ => rfl) heap items

theorem newHash (heap : Heap) (hash : Hash) : heap.Extends (heap.newHash hash).2 :=
  Retains.newHash (fun _ => rfl) heap hash

end Extends

mutual

/-- What a value stands for stays the same as long as no container changes, and new ones do not
matter. -/
theorem Represents.persists {after : Heap} (hafter : heap.Extends after) :
    {datum : Datum} → {value : Value} → heap.Represents datum value → after.Represents datum value
  | _, _, .null => .null
  | _, _, .atom hvalue => .atom hvalue
  | _, _, .array hid hitems => .array (hafter.arrays _ _ hid) (hitems.persists hafter)
  | _, _, .hash hid hpairs => by
    obtain ⟨_, hid, rfl⟩ := hafter.hashes _ _ hid
    exact .hash hid (hpairs.persists hafter)

theorem RepresentsItems.persists {after : Heap} (hafter : heap.Extends after) :
    {items : List Datum} → {values : List Value} → heap.RepresentsItems items values →
    after.RepresentsItems items values
  | _, _, .nil => .nil
  | _, _, .cons hitem hitems => .cons (hitem.persists hafter) (hitems.persists hafter)

theorem RepresentsPairs.persists {after : Heap} (hafter : heap.Extends after) :
    {pairs : List (Atom × Datum)} → {entries : List (HashKey × Entry)} →
    heap.RepresentsPairs pairs entries → after.RepresentsPairs pairs entries
  | _, _, .nil => .nil
  | _, _, .cons hhash hkey hdatum hpairs =>
    .cons hhash hkey (hdatum.persists hafter) (hpairs.persists hafter)

end

end Heap

/-- A reference to a container. -/
def Container.value : Container → Value
  | array id => .array id
  | hash id => .hash id

theorem Heap.eq_or_mem_of_mem_insert {trail : Trail} {container other : Container}
    (hother : other ∈ trail.insert container) : other = container ∨ other ∈ trail := by
  rcases Std.TreeSet.mem_insert.mp hother with heq | hold
  · exact .inl (Std.LawfulEqOrd.eq_of_compare heq).symm
  · exact .inr hold

/-- The containers around a place all stand for more than a certain size, if they are data at all.
So what is no larger is none of them. -/
def Heap.Enclosed (heap : Heap) (around : Container → Prop) (size : Nat) : Prop :=
  ∀ container, around container →
    ∀ datum, heap.Represents datum container.value → size < sizeOf datum

namespace Heap.Enclosed

variable {heap : Heap} {around : Container → Prop} {container : Container} {datum : Datum}

theorem of_le {size smaller : Nat} (haround : heap.Enclosed around size) (hle : smaller ≤ size) :
    heap.Enclosed around smaller :=
  fun container hcontainer datum hdatum =>
    Nat.lt_of_le_of_lt hle (haround container hcontainer datum hdatum)

theorem not_around (haround : heap.Enclosed around (sizeOf datum))
    (hdatum : heap.Represents datum container.value) : ¬ around container :=
  fun hcontainer => Nat.lt_irrefl _ (haround container hcontainer datum hdatum)

/-- A part of a container is smaller than it, since the container stands for nothing else. -/
theorem enter (haround : heap.Enclosed around (sizeOf datum))
    (hdatum : heap.Represents datum container.value) {size : Nat} (hsize : size < sizeOf datum) :
    heap.Enclosed (fun other => other = container ∨ around other) size := by
  rintro other (rfl | hother) found hfound
  · rwa [hfound.unique hdatum]
  · exact Nat.lt_trans hsize (haround other hother found hfound)

end Heap.Enclosed

end MonkeyLang
