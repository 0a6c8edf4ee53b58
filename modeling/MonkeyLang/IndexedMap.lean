import MonkeyLang.OrderedMap
import Std.Data.TreeMap

namespace MonkeyLang

/-- An ordered map that also keeps the position of each key in a search tree, so that a key
is found without going through the entries. -/
structure IndexedMap (K V : Type) (cmp : K → K → Ordering) where
  index : Std.TreeMap K Nat cmp
  slots : Array (K × V)
  indexed : ∀ (key : K) (i : Nat),
    index[key]? = some i ↔ ∃ value : V, slots[i]? = some (key, value)

namespace IndexedMap

variable {K V : Type} {cmp : K → K → Ordering}

/-- The entries in the order in which their keys first appeared. -/
def entries (m : IndexedMap K V cmp) : List (K × V) := m.slots.toList

/-- The same entries as a plain ordered map. -/
def toOrderedMap (m : IndexedMap K V cmp) : OrderedMap K V := ⟨m.entries⟩

/-- The number of keys. -/
def size (m : IndexedMap K V cmp) : Nat := m.slots.size

/-- The value stored under a key. -/
def get? (m : IndexedMap K V cmp) (key : K) : Option V :=
  m.index[key]?.bind fun i => m.slots[i]?.map Prod.snd

private theorem indexed_set {m : IndexedMap K V cmp} {key : K} {position : Nat}
    (hkey : m.index[key]? = some position) (value : V) (other : K) (i : Nat) :
    m.index[other]? = some i ↔
      ∃ found, (m.slots.setIfInBounds position (key, value))[i]? = some (other, found) := by
  obtain ⟨old, hold⟩ := (m.indexed key position).mp hkey
  have hbound : position < m.slots.size := (Array.getElem?_eq_some_iff.mp hold).1
  rw [m.indexed, Array.getElem?_setIfInBounds]
  by_cases hi : position = i
  · subst hi
    rw [if_pos rfl, if_pos hbound, hold]
    simp
  · rw [if_neg hi]

section

variable [Std.TransCmp cmp] [Std.LawfulEqCmp cmp]

/-- The map without entries. -/
def empty : IndexedMap K V cmp := ⟨∅, #[], by simp⟩

private theorem indexed_push {m : IndexedMap K V cmp} {key : K} (hkey : m.index[key]? = none)
    (value : V) (other : K) (i : Nat) :
    (m.index.insert key m.slots.size)[other]? = some i ↔
      ∃ found, (m.slots.push (key, value))[i]? = some (other, found) := by
  rw [Std.TreeMap.getElem?_insert, Array.getElem?_push]
  by_cases hother : key = other
  · subst hother
    rw [if_pos Std.ReflCmp.compare_self]
    have hfresh : ∀ found, m.slots[i]? ≠ some (key, found) := fun found hfound => by
      have hsome := (m.indexed key i).mpr ⟨found, hfound⟩
      simp [hkey] at hsome
    by_cases hi : i = m.slots.size
    · simp [hi]
    · simp [hi, hfresh, Ne.symm hi]
  · rw [if_neg fun hcmp => hother (Std.LawfulEqCmp.eq_of_compare hcmp), m.indexed]
    by_cases hi : i = m.slots.size
    · subst hi
      simp [hother]
    · simp [hi]

/-- Stores a value under a key. A key that is already present keeps its place. -/
def insert (m : IndexedMap K V cmp) (key : K) (value : V) : IndexedMap K V cmp :=
  match hkey : m.index[key]? with
  | some i => ⟨m.index, m.slots.setIfInBounds i (key, value), indexed_set hkey value⟩
  | none =>
    ⟨m.index.insert key m.slots.size, m.slots.push (key, value), indexed_push hkey value⟩

/-- Stores a value under a key and hands back the value it replaces. -/
def replace (m : IndexedMap K V cmp) (key : K) (value : V) : Option V × IndexedMap K V cmp :=
  match hkey : m.index[key]? with
  | some i =>
    (m.slots[i]?.map Prod.snd,
      ⟨m.index, m.slots.setIfInBounds i (key, value), indexed_set hkey value⟩)
  | none =>
    (none, ⟨m.index.insert key m.slots.size, m.slots.push (key, value), indexed_push hkey value⟩)

end

/-- A key without a position has no entry. -/
theorem key_ne_of_index_eq_none {m : IndexedMap K V cmp} {key : K} (hkey : m.index[key]? = none) :
    ∀ entry ∈ m.entries, entry.1 ≠ key := by
  rintro ⟨other, value⟩ hentry rfl
  obtain ⟨i, hi⟩ := List.mem_iff_getElem?.mp hentry
  rw [entries, Array.getElem?_toList] at hi
  have hsome := (m.indexed other i).mpr ⟨value, hi⟩
  simp [hkey] at hsome

/-- A key with a position has an entry there and nowhere else. -/
theorem getElem?_entries_of_index {m : IndexedMap K V cmp} {key : K} {i : Nat}
    (hkey : m.index[key]? = some i) :
    (∃ value, m.entries[i]? = some (key, value)) ∧
      ∀ j found, m.entries[j]? = some (key, found) → j = i := by
  simp only [entries, Array.getElem?_toList]
  refine ⟨(m.indexed key i).mp hkey, fun j found hfound => ?_⟩
  have hsome := (m.indexed key j).mpr ⟨found, hfound⟩
  exact Option.some.inj (hsome.symm.trans hkey)

section

variable [DecidableEq K]

/-- Looking a key up by its position finds the first entry with that key. -/
theorem get?_toOrderedMap (m : IndexedMap K V cmp) (key : K) :
    m.toOrderedMap.get? key = m.get? key := by
  rw [get?, OrderedMap.get?, toOrderedMap]
  cases hkey : m.index[key]? with
  | none =>
    refine List.lookup_eq_none_iff.mpr fun entry hentry => ?_
    have hne := key_ne_of_index_eq_none hkey entry hentry
    simp [Ne.symm hne]
  | some i =>
    obtain ⟨⟨value, hvalue⟩, hunique⟩ := getElem?_entries_of_index hkey
    rw [OrderedMap.lookup_eq_some_of_unique hvalue hunique]
    rw [entries, Array.getElem?_toList] at hvalue
    simp [hvalue]

/-- A value that is found belongs to an entry. -/
theorem mem_entries_of_get?_eq_some {m : IndexedMap K V cmp} {key : K} {value : V}
    (hget : m.get? key = some value) : (key, value) ∈ m.entries :=
  OrderedMap.mem_of_get?_eq_some ((m.get?_toOrderedMap key).trans hget)

variable [Std.TransCmp cmp] [Std.LawfulEqCmp cmp]

/-- Storing a value by its position is storing it in the plain ordered map. -/
theorem toOrderedMap_insert (m : IndexedMap K V cmp) (key : K) (value : V) :
    (m.insert key value).toOrderedMap = m.toOrderedMap.insert key value := by
  rw [insert, OrderedMap.insert]
  split
  · rename_i i hkey
    obtain ⟨⟨old, hold⟩, hunique⟩ := getElem?_entries_of_index hkey
    rw [toOrderedMap, toOrderedMap, OrderedMap.upsert_eq_set_of_unique hold hunique]
    simp [entries]
  · rename_i hkey
    rw [toOrderedMap, toOrderedMap,
      OrderedMap.upsert_eq_append_of_absent (key_ne_of_index_eq_none hkey)]
    simp [entries]

end

end IndexedMap

end MonkeyLang
