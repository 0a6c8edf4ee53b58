import MonkeyLang.Heap
import Std.Data.TreeSet

namespace MonkeyLang

/-- A place in the heap that holds values. -/
inductive Container where
  | array (id : Nat)
  | hash (id : Nat)
deriving DecidableEq

namespace Container

/-- The place of the kind of a container in the order of containers. -/
def rank : Container → Nat
  | array _ => 0
  | hash _ => 1

/-- The position of a container among those of its kind. -/
def id : Container → Nat
  | array id | hash id => id

/-- Containers are ordered by their kinds first. The order serves only to find them again. -/
instance : Ord Container where
  compare := compareLex (compareOn rank) (compareOn id)

instance : Std.TransOrd Container :=
  inferInstanceAs (Std.TransCmp (compareLex (compareOn rank) (compareOn id)))

instance : Std.LawfulEqOrd Container where
  eq_of_compare := by
    intro left right hcompare
    obtain ⟨hrank, hid⟩ := compareLex_eq_eq.mp hcompare
    have hrank' : left.rank = right.rank := Std.LawfulEqOrd.eq_of_compare hrank
    have hid' : left.id = right.id := Std.LawfulEqOrd.eq_of_compare hid
    cases left <;> cases right <;> simp_all [rank, id]

end Container

/-- The containers around a value. -/
abbrev Trail := Std.TreeSet Container

namespace Heap

/-- All containers of a heap. -/
def containers (heap : Heap) : List Container :=
  (List.range heap.arrays.size).map .array ++ (List.range heap.hashes.size).map .hash

/-- An array with an element is in the heap. -/
theorem array_mem_containers {heap : Heap} {id : Nat} {value : Value}
    (hvalue : value ∈ heap.elements id) : .array id ∈ heap.containers := by
  by_cases hid : id < heap.arrays.size
  · simp [containers, hid]
  · simp [elements, sequence, Array.getElem?_eq_none (Nat.le_of_not_lt hid),
      Sequence.toList_empty] at hvalue

/-- A hash with an entry is in the heap. -/
theorem hash_mem_containers {heap : Heap} {id : Nat} {entry : HashKey × Entry}
    (hentry : entry ∈ (heap.contents id).entries) : .hash id ∈ heap.containers := by
  by_cases hid : id < heap.hashes.size
  · simp [containers, hid]
  · simp [contents, Array.getElem?_eq_none (Nat.le_of_not_lt hid), IndexedMap.entries,
      IndexedMap.empty] at hentry

end Heap

section

variable {α : Type} {cmp : α → α → Ordering}

/-- The number of members of a list that are not yet in a set. Each new member of the set
makes them fewer, which is why walking a heap that contains itself comes to an end. -/
def unseen (list : List α) (seen : Std.TreeSet α cmp) : Nat := list.countP fun x => !seen.contains x

theorem unseen_insert_lt [Std.TransCmp cmp] [Std.LawfulEqCmp cmp] {list : List α}
    {seen : Std.TreeSet α cmp} {x : α} (hx : x ∈ list) (hnew : x ∉ seen) :
    unseen list (seen.insert x) < unseen list seen := by
  induction list with
  | nil => cases hx
  | cons y rest ih =>
    have hmono : unseen rest (seen.insert x) ≤ unseen rest seen :=
      List.countP_mono_left fun z _ hz => by
        simp_all [Std.TreeSet.contains_insert]
    by_cases hyx : x = y
    · subst hyx
      have hold : seen.contains x = false := Bool.eq_false_iff.mpr fun hseen =>
        hnew (Std.TreeSet.contains_iff_mem.mp hseen)
      have hself : (seen.insert x).contains x = true := by simp
      simp only [unseen, List.countP_cons, hold, hself] at hmono ⊢
      simp only [Bool.not_true, Bool.not_false, Bool.false_eq_true, if_false, if_true]
      omega
    · have htail : x ∈ rest := (List.mem_cons.1 hx).resolve_left hyx
      have hlt := ih htail
      have hsame : (seen.insert x).contains y = seen.contains y := by
        simp [Std.TreeSet.contains_insert, hyx]
      simp only [unseen, List.countP_cons, hsame] at hlt ⊢
      omega

end

end MonkeyLang
