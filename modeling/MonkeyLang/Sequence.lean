namespace MonkeyLang

/-- A sequence that grows at its end and shrinks at its start without being copied. It keeps
its elements from the last to the first, followed by those that were dropped from the start,
so it shares them with the sequence it was made from. -/
structure Sequence (α : Type) where
  backward : List α := []
  size : Nat := 0
  size_le : size ≤ backward.length := by simp

namespace Sequence

variable {α : Type}

/-- The sequence without elements. -/
def empty : Sequence α := {}

/-- The sequence of the elements of a list. -/
def ofList (items : List α) : Sequence α := ⟨items.reverse, items.length, by simp⟩

/-- The elements from the first to the last. -/
def toList (s : Sequence α) : List α := (s.backward.take s.size).reverse

/-- Adds an element at the end. -/
def push (s : Sequence α) (item : α) : Sequence α :=
  ⟨item :: s.backward, s.size + 1, Nat.succ_le_succ s.size_le⟩

/-- Leaves out the first element. -/
def rest (s : Sequence α) : Sequence α :=
  ⟨s.backward, s.size - 1, Nat.le_trans (Nat.sub_le _ _) s.size_le⟩

/-- The element at a position. -/
def get? (s : Sequence α) (i : Nat) : Option α :=
  if i < s.size then s.backward[s.size - 1 - i]? else none

/-- The first element. -/
def first? (s : Sequence α) : Option α := s.get? 0

/-- The last element. -/
def last? (s : Sequence α) : Option α := if s.size = 0 then none else s.backward.head?

theorem length_toList (s : Sequence α) : s.toList.length = s.size := by
  simp [toList, Nat.min_eq_left s.size_le]

theorem toList_empty : (empty : Sequence α).toList = [] := rfl

theorem toList_ofList (items : List α) : (ofList items).toList = items := by
  simp [toList, ofList, List.take_of_length_le]

theorem toList_push (s : Sequence α) (item : α) : (s.push item).toList = s.toList ++ [item] := by
  simp [toList, push]

theorem getElem?_toList (s : Sequence α) (i : Nat) : s.toList[i]? = s.get? i := by
  have hsize := s.size_le
  by_cases hi : i < s.size
  · have hlength : (s.backward.take s.size).length = s.size := by simp [Nat.min_eq_left hsize]
    have hposition : s.size - 1 - i < s.size := by omega
    rw [toList, get?, if_pos hi, List.getElem?_reverse (by omega), hlength,
      List.getElem?_take_of_lt hposition]
  · simp [get?, hi, length_toList]

theorem toList_rest (s : Sequence α) : s.rest.toList = s.toList.tail := by
  apply List.ext_getElem?
  intro i
  rw [List.getElem?_tail, getElem?_toList, getElem?_toList]
  have hsize : s.rest.size = s.size - 1 := rfl
  by_cases hi : i + 1 < s.size
  · have hbefore : i < s.rest.size := by omega
    have hposition : s.rest.size - 1 - i = s.size - 1 - (i + 1) := by omega
    rw [get?, get?, if_pos hi, if_pos hbefore, hposition]
    rfl
  · have hbehind : ¬ i < s.rest.size := by omega
    rw [get?, get?, if_neg hi, if_neg hbehind]

theorem getLast?_toList (s : Sequence α) : s.toList.getLast? = s.last? := by
  obtain ⟨backward, size, hsize⟩ := s
  cases size with
  | zero => simp [toList, last?]
  | succ size => cases backward <;> simp [toList, last?]

end Sequence

end MonkeyLang
