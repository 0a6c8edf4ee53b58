import MonkeyLang.Proofs.Heap.Contents
import MonkeyLang.Builtin.Call

namespace MonkeyLang

/-- An array that is on the heap, with its elements. -/
def Heap.IsArray (heap : Heap) (array : Value) (items : List Value) : Prop :=
  ∃ id sequence, array = .array id ∧ heap.arrays[id]? = some sequence ∧ sequence.toList = items

/-- The arrays of one heap are arrays of another one, with the same elements. -/
def Heap.KeepsArrays (before after : Heap) : Prop :=
  ∀ array items, before.IsArray array items → after.IsArray array items

/-- An array was made. It has the given elements and is none of those that were there before, and
these are as they were. -/
structure Heap.Makes (before after : Heap) (array : Value) (items : List Value) : Prop where
  isArray : after.IsArray array items
  fresh : ∀ old, ¬ before.IsArray array old
  keeps : before.KeepsArrays after

namespace Heap

theorem KeepsArrays.trans {before middle after : Heap} (hfirst : before.KeepsArrays middle)
    (hsecond : middle.KeepsArrays after) : before.KeepsArrays after :=
  fun array items harray => hsecond array items (hfirst array items harray)

/-- What is new on a later heap is new on an earlier one. -/
theorem KeepsArrays.makes {before middle after : Heap} {array : Value} {items : List Value}
    (hkeeps : before.KeepsArrays middle) (hmakes : middle.Makes after array items) :
    before.Makes after array items :=
  ⟨hmakes.isArray, fun old hold => hmakes.fresh old (hkeeps array old hold),
    hkeeps.trans hmakes.keeps⟩

private theorem makes_newArray (heap : Heap) (sequence : Sequence Value) :
    heap.Makes (heap.newArray sequence).2 (.array (heap.newArray sequence).1) sequence.toList := by
  refine ⟨⟨_, sequence, rfl, Array.getElem?_push_size, rfl⟩, ?_, ?_⟩
  · rintro old ⟨id, found, hid, hfound, -⟩
    cases hid
    exact Nat.lt_irrefl _ (Array.getElem?_eq_some_iff.mp hfound).1
  · rintro array items ⟨id, found, rfl, hfound, hitems⟩
    have hid := (Array.getElem?_eq_some_iff.mp hfound).1
    refine ⟨id, found, rfl, ?_, hitems⟩
    rw [newArray, Array.getElem?_push, if_neg (Nat.ne_of_lt hid), hfound]

/-- The elements of an array stand at the indices from zero on, and nothing stands elsewhere. -/
theorem IsArray.subscript {heap : Heap} {array : Value} {items : List Value}
    (harray : heap.IsArray array items) (i : Int64) : heap.subscript array (.int i) =
      .ok (if 0 ≤ i.toInt then items[i.toInt.toNat]?.getD .null else .null) := by
  obtain ⟨id, sequence, rfl, hid, rfl⟩ := harray
  rw [Heap.subscript, sequence_of_getElem? hid, Sequence.getElem?_toList]

end Heap

namespace Builtin

/-- Calls `rest` several times, each time on the result of the call before. -/
def restTimes : Nat → Value → Effect Fault Value
  | 0, array => return array
  | count + 1, array => do call .rest [← restTimes count array]

section

variable {state : State} {array : Value} {items : List Value}
  (harray : state.heap.IsArray array items)

include harray

private theorem sequenceOf_eq (callee : Builtin) :
    ∃ sequence : Sequence Value, sequence.toList = items ∧
    sequenceOf callee array state = .ok sequence state := by
  obtain ⟨id, sequence, rfl, hid, hitems⟩ := harray
  refine ⟨sequence, hitems, ?_⟩
  rw [← Heap.sequence_of_getElem? hid]
  rfl

/-- The functions that need an element find the contents of an array unless it is empty. -/
theorem nonemptyOf_eq (callee : Builtin) (hitems : items ≠ []) :
    ∃ sequence : Sequence Value, sequence.toList = items ∧
      nonemptyOf callee array state = .ok sequence state := by
  obtain ⟨sequence, rfl, hsequence⟩ := sequenceOf_eq harray callee
  refine ⟨sequence, rfl, ?_⟩
  have hsize : sequence.size ≠ 0 := by
    rw [← sequence.length_toList]
    exact fun hlength => hitems (List.length_eq_zero_iff.mp hlength)
  simp only [nonemptyOf, bind, EStateM.bind, hsequence, if_neg hsize]
  rfl

private theorem nonemptyOf_of_nil (callee : Builtin) (hitems : items = []) :
    nonemptyOf callee array state = .error (.emptyArray callee) state := by
  obtain ⟨sequence, rfl, hsequence⟩ := sequenceOf_eq harray callee
  have hsize : sequence.size = 0 := by rw [← sequence.length_toList, hitems, List.length_nil]
  simp only [nonemptyOf, bind, EStateM.bind, hsequence, if_pos hsize]
  rfl

/-- The functions that need an element refuse an array without any. -/
theorem call_of_nil (hitems : items = []) : ∀ callee ∈ [first, last, rest],
    call callee [array] state = .error (.emptyArray callee) state := by
  have hnonempty (callee : Builtin) := nonemptyOf_of_nil harray callee hitems
  intro callee hcallee
  simp only [List.mem_cons, List.not_mem_nil, or_false] at hcallee
  rcases hcallee with rfl | rfl | rfl <;> simp only [call, bind, EStateM.bind, hnonempty]

private theorem call_len : call .len [array] state = .ok (.int (.ofNat items.length)) state := by
  obtain ⟨id, sequence, rfl, hid, rfl⟩ := harray
  rw [sequence.length_toList, ← Heap.sequence_of_getElem? hid]
  rfl

private theorem call_first (hitems : items ≠ []) :
    call .first [array] state = .ok (items.head hitems) state := by
  obtain ⟨sequence, rfl, hsequence⟩ := nonemptyOf_eq harray .first hitems
  have hfirst : sequence.first? = some (sequence.toList.head hitems) := by
    rw [Sequence.first?, ← Sequence.getElem?_toList, ← List.head?_eq_getElem?,
      List.head?_eq_some_head hitems]
  simp only [call, bind, EStateM.bind, hsequence, hfirst]
  rfl

private theorem call_last (hitems : items ≠ []) :
    call .last [array] state = .ok (items.getLast hitems) state := by
  obtain ⟨sequence, rfl, hsequence⟩ := nonemptyOf_eq harray .last hitems
  have hlast : sequence.last? = some (sequence.toList.getLast hitems) := by
    rw [← Sequence.getLast?_toList, List.getLast?_eq_some_getLast hitems]
  simp only [call, bind, EStateM.bind, hsequence, hlast]
  rfl

private theorem call_rest (hitems : items ≠ []) : ∃ rest after,
    call .rest [array] state = .ok rest after ∧
      state.heap.Makes after.heap rest items.tail := by
  obtain ⟨sequence, rfl, hsequence⟩ := nonemptyOf_eq harray .rest hitems
  refine ⟨_, ⟨(state.heap.newArray sequence.rest).2, state.output⟩, ?_,
    sequence.toList_rest ▸ state.heap.makes_newArray sequence.rest⟩
  simp only [call, bind, EStateM.bind, hsequence]
  rfl

private theorem call_push (item : Value) : ∃ pushed after,
    call .push [array, item] state = .ok pushed after ∧
      state.heap.Makes after.heap pushed (items ++ [item]) := by
  obtain ⟨sequence, rfl, hsequence⟩ := sequenceOf_eq harray .push
  refine ⟨_, ⟨(state.heap.newArray (sequence.push item)).2, state.output⟩, ?_,
    sequence.toList_push item ▸ state.heap.makes_newArray (sequence.push item)⟩
  simp only [call, bind, EStateM.bind, hsequence]
  rfl

/-- Each call of `rest` takes one element off the array. All the arrays made on the way are new. -/
theorem restTimes_eq {count : Nat} (hcount : count ≤ items.length) : ∃ rest after,
    restTimes count array state = .ok rest after ∧ after.heap.IsArray rest (items.drop count) ∧
      state.heap.KeepsArrays after.heap ∧
      (0 < count → state.heap.Makes after.heap rest (items.drop count)) := by
  induction count with
  | zero =>
    exact ⟨array, state, rfl, harray, fun _ _ hold => hold, fun hpos => absurd hpos (by omega)⟩
  | succ count ih =>
    obtain ⟨rest, middle, hrest, hisArray, hkeeps, -⟩ := ih (by omega)
    have hitems : items.drop count ≠ [] := by
      rw [ne_eq, List.drop_eq_nil_iff]
      omega
    obtain ⟨next, after, hnext, hmakes⟩ := call_rest hisArray hitems
    rw [List.tail_drop] at hmakes
    have hall := hkeeps.makes hmakes
    refine ⟨next, after, ?_, hmakes.isArray, hall.keeps, fun _ => hall⟩
    simp only [restTimes, bind, EStateM.bind, hrest, hnext]

end

/-- Indexing agrees with the functions on arrays. The element at an index is the first one after
that many calls of `rest`, which shorten the array one by one until nothing is left to take, and
every other index gives null. `push` puts an element behind the others, before or after `rest`. The
arrays that come of this are new, and those that were there are as they were. -/
theorem indexing_agrees_with_rest {state : State} {array : Value} {items : List Value}
    (harray : state.heap.IsArray array items) (item : Value) :
    (∀ i : Int64, 0 ≤ i.toInt → i.toInt < items.length → ∃ value after,
      state.heap.subscript array (.int i) = .ok value ∧
      (do call .first [← restTimes i.toInt.toNat array]) state = .ok value after) ∧
    (∀ i : Int64, ¬ (0 ≤ i.toInt ∧ i.toInt < items.length) →
      state.heap.subscript array (.int i) = .ok .null) ∧
    (∀ count ≤ items.length, ∃ rest after, restTimes count array state = .ok rest after ∧
      call .len [rest] after = .ok (.int (.ofNat (items.length - count))) after ∧
      state.heap.KeepsArrays after.heap ∧
      (0 < count → state.heap.Makes after.heap rest (items.drop count)) ∧
      (count = items.length → ∀ callee ∈ [.first, .last, .rest],
        call callee [rest] after = .error (.emptyArray callee) after)) ∧
    ∃ pushed after, call .push [array, item] state = .ok pushed after ∧
      state.heap.Makes after.heap pushed (items ++ [item]) ∧
      call .len [pushed] after = .ok (.int (.ofNat (items.length + 1))) after ∧
      (∀ i : Int64, 0 ≤ i.toInt → i.toInt < items.length →
        after.heap.subscript pushed (.int i) = state.heap.subscript array (.int i)) ∧
      (∀ i : Int64, i.toInt = items.length → after.heap.subscript pushed (.int i) = .ok item) ∧
      call .last [pushed] after = .ok item after ∧
      (items ≠ [] → ∃ same,
        (∃ rest last, call .rest [pushed] after = .ok rest last ∧
          after.heap.Makes last.heap rest same) ∧
        ∃ other last, (do call .push [← call .rest [array], item]) state = .ok other last ∧
          state.heap.Makes last.heap other same) := by
  refine ⟨fun i hlower hupper => ?_, fun i hi => ?_, fun count hcount => ?_, ?_⟩
  · have hi : i.toInt.toNat < items.length := by omega
    obtain ⟨rest, after, hrest, hisArray, -⟩ := restTimes_eq harray (Nat.le_of_lt hi)
    have hitems : items.drop i.toInt.toNat ≠ [] := by
      rw [ne_eq, List.drop_eq_nil_iff]
      omega
    refine ⟨_, after, harray.subscript i, ?_⟩
    simp only [bind, EStateM.bind, hrest, call_first hisArray hitems, List.head_drop, if_pos hlower,
      List.getElem?_eq_getElem hi, Option.getD_some]
  · rw [harray.subscript]
    split
    · rw [List.getElem?_eq_none (by omega), Option.getD_none]
    · rfl
  · obtain ⟨rest, after, hrest, hisArray, hkeeps, hmakes⟩ := restTimes_eq harray hcount
    refine ⟨rest, after, hrest, ?_, hkeeps, hmakes, fun hall => call_of_nil hisArray ?_⟩
    · rw [call_len hisArray, List.length_drop]
    · rw [hall, List.drop_length]
  · obtain ⟨pushed, after, hpush, hmakes⟩ := call_push harray item
    have hne : items ++ [item] ≠ [] := by simp
    refine ⟨pushed, after, hpush, hmakes, ?_, fun i hlower hupper => ?_, fun i hi => ?_, ?_,
      fun hitems => ?_⟩
    · rw [call_len hmakes.isArray, List.length_append, List.length_singleton]
    · rw [hmakes.isArray.subscript, harray.subscript, List.getElem?_append_left (by omega)]
    · rw [hmakes.isArray.subscript, if_pos (by omega), hi, Int.toNat_natCast,
        List.getElem?_concat_length, Option.getD_some]
    · rw [call_last hmakes.isArray hne, List.getLast_append_singleton]
    · obtain ⟨rest, last, hrest, hrestMakes⟩ := call_rest hmakes.isArray hne
      obtain ⟨shorter, middle, hshorter, hshorterMakes⟩ := call_rest harray hitems
      obtain ⟨other, ending, hother, hotherMakes⟩ := call_push hshorterMakes.isArray item
      rw [List.tail_append_of_ne_nil hitems] at hrestMakes
      refine ⟨items.tail ++ [item], ⟨rest, last, hrest, hrestMakes⟩, other, ending, ?_,
        hshorterMakes.keeps.makes hotherMakes⟩
      simp only [bind, EStateM.bind, hshorter, hother]

/-- An array is pushed to itself, which makes another one. The first one has nothing at a negative
index, and what it has at its last index is what `rest` leaves. -/
theorem indexing_agrees_with_rest_itself :
    let state : State := ⟨(Heap.newArray {} (.ofList [.int 5, .int 7])).2, {}⟩
    state.heap.IsArray (.array 0) [.int 5, .int 7] ∧
    (∃ value after, state.heap.subscript (.array 0) (.int 1) = .ok value ∧
      (do call .first [← restTimes 1 (.array 0)]) state = .ok value after) ∧
    state.heap.subscript (.array 0) (.int (-1)) = .ok .null ∧
    ∃ pushed after, call .push [.array 0, .array 0] state = .ok pushed after ∧
      pushed ≠ .array 0 ∧ after.heap.IsArray (.array 0) [.int 5, .int 7] ∧
      after.heap.subscript pushed (.int 2) = .ok (.array 0) := by
  intro state
  have harray : state.heap.IsArray (.array 0) [.int 5, .int 7] := ⟨0, _, rfl, rfl, rfl⟩
  obtain ⟨hindex, hnull, -, pushed, after, hpush, hmakes, -, -, hlast, -⟩ :=
    indexing_agrees_with_rest harray (.array 0)
  refine ⟨harray, hindex 1 (by decide) (by decide), hnull (-1) (by decide), pushed, after, hpush,
    ?_, hmakes.keeps _ _ harray, hlast 2 (by decide)⟩
  rintro rfl
  exact hmakes.fresh _ harray

end Builtin

end MonkeyLang
