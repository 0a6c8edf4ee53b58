import MonkeyLang.Heap.Container

namespace MonkeyLang.Heap

/-- The order of pairs of containers, by their first members first. It serves only to find
them again. -/
def comparePairs : Container × Container → Container × Container → Ordering :=
  compareLex (compareOn Prod.fst) (compareOn Prod.snd)

instance : Std.TransCmp comparePairs :=
  inferInstanceAs (Std.TransCmp (compareLex (compareOn Prod.fst) (compareOn Prod.snd)))

instance : Std.LawfulEqCmp comparePairs where
  eq_of_compare := by
    intro left right hcompare
    obtain ⟨hfirst, hsecond⟩ := compareLex_eq_eq.mp hcompare
    exact Prod.ext (Std.LawfulEqOrd.eq_of_compare hfirst) (Std.LawfulEqOrd.eq_of_compare hsecond)

/-- The pairs of containers around two values that are compared. -/
abbrev PairTrail := Std.TreeSet (Container × Container) comparePairs

/-- All pairs of containers of a heap. -/
def containerPairs (heap : Heap) : List (Container × Container) :=
  heap.containers.flatMap fun left => heap.containers.map fun right => (left, right)

theorem mem_containerPairs {heap : Heap} {left right : Container}
    (hleft : left ∈ heap.containers) (hright : right ∈ heap.containers) :
    (left, right) ∈ heap.containerPairs := by
  simp [containerPairs, hleft, hright]

/-- Compares the contents of two values inside the pairs of containers of a trail. A pair
that is met again inside itself would be compared without end, and then there is no
answer. -/
def equalWithin? (heap : Heap) (trail : PairTrail) (left right : Value) :
    Option Bool :=
  match left, right with
  | .array a, .array b =>
    if a = b then some true
    else if (.array a, .array b) ∈ trail then none
    else if (heap.sequence a).size = (heap.sequence b).size then
      ((heap.elements a).zip (heap.elements b)).attach.allM fun items =>
        heap.equalWithin? (trail.insert (.array a, .array b)) items.1.1 items.1.2
    else some false
  | .hash a, .hash b =>
    if a = b then some true
    else if (.hash a, .hash b) ∈ trail then none
    else if (heap.contents a).size = (heap.contents b).size then
      (heap.contents a).entries.attach.allM fun entry =>
        match _hother : (heap.contents b).get? entry.1.1 with
        | none => some false
        | some other =>
          heap.equalWithin? (trail.insert (.hash a, .hash b)) entry.1.2.value other.value
    else some false
  | left, right => some (left = right)
termination_by unseen heap.containerPairs trail
decreasing_by
  · have hitems := List.of_mem_zip items.2
    exact unseen_insert_lt
      (mem_containerPairs (array_mem_containers hitems.1) (array_mem_containers hitems.2)) ‹_›
  · have hother := IndexedMap.mem_entries_of_get?_eq_some _hother
    exact unseen_insert_lt
      (mem_containerPairs (hash_mem_containers entry.2) (hash_mem_containers hother)) ‹_›

/-- Whether two values have the same contents, with containers compared element by element
and functions by reference. Entries of hashes may stand in any order. -/
def equal? (heap : Heap) (left right : Value) : Option Bool := heap.equalWithin? ∅ left right

end MonkeyLang.Heap
