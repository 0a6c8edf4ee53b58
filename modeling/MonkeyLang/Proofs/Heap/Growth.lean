import MonkeyLang.Proofs.Eval.NamedTracking

namespace MonkeyLang

namespace Hash

/-- A hash that came about by filing pairs in another one, all of them under keys that can be
hashed. -/
def Grown (old new : Hash) : Prop :=
  ∃ pairs : List (Value × Value),
    pairs.foldlM (fun hash (key, value) => file hash key value) old = .ok new

theorem Grown.refl (hash : Hash) : Grown hash hash := ⟨[], rfl⟩

theorem Grown.trans {old middle new : Hash} (hfirst : Grown old middle)
    (hsecond : Grown middle new) : Grown old new := by
  obtain ⟨pairs, hpairs⟩ := hfirst
  obtain ⟨more, hmore⟩ := hsecond
  refine ⟨pairs ++ more, ?_⟩
  rw [List.foldlM_append, hpairs]
  exact hmore

theorem Grown.insert (hash : Hash) {key : Value} {hashKey : HashKey}
    (hkey : key.hashKey = .ok hashKey) (value : Value) :
    Grown hash (hash.insert hashKey ⟨key, value⟩) := by
  refine ⟨[(key, value)], ?_⟩
  simp only [List.foldlM_cons, List.foldlM_nil, file, hkey]
  rfl

private theorem prefix_keys_insert (hash : Hash) (hashKey : HashKey) (entry : Entry) :
    hash.entries.map Prod.fst <+: (hash.insert hashKey entry).entries.map Prod.fst := by
  rw [hash.keys_insert]
  split
  · exact List.prefix_rfl
  · exact List.prefix_append _ _

/-- The keys of a hash stay where they are, and new ones go behind them. -/
theorem Grown.prefix_keys {old new : Hash} (hgrown : Grown old new) :
    old.entries.map Prod.fst <+: new.entries.map Prod.fst := by
  obtain ⟨pairs, hpairs⟩ := hgrown
  induction pairs generalizing old with
  | nil =>
    cases hpairs
    exact List.prefix_rfl
  | cons pair rest ih =>
    obtain ⟨key, value⟩ := pair
    simp only [List.foldlM_cons, file] at hpairs
    cases hkey : key.hashKey with
    | error fault =>
      rw [hkey] at hpairs
      cases hpairs
    | ok hashKey =>
      rw [hkey] at hpairs
      exact (prefix_keys_insert old hashKey ⟨key, value⟩).trans (ih hpairs)

end Hash

/-- The arrays of a heap are all there afterwards, as they were. So are the hashes, but for changes
of a certain kind. -/
structure Heap.Retains (R : Hash → Hash → Prop) (before after : Heap) : Prop where
  arrays : ∀ (id : Nat) (items : Sequence Value),
    before.arrays[id]? = some items → after.arrays[id]? = some items
  hashes : ∀ (id : Nat) (old : Hash),
    before.hashes[id]? = some old → ∃ new, after.hashes[id]? = some new ∧ R old new

namespace Heap

variable {R : Hash → Hash → Prop} (hrefl : ∀ hash, R hash hash)

namespace Retains

include hrefl

/-- Heaps that differ in their scopes and functions only. -/
theorem of_eq {before after : Heap} (harrays : after.arrays = before.arrays)
    (hhashes : after.hashes = before.hashes) : before.Retains R after := by
  refine ⟨fun id items hitems => ?_, fun id old hold => ⟨old, ?_, hrefl old⟩⟩
  · rw [harrays, hitems]
  · rw [hhashes, hold]

theorem newArray (heap : Heap) (items : Sequence Value) :
    heap.Retains R (heap.newArray items).2 := by
  refine ⟨fun id old hold => ?_, fun id old hold => ⟨old, hold, hrefl old⟩⟩
  obtain ⟨hid, -⟩ := Array.getElem?_eq_some_iff.mp hold
  rw [Heap.newArray, Array.getElem?_push, if_neg (Nat.ne_of_lt hid), hold]

theorem newHash (heap : Heap) (hash : Hash) : heap.Retains R (heap.newHash hash).2 := by
  refine ⟨fun id items hitems => hitems, fun id old hold => ⟨old, ?_, hrefl old⟩⟩
  obtain ⟨hid, -⟩ := Array.getElem?_eq_some_iff.mp hold
  rw [Heap.newHash, Array.getElem?_push, if_neg (Nat.ne_of_lt hid), hold]

theorem insert (heap : Heap) (id : Nat) {hashKey : HashKey} {entry : Entry}
    (hinsert : ∀ hash, R hash (hash.insert hashKey entry)) :
    heap.Retains R (heap.insert id hashKey entry) := by
  refine ⟨fun other items hitems => hitems, fun other old hold => ?_⟩
  rw [Heap.insert, Array.getElem?_modify, hold]
  split
  · exact ⟨_, rfl, hinsert old⟩
  · exact ⟨old, rfl, hrefl old⟩

end Retains

theorem Retains.trans (htrans : ∀ first second third, R first second → R second third →
      R first third) {before middle after : Heap} (hfirst : before.Retains R middle)
    (hsecond : middle.Retains R after) : before.Retains R after := by
  refine ⟨fun id items hitems => ?_, fun id old hold => ?_⟩
  · exact hsecond.arrays id items (hfirst.arrays id items hitems)
  · obtain ⟨between, hbetween, holder⟩ := hfirst.hashes id old hold
    obtain ⟨new, hnew, hnewer⟩ := hsecond.hashes id between hbetween
    exact ⟨new, hnew, htrans old between new holder hnewer⟩

/-- What a new function may mention is asked for when it is made, as no function ever changes. -/
theorem Admits.newClosure {known : String → Prop} {good : Value → Prop} {heap : Heap}
    (hheap : heap.Admits known good) {closure : Closure}
    (hbody : ∀ name ∈ idents closure.body, known name) :
    (heap.newClosure closure).2.Admits known good := by
  refine ⟨⟨hheap.values.bindings, hheap.values.elements, hheap.values.contents⟩, ?_⟩
  intro other hother
  rcases Array.mem_push.mp hother with hold | rfl
  · exact hheap.bodies other hold
  · exact hbody

end Heap

end MonkeyLang
