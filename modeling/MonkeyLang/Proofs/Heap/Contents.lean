import MonkeyLang.Eval.Operator
import MonkeyLang.Proofs.OrderedMap

namespace MonkeyLang

/-- The keys and values of a hash have a property. -/
def Hash.Holds (good : Value → Prop) (hash : Hash) : Prop :=
  ∀ entry ∈ hash.entries, good entry.2.key ∧ good entry.2.value

/-- All values that a heap stores have a property: those bound in a scope, the elements of the
arrays, and the keys and values of the hashes. -/
structure Heap.Holds (good : Value → Prop) (heap : Heap) : Prop where
  bindings : ∀ scope, ∀ binding ∈ (heap.bindings scope).entries, good binding.2
  elements : ∀ id, ∀ item ∈ heap.elements id, good item
  contents : ∀ id, (heap.contents id).Holds good

/-- The keys of a hash have one property and its values another. -/
def Hash.Stores (goodKey good : Value → Prop) (hash : Hash) : Prop :=
  ∀ entry ∈ hash.entries, goodKey entry.2.key ∧ good entry.2.value

/-- The keys of the hashes of a heap have one property, and all other values that it stores have
another. -/
structure Heap.Stores (goodKey good : Value → Prop) (heap : Heap) : Prop where
  bindings : ∀ scope, ∀ binding ∈ (heap.bindings scope).entries, good binding.2
  elements : ∀ id, ∀ item ∈ heap.elements id, good item
  contents : ∀ id, (heap.contents id).Stores goodKey good

variable {goodKey good : Value → Prop}

namespace Hash

theorem stores_empty : Stores goodKey good .empty := by
  intro entry hentry
  cases hentry

theorem holds_empty : Holds good .empty := stores_empty

theorem mem_insert {hash : Hash} {hashKey : HashKey} {new : Entry} {entry : HashKey × Entry}
    (hentry : entry ∈ (hash.insert hashKey new).entries) :
    entry = (hashKey, new) ∨ entry ∈ hash.entries := by
  have hentries := congrArg OrderedMap.entries (hash.toOrderedMap_insert hashKey new)
  change (hash.insert hashKey new).entries = _ at hentries
  rw [hentries] at hentry
  exact OrderedMap.mem_upsert hentry

theorem Holds.imp {hash : Hash} {better : Value → Prop} (himp : ∀ value, good value → better value)
    (hhash : hash.Holds good) : hash.Holds better :=
  fun entry hentry => (hhash entry hentry).imp (himp _) (himp _)

theorem Stores.insert {hash : Hash} (hhash : hash.Stores goodKey good) {key value : Value}
    (hkey : goodKey key) (hvalue : good value) (hashKey : HashKey) :
    Stores goodKey good (hash.insert hashKey ⟨key, value⟩) := by
  intro entry hentry
  rcases mem_insert hentry with rfl | hold
  · exact ⟨hkey, hvalue⟩
  · exact hhash entry hold

theorem Holds.insert {hash : Hash} (hhash : hash.Holds good) {key value : Value} (hkey : good key)
    (hvalue : good value) (hashKey : HashKey) : Holds good (hash.insert hashKey ⟨key, value⟩) :=
  Stores.insert hhash hkey hvalue hashKey

end Hash

namespace Heap

theorem sequence_of_getElem? {heap : Heap} {id : Nat} {sequence : Sequence Value}
    (hid : heap.arrays[id]? = some sequence) : heap.sequence id = sequence := by
  rw [Heap.sequence, hid, Option.getD_some]

theorem contents_of_getElem? {heap : Heap} {id : Nat} {hash : Hash}
    (hid : heap.hashes[id]? = some hash) : heap.contents id = hash := by
  rw [contents, hid, Option.getD_some]

theorem stores_empty : Stores goodKey good {} := by
  refine ⟨fun scope binding hbinding => ?_, fun id item hitem => ?_, fun id => ?_⟩
  · cases hbinding
  · cases hitem
  · exact Hash.stores_empty

theorem Stores.holds {heap : Heap} (hheap : heap.Stores good good) : heap.Holds good :=
  ⟨hheap.bindings, hheap.elements, hheap.contents⟩

theorem Holds.stores {heap : Heap} (hheap : heap.Holds good) : heap.Stores good good :=
  ⟨hheap.bindings, hheap.elements, hheap.contents⟩

theorem holds_empty : Holds good {} := stores_empty.holds

namespace Stores

variable {heap : Heap} (hheap : heap.Stores goodKey good)

include hheap

/-- A name stands for a value that some scope binds. -/
theorem lookup {name : String} {scope : Nat} {value : Value}
    (hvalue : heap.lookup name scope = some value) : good value := by
  fun_induction Heap.lookup heap name scope with
  | case1 => cases hvalue
  | case2 scope found hscope value' hbound =>
    cases hvalue
    refine hheap.bindings scope (name, value) ?_
    rw [Heap.bindings, hscope]
    exact OrderedMap.mem_of_get?_eq_some hbound
  | case3 => cases hvalue
  | case4 scope found hscope hbound outer houter hlt ih => exact ih hvalue
  | case5 => cases hvalue

theorem newScope (outer : Option Nat) : (heap.newScope outer).2.Stores goodKey good := by
  refine ⟨fun scope binding hbinding => ?_, hheap.elements, hheap.contents⟩
  rw [Heap.bindings, Heap.newScope, Array.getElem?_push] at hbinding
  split at hbinding
  · cases hbinding
  · exact hheap.bindings scope binding hbinding

theorem define (scope : Nat) (name : String) {value : Value} (hvalue : good value) :
    (heap.define scope name value).Stores goodKey good := by
  refine ⟨fun other binding hbinding => ?_, hheap.elements, hheap.contents⟩
  have hold := hheap.bindings other
  rw [Heap.bindings] at hold hbinding
  rw [Heap.define, Array.getElem?_modify] at hbinding
  split at hbinding
  · cases hscope : heap.scopes[other]? with
    | none =>
      rw [hscope] at hbinding
      cases hbinding
    | some found =>
      rw [hscope] at hold hbinding
      rcases OrderedMap.mem_upsert hbinding with rfl | hbound
      · exact hvalue
      · exact hold binding hbound
  · exact hold binding hbinding

theorem newArray {items : Sequence Value} (hitems : ∀ item ∈ items.toList, good item) :
    (heap.newArray items).2.Stores goodKey good := by
  refine ⟨hheap.bindings, fun id item hitem => ?_, hheap.contents⟩
  rw [Heap.elements, Heap.sequence, Heap.newArray, Array.getElem?_push] at hitem
  split at hitem
  · exact hitems item hitem
  · exact hheap.elements id item hitem

theorem newHash {hash : Hash} (hhash : hash.Stores goodKey good) :
    (heap.newHash hash).2.Stores goodKey good := by
  refine ⟨hheap.bindings, hheap.elements, fun id => ?_⟩
  rw [Heap.contents, Heap.newHash, Array.getElem?_push]
  split
  · exact hhash
  · exact hheap.contents id

theorem insert (id : Nat) {key value : Value} (hkey : goodKey key) (hvalue : good value)
    (hashKey : HashKey) : (heap.insert id hashKey ⟨key, value⟩).Stores goodKey good := by
  refine ⟨hheap.bindings, hheap.elements, fun other => ?_⟩
  have hold := hheap.contents other
  rw [Heap.contents] at hold ⊢
  rw [Heap.insert, Array.getElem?_modify]
  split
  · cases hhash : heap.hashes[other]? with
    | none => exact Hash.stores_empty
    | some hash =>
      rw [hhash] at hold
      exact hold.insert hkey hvalue hashKey
  · exact hold

/-- A subscript gives an element of an array, a value of a hash, or null. -/
theorem subscript (hnull : good .null) {left index value : Value}
    (hvalue : heap.subscript left index = .ok value) : good value := by
  unfold Heap.subscript at hvalue
  split at hvalue
  · rename_i id i
    cases hvalue
    split
    · rw [← Sequence.getElem?_toList]
      cases hitem : (heap.sequence id).toList[i.toInt.toNat]? with
      | none => exact hnull
      | some item => exact hheap.elements id item (List.mem_of_getElem? hitem)
    · exact hnull
  · rename_i id
    cases hkey : index.hashKey with
    | error fault =>
      rw [hkey] at hvalue
      cases hvalue
    | ok key =>
      rw [hkey] at hvalue
      cases hvalue
      dsimp only
      cases hentry : (heap.contents id).get? key with
      | none => exact hnull
      | some entry =>
        exact (hheap.contents id _ (IndexedMap.mem_entries_of_get?_eq_some hentry)).2
  · cases hvalue

end Stores

namespace Holds

variable {heap : Heap} (hheap : heap.Holds good)

include hheap

theorem imp {better : Value → Prop} (himp : ∀ value, good value → better value) :
    heap.Holds better :=
  ⟨fun scope binding hbinding => himp _ (hheap.bindings scope binding hbinding),
    fun id item hitem => himp _ (hheap.elements id item hitem),
    fun id => (hheap.contents id).imp himp⟩

theorem lookup {name : String} {scope : Nat} {value : Value}
    (hvalue : heap.lookup name scope = some value) : good value :=
  hheap.stores.lookup hvalue

theorem newScope (outer : Option Nat) : (heap.newScope outer).2.Holds good :=
  (hheap.stores.newScope outer).holds

theorem define (scope : Nat) (name : String) {value : Value} (hvalue : good value) :
    (heap.define scope name value).Holds good :=
  (hheap.stores.define scope name hvalue).holds

theorem newArray {items : Sequence Value} (hitems : ∀ item ∈ items.toList, good item) :
    (heap.newArray items).2.Holds good :=
  (hheap.stores.newArray hitems).holds

theorem newHash {hash : Hash} (hhash : hash.Holds good) : (heap.newHash hash).2.Holds good :=
  (hheap.stores.newHash hhash).holds

theorem insert (id : Nat) {key value : Value} (hkey : good key) (hvalue : good value)
    (hashKey : HashKey) : (heap.insert id hashKey ⟨key, value⟩).Holds good :=
  (hheap.stores.insert id hkey hvalue hashKey).holds

theorem subscript (hnull : good .null) {left index value : Value}
    (hvalue : heap.subscript left index = .ok value) : good value :=
  hheap.stores.subscript hnull hvalue

end Holds

end Heap

end MonkeyLang
