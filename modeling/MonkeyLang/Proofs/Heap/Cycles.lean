import Mathlib.Data.List.Chain
import MonkeyLang.Proofs.Eval.Filing
import MonkeyLang.Proofs.Value.Sketch
import MonkeyLang.Proofs.Value.Unfolding

namespace MonkeyLang

namespace Heap

/-- A container has another one among its values. -/
def Contains (heap : Heap) (outer inner : Container) : Prop := inner.value ∈ heap.parts outer

/-- Containers of which each contains the next one, and the last contains the first. -/
def Cycle (heap : Heap) : List Container → Prop
  | [] => False
  | first :: rest => List.IsChain heap.Contains (first :: rest ++ [first])

/-- An order of the containers in which every array comes after all that it contains. So does every
hash, unless hashes may be changed. -/
structure Ranked (settable : Prop) (heap : Heap) (rank : Container → Nat) : Prop where
  bounded : ∀ container, heap.Has container.value →
    rank container < heap.arrays.size + heap.hashes.size
  descends : ∀ outer inner, heap.Contains outer inner → (settable → ∃ id, outer = .array id) →
    rank inner < rank outer

variable {settable : Prop} {heap : Heap} {rank : Container → Nat}

theorem elements_newArray (heap : Heap) (items : Sequence Value) (id : Nat) :
    (heap.newArray items).2.elements id =
      if id = heap.arrays.size then items.toList else heap.elements id := by
  rw [elements, sequence, newArray, Array.getElem?_push]
  split <;> rfl

theorem contents_newHash (heap : Heap) (hash : Hash) (id : Nat) :
    (heap.newHash hash).2.contents id =
      if id = heap.hashes.size then hash else heap.contents id := by
  rw [contents, newHash, Array.getElem?_push]
  split <;> rfl

theorem Sound.has_part (hsound : heap.Sound settable) {container : Container} {value : Value}
    (hvalue : value ∈ heap.parts container) : heap.Has value := by
  cases container with
  | array id => exact (hsound.values.elements id value hvalue).has
  | hash id =>
    obtain ⟨entry, hentry, rfl⟩ := List.mem_map.mp hvalue
    exact (hsound.values.contents id entry hentry).2.has

namespace Ranked

variable (hranked : heap.Ranked settable rank)

include hranked

/-- A cycle goes against the order somewhere, and only a hash that may be changed does. -/
theorem exists_hash {cycle : List Container} (hcycle : heap.Cycle cycle) :
    settable ∧ ∃ id, .hash id ∈ cycle := by
  match cycle with
  | first :: rest =>
    by_contra hnone
    -- If it did not, the rank would fall all the way around, from the first container to itself.
    have hdescends : ∀ outer inner, outer ∈ first :: (rest ++ [first]) →
        inner ∈ first :: (rest ++ [first]) → heap.Contains outer inner →
          rank inner < rank outer := by
      intro outer inner houter _ hcontains
      refine hranked.descends outer inner hcontains fun hsettable => ?_
      cases outer with
      | array id => exact ⟨id, rfl⟩
      | hash id =>
        refine absurd ⟨hsettable, id, ?_⟩ hnone
        simp only [List.mem_cons, List.mem_append, List.not_mem_nil, or_false] at houter ⊢
        tauto
    have hchain : List.IsChain (· > ·) ((first :: (rest ++ [first])).map rank) :=
      (List.isChain_map rank).mpr (hcycle.imp_of_mem_imp hdescends)
    have hfirst : rank first ∈ (rest ++ [first]).map rank := by simp
    exact Nat.lt_irrefl _ (hchain.rel_cons hfirst)

/-- Changes that leave all containers as they are. -/
theorem of_eq {after : Heap} (harrays : after.arrays = heap.arrays)
    (hhashes : after.hashes = heap.hashes) : after.Ranked settable rank := by
  obtain ⟨scopes, arrays, hashes, closures⟩ := after
  obtain rfl := harrays
  obtain rfl := hhashes
  refine ⟨fun container hhas => hranked.bounded container ?_, fun outer inner hcontains => ?_⟩
  · cases container <;> exact hhas
  · refine hranked.descends outer inner ?_
    cases outer <;> exact hcontains

/-- A container that is new comes last, as all that it contains is there already. -/
theorem extend (hsound : heap.Sound settable) {after : Heap} (new : Container)
    (hsize : after.arrays.size + after.hashes.size = heap.arrays.size + heap.hashes.size + 1)
    (hnew : ¬ heap.Has new.value)
    (hhas : ∀ container, container ≠ new → after.Has container.value → heap.Has container.value)
    (hparts : ∀ container, container ≠ new → after.parts container = heap.parts container)
    (hnewParts : ∀ value ∈ after.parts new, heap.Has value) :
    after.Ranked settable
      (Function.update rank new (heap.arrays.size + heap.hashes.size)) := by
  have hold {container : Container} (hcontainer : heap.Has container.value) :
      Function.update rank new (heap.arrays.size + heap.hashes.size) container =
        rank container := by
    refine Function.update_of_ne ?_ _ _
    rintro rfl
    exact hnew hcontainer
  refine ⟨fun container hcontainer => ?_, fun outer inner hcontains harray => ?_⟩
  · rw [hsize]
    by_cases hne : container = new
    · rw [hne, Function.update_self]
      exact Nat.lt_succ_self _
    · have hcontainer := hhas container hne hcontainer
      rw [hold hcontainer]
      exact Nat.lt_succ_of_lt (hranked.bounded container hcontainer)
  · by_cases hne : outer = new
    · rw [hne] at hcontains ⊢
      have hinner := hnewParts _ hcontains
      rw [hold hinner, Function.update_self]
      exact hranked.bounded inner hinner
    · rw [Contains, hparts outer hne] at hcontains
      rw [hold (hsound.has_part hcontains), Function.update_of_ne hne]
      exact hranked.descends outer inner hcontains harray

end Ranked

end Heap

/-- What happens to a heap keeps its containers in an order. -/
theorem Event.ranked_apply {settable : Prop} {heap : Heap} {event : Event}
    (hpossible : event.Possible settable heap) (hsound : heap.Sound settable)
    (hheap : ∃ rank, heap.Ranked settable rank) :
    ∃ rank, (event.apply heap).Ranked settable rank := by
  obtain ⟨rank, hranked⟩ := hheap
  cases event with
  | bind | newClosure => exact ⟨rank, hranked.of_eq rfl rfl⟩
  | call closure args =>
    rw [apply, Heap.enter_eq]
    exact ⟨rank, hranked.of_eq rfl rfl⟩
  | newArray items =>
    have hsize : (heap.newArray items).2.arrays.size = heap.arrays.size + 1 := Array.size_push _
    refine ⟨_, hranked.extend hsound (.array heap.arrays.size) ?_ (Nat.lt_irrefl _) ?_ ?_ ?_⟩
    · rw [apply, hsize]
      exact Nat.add_right_comm _ _ _
    · intro container hne hhas
      cases container with
      | array id =>
        have hlt : id < heap.arrays.size + 1 := Nat.lt_of_lt_of_eq hhas hsize
        have hne : id ≠ heap.arrays.size := fun hid => hne (congrArg _ hid)
        exact Nat.lt_of_le_of_ne (Nat.le_of_lt_succ hlt) hne
      | hash id => exact hhas
    · intro container hne
      cases container with
      | array id =>
        rw [Heap.parts, apply, Heap.elements_newArray, if_neg fun hid => hne (congrArg _ hid)]
        rfl
      | hash id => rfl
    · intro value hvalue
      rw [Heap.parts, apply, Heap.elements_newArray, if_pos rfl] at hvalue
      exact (hpossible value hvalue).has
  | newHash hash =>
    have hsize : (heap.newHash hash).2.hashes.size = heap.hashes.size + 1 := Array.size_push _
    refine ⟨_, hranked.extend hsound (.hash heap.hashes.size) ?_ (Nat.lt_irrefl _) ?_ ?_ ?_⟩
    · rw [apply, hsize]
      exact rfl
    · intro container hne hhas
      cases container with
      | array id => exact hhas
      | hash id =>
        have hlt : id < heap.hashes.size + 1 := Nat.lt_of_lt_of_eq hhas hsize
        have hne : id ≠ heap.hashes.size := fun hid => hne (congrArg _ hid)
        exact Nat.lt_of_le_of_ne (Nat.le_of_lt_succ hlt) hne
    · intro container hne
      cases container with
      | array id => rfl
      | hash id =>
        rw [Heap.parts, apply, Heap.contents_newHash, if_neg fun hid => hne (congrArg _ hid)]
        rfl
    · intro value hvalue
      rw [Heap.parts, apply, Heap.contents_newHash, if_pos rfl] at hvalue
      obtain ⟨entry, hentry, rfl⟩ := List.mem_map.mp hvalue
      exact (hpossible.2 entry hentry).2.has
  | insert id key value hashKey =>
    -- A hash may come to contain anything now, so the order is about the arrays only.
    obtain ⟨hsettable, -⟩ := hpossible
    have hsize : (heap.insert id hashKey ⟨key, value⟩).hashes.size = heap.hashes.size :=
      Array.size_modify
    refine ⟨rank, fun container hhas => ?_, fun outer inner hcontains harray => ?_⟩
    · rw [apply, hsize]
      refine hranked.bounded container ?_
      cases container with
      | array other => exact hhas
      | hash other => exact Nat.lt_of_lt_of_eq hhas hsize
    · obtain ⟨array, rfl⟩ := harray hsettable
      exact hranked.descends _ inner hcontains harray

theorem History.ranked {settable : Prop} {events : List Event} {heap : Heap}
    (hhistory : History settable (Heap.newScope {} none).2 events heap) :
    ∃ rank, heap.Ranked settable rank := by
  have hfresh : ∃ rank, ((Heap.newScope {} none).2).Ranked settable rank := by
    refine ⟨fun _ => 0, fun container hhas => ?_, fun outer inner hcontains => ?_⟩
    · cases container <;> exact absurd hhas (Nat.not_lt_zero _)
    · cases outer <;> cases hcontains
  refine (hhistory.keeps (I := fun heap => heap.Sound settable ∧ ∃ rank, heap.Ranked settable rank)
    ?_ ⟨Heap.sound_fresh, hfresh⟩).2
  rintro heap event hpossible ⟨hsound, hranked⟩
  exact ⟨Event.sound_apply hpossible hsound, Event.ranked_apply hpossible hsound hranked⟩

namespace Heap.Ranked

variable {heap : Heap} {rank : Container → Nat} (hranked : heap.Ranked False rank)

include hranked

/-- Where every container comes after all that it contains, there are no cycles. The keys that a
text shows make no difference, since none of them is a container. -/
theorem cycleFree_shown (hfiled : ∀ id, (heap.contents id).Filed) (value : Value) :
    CycleFree heap.shown value := by
  refine .of_rank rank (fun outer inner hholds => ?_) value
  refine hranked.descends outer inner ?_ False.elim
  cases outer with
  | array id => exact hholds
  | hash id =>
    obtain ⟨entry, hentry, hinner⟩ := List.mem_flatMap.mp hholds
    have hkey : inner.value ≠ entry.2.key := by
      intro hkey
      have hscalar : entry.2.key.Scalar := Value.Hashable.scalar ⟨_, hfiled id entry hentry⟩
      rw [← hkey] at hscalar
      cases inner <;> cases hscalar
    simp only [List.mem_cons, hkey, List.not_mem_nil, or_false, false_or] at hinner
    rw [Contains, hinner]
    exact List.mem_map_of_mem hentry

/-- The text that a person is shown is the one that plain recursion gives, and no other. -/
theorem plainText_iff (hfiled : ∀ id, (heap.contents id).Filed) (value : Value) (text : String) :
    heap.PlainText value text ↔ heap.render value = text :=
  (hranked.cycleFree_shown hfiled value).plainText_iff text

theorem exists_equal? (left right : Value) : ∃ answer, heap.equal? left right = some answer := by
  have hfree : ∀ value, CycleFree heap.parts value :=
    .of_rank rank fun outer inner hholds => hranked.descends outer inner hholds False.elim
  exact (hfree left).exists_equal? (hfree right)

end Heap.Ranked

theorem History.filed_contents {settable : Prop} {events : List Event} {heap : Heap}
    (hhistory : History settable (Heap.newScope {} none).2 events heap) (id : Nat) :
    (heap.contents id).Filed := by
  rw [Heap.contents]
  cases hid : heap.hashes[id]? with
  | none => exact Hash.filed_empty
  | some hash => exact hhistory.filed hash (Array.mem_of_getElem? hid)

/-- Where cycles come from. Whatever programs have been evaluated, a cycle of containers goes
through a hash. If none of them mentions `set` there is no cycle at all, so that the text of every
value is the one that plain recursion gives, and every comparison of values comes to an end. -/
theorem cycles_come_from_set (depth scope : Nat) (programs : List (List Stmt)) (output : Output) :
    let fresh := (Session.newScope : Effect Failure Nat).after ⟨{}, output⟩
    let heap := (afterPrograms depth scope programs fresh).heap
    (∀ cycle, heap.Cycle cycle → ∃ id, .hash id ∈ cycle) ∧
    ((∀ stmts ∈ programs, "set" ∉ idents stmts) →
      (∀ cycle, ¬ heap.Cycle cycle) ∧
      (∀ value text, heap.PlainText value text ↔ heap.render value = text) ∧
      ∀ left right, ∃ answer, heap.equal? left right = some answer) := by
  intro fresh heap
  refine ⟨fun cycle hcycle => ?_, fun hprograms => ?_⟩
  · have hany : ∀ stmts ∈ programs, ∀ name ∈ idents stmts, name = "set" → True :=
      fun _ _ _ _ _ => trivial
    obtain ⟨events, hevents⟩ := history_afterPrograms depth scope hany fresh Heap.sound_fresh
    obtain ⟨rank, hranked⟩ := hevents.ranked
    exact (hranked.exists_hash hcycle).2
  · have hset : ∀ stmts ∈ programs, ∀ name ∈ idents stmts, name = "set" → False := by
      rintro stmts hstmts name hname rfl
      exact hprograms stmts hstmts hname
    obtain ⟨events, hevents⟩ := history_afterPrograms depth scope hset fresh Heap.sound_fresh
    obtain ⟨rank, hranked⟩ := hevents.ranked
    refine ⟨fun cycle hcycle => (hranked.exists_hash hcycle).1, ?_, hranked.exists_equal?⟩
    exact hranked.plainText_iff hevents.filed_contents

/-- A hash that is set to an array with that hash in it makes a cycle. Two programs that only nest
arrays and hashes make none, and the text of what they make is that of a tree. -/
theorem cycles_come_from_set_nested :
    let fresh : State := ⟨(Heap.newScope {} none).2, {}⟩
    let tied := [(Program.parse "let h = \x7b\x7d; set(h, 1, [h])").stmts]
    let nested := [(Program.parse "let a = [1]").stmts,
      (Program.parse "let h = \x7btrue: a\x7d; [h, a]").stmts]
    let heap := (afterPrograms 1 0 nested fresh).heap
    (afterPrograms 1 0 tied fresh).heap.Cycle [.array 0, .hash 0] ∧
      (∃ id, .hash id ∈ [Container.array 0, .hash 0]) ∧
      (∀ stmts ∈ nested, "set" ∉ idents stmts) ∧
      heap.PlainText (.array 1) "[\x7btrue: [1]\x7d, [1]]" ∧
      ∃ answer, heap.equal? (.array 0) (.array 1) = some answer := by
  intro fresh tied nested heap
  have hcycle : (afterPrograms 1 0 tied fresh).heap.Cycle [.array 0, .hash 0] := by
    refine .cons_cons ?_ (.cons_cons ?_ (.singleton _))
    · have hmem : .hash 0 ∈ (afterPrograms 1 0 tied fresh).heap.elements 0 := by decide +kernel
      exact hmem
    · have hmem : .array 0 ∈ (afterPrograms 1 0 tied fresh).heap.parts (.hash 0) := by
        decide +kernel
      exact hmem
  have hnested : ∀ stmts ∈ nested, "set" ∉ idents stmts := by decide +kernel
  have htext : heap.render (.array 1) = "[\x7btrue: [1]\x7d, [1]]" := by decide +kernel
  obtain ⟨-, hplain, hequal⟩ := (cycles_come_from_set 1 0 nested {}).2 hnested
  exact ⟨hcycle, (cycles_come_from_set 1 0 tied {}).1 _ hcycle, hnested, (hplain _ _).mpr htext,
    hequal _ _⟩

end MonkeyLang
