import Mathlib.Logic.Relation
import MonkeyLang.Proofs.Datum

namespace MonkeyLang

/-- The container that a value refers to. -/
def Value.container? : Value → Option Container
  | array id => some (.array id)
  | hash id => some (.hash id)
  | _ => none

@[simp]
theorem Container.container?_value (container : Container) :
    container.value.container? = some container := by
  cases container <;> rfl

theorem Value.value_of_container? {value : Value} {container : Container}
    (hvalue : value.container? = some container) : container.value = value := by
  cases value <;> cases hvalue <;> rfl

theorem Container.value_inj {first second : Container} :
    first.value = second.value ↔ first = second := by
  constructor
  · intro hvalue
    simpa using congrArg Value.container? hvalue
  · rintro rfl
    rfl

namespace Heap

/-- The values in a container. The keys of a hash are left out, since none of them is a
container. -/
def parts (heap : Heap) : Container → List Value
  | .array id => heap.elements id
  | .hash id => (heap.contents id).entries.map fun entry => entry.2.value

theorem mem_containers_of_parts {heap : Heap} {container : Container} {part : Value}
    (hpart : part ∈ heap.parts container) : container ∈ heap.containers := by
  cases container with
  | array id => exact array_mem_containers hpart
  | hash id =>
    obtain ⟨entry, hentry, -⟩ := List.mem_map.mp hpart
    exact hash_mem_containers hentry

end Heap

open Relation

/-- A container has another one among its parts. What counts as a part is left open, since a text
shows more of a hash than a comparison looks at. -/
def Holds (parts : Container → List Value) (outer inner : Container) : Prop :=
  inner.value ∈ parts outer

/-- No container that can be reached from a value holds itself, directly or through others. -/
def CycleFree (parts : Container → List Value) (value : Value) : Prop :=
  ∀ first reached : Container, first.value = value → ReflTransGen (Holds parts) first reached →
    ¬ TransGen (Holds parts) reached reached

/-- A place where all the containers around a value hold it. If there are no cycles below it either,
the value is none of them, and the same is true of its parts. -/
structure Clear (parts : Container → List Value) (around : Container → Prop) (value : Value) :
    Prop where
  cycleFree : CycleFree parts value
  held : ∀ inner : Container, inner.value = value →
    ∀ outer, around outer → TransGen (Holds parts) outer inner

variable {parts : Container → List Value} {around : Container → Prop}

theorem CycleFree.of_part {container : Container} (hfree : CycleFree parts container.value)
    {part : Value} (hpart : part ∈ parts container) : CycleFree parts part := by
  rintro first reached rfl hreached
  exact hfree container reached rfl (hreached.head hpart)

/-- A rank that falls from every container to its parts leaves no room for cycles. -/
theorem CycleFree.of_rank (rank : Container → Nat)
    (hrank : ∀ outer inner, Holds parts outer inner → rank inner < rank outer) (value : Value) :
    CycleFree parts value := by
  have hfalls : ∀ {outer inner}, TransGen (Holds parts) outer inner → rank inner < rank outer := by
    intro outer inner hpath
    induction hpath with
    | single hholds => exact hrank _ _ hholds
    | tail _ hholds ih => exact Nat.lt_trans (hrank _ _ hholds) ih
  exact fun _ _ _ _ hcycle => Nat.lt_irrefl _ (hfalls hcycle)

/-- It is enough to look at the containers of a heap, as no others have parts. -/
theorem CycleFree.of_rank_on {containers : List Container}
    (hcontainers : ∀ container, ∀ part ∈ parts container, container ∈ containers)
    (rank : Container → Nat)
    (hrank : ∀ outer ∈ containers, ∀ part ∈ parts outer, ∀ inner ∈ part.container?,
      rank inner < rank outer) (value : Value) :
    CycleFree parts value := by
  refine .of_rank rank (fun outer inner hholds => ?_) value
  exact hrank outer (hcontainers outer _ hholds) _ hholds inner inner.container?_value

namespace Clear

theorem of_nothing {value : Value} (hfree : CycleFree parts value)
    (hnone : ∀ outer, ¬ around outer) : Clear parts around value :=
  ⟨hfree, fun _ _ outer houter => absurd houter (hnone outer)⟩

theorem not_around {container : Container} (hclear : Clear parts around container.value) :
    ¬ around container :=
  fun haround => hclear.cycleFree container container rfl .refl
    (hclear.held container rfl container haround)

theorem enter {container : Container} (hclear : Clear parts around container.value) {part : Value}
    (hpart : part ∈ parts container) {within : Container → Prop}
    (hwithin : ∀ other, within other → other = container ∨ around other) :
    Clear parts within part := by
  refine ⟨hclear.cycleFree.of_part hpart, ?_⟩
  rintro inner rfl outer houter
  rcases hwithin outer houter with rfl | haround
  · exact .single hpart
  · exact (hclear.held container rfl outer haround).tail hpart

end Clear

theorem unseen_le_length {α : Type} {cmp : α → α → Ordering} (list : List α)
    (seen : Std.TreeSet α cmp) : unseen list seen ≤ list.length :=
  List.countP_le_length

/-- Where there are no cycles, what passes from the parts of every value to the value itself is true
of it. The containers around a value are all different, and there are only so many in a heap. -/
theorem CycleFree.induction {heap : Heap}
    (hheap : ∀ container, ∀ part ∈ parts container, container ∈ heap.containers)
    {motive : Value → Prop}
    (hstep : ∀ value, (∀ container : Container, container.value = value →
      ∀ part ∈ parts container, motive part) → motive value)
    {value : Value} (hvalue : CycleFree parts value) : motive value := by
  suffices hall : ∀ bound (trail : Trail) (value : Value), unseen heap.containers trail < bound →
      Clear parts (· ∈ trail) value → motive value from
    hall _ ∅ value (Nat.lt_succ_self _) (.of_nothing hvalue (by simp))
  intro bound
  induction bound with
  | zero => exact fun _ _ hbound => absurd hbound (Nat.not_lt_zero _)
  | succ bound ih =>
    intro trail value hbound hclear
    refine hstep value ?_
    rintro container rfl part hpart
    have hfewer := unseen_insert_lt (hheap container part hpart) hclear.not_around
    exact ih (trail.insert container) part (Nat.lt_of_lt_of_le hfewer (Nat.le_of_lt_succ hbound))
      (hclear.enter hpart fun _ => Heap.eq_or_mem_of_mem_insert)

end MonkeyLang
