import Mathlib.Data.List.Forall2
import MonkeyLang.Proofs.Datum.Equality
import MonkeyLang.Proofs.Heap.Foundation
import MonkeyLang.Proofs.OrderedMap

namespace MonkeyLang

theorem Builtin.ofName?_name (callee : Builtin) : ofName? callee.name = some callee := by
  cases callee <;> rfl

theorem Builtin.name_injective {callee other : Builtin} (hname : callee.name = other.name) :
    callee = other := by
  have hfound := congrArg ofName? hname
  rw [ofName?_name, ofName?_name] at hfound
  exact Option.some.inj hfound

/-- What is left of a value when the places of its containers are forgotten. An array is the list
of what its elements are, and a hash is a finite map, so that the order of its entries is forgotten
too. Only functions keep their places. -/
inductive Unfolding where
  | int (value : Int64)
  | bool (value : Bool)
  | string (text : String)
  | null
  | array (items : List Unfolding)
  | hash (entries : HashKey → Option Unfolding)
  | function (id : Nat)
  | builtin (name : String)
  | error (fault : Fault)
deriving Inhabited

/-- The unfolding of a value without parts. -/
def Value.unfolding? : Value → Option Unfolding
  | int value => some (.int value)
  | bool value => some (.bool value)
  | string text => some (.string text)
  | null => some .null
  | array _ | hash _ => none
  | function id => some (.function id)
  | builtin callee => some (.builtin callee.name)
  | error fault => some (.error fault)

theorem Value.eq_of_unfolding? {left right : Value} {unfolding : Unfolding}
    (hleft : left.unfolding? = some unfolding) (hright : right.unfolding? = some unfolding) :
    left = right := by
  cases left with
  | array | hash => cases hleft
  | builtin callee =>
    cases hleft
    cases right with
    | builtin other =>
      have hname := Unfolding.builtin.inj (Option.some.inj hright)
      rw [Builtin.name_injective hname]
    | _ => cases hright
  | _ =>
    cases hleft
    cases right with
    | builtin => cases hright
    | _ => cases hright <;> rfl

namespace Heap

/-- What a value unfolds to. A value that contains itself has no unfolding. -/
inductive Unfolds (heap : Heap) : Value → Unfolding → Prop where
  | leaf {value : Value} {unfolding : Unfolding} (hvalue : value.unfolding? = some unfolding) :
      Unfolds heap value unfolding
  | array {id : Nat} {unfold : Value → Unfolding}
      (hitems : ∀ item ∈ heap.elements id, Unfolds heap item (unfold item)) :
      Unfolds heap (.array id) (.array ((heap.elements id).map unfold))
  | hash {id : Nat} {unfold : Value → Unfolding}
      (hvalues : ∀ entry ∈ (heap.contents id).entries,
        Unfolds heap entry.2.value (unfold entry.2.value)) :
      Unfolds heap (.hash id)
        (.hash fun key => ((heap.contents id).get? key).map fun entry => unfold entry.value)

variable {heap : Heap}

theorem Unfolds.unique {value : Value} {first second : Unfolding}
    (hfirst : heap.Unfolds value first) (hsecond : heap.Unfolds value second) : first = second := by
  induction hfirst generalizing second with
  | leaf hvalue =>
    cases hsecond with
    | leaf hother => exact Option.some.inj (hvalue.symm.trans hother)
    | array | hash => cases hvalue
  | array _ ih =>
    cases hsecond with
    | leaf hvalue => cases hvalue
    | array hitems => rw [List.map_congr_left fun item hitem => ih item hitem (hitems item hitem)]
  | hash _ ih =>
    cases hsecond with
    | leaf hvalue => cases hvalue
    | hash hvalues =>
      refine congrArg _ (funext fun key => Option.map_congr fun entry hentry => ?_)
      have hmem := IndexedMap.mem_entries_of_get?_eq_some hentry
      exact ih _ hmem (hvalues _ hmem)

/-- A value from which no cycle can be reached has an unfolding. -/
theorem exists_unfolds {value : Value} (hfree : CycleFree heap.parts value) :
    ∃ unfolding, heap.Unfolds value unfolding := by
  refine hfree.induction (motive := fun value => ∃ unfolding, heap.Unfolds value unfolding)
    (fun _ _ => mem_containers_of_parts) fun value ih => ?_
  cases value with
  | array id =>
    choose! unfold hunfold using ih (.array id) rfl
    exact ⟨_, .array hunfold⟩
  | hash id =>
    choose! unfold hunfold using ih (.hash id) rfl
    exact ⟨_, .hash fun entry hentry => hunfold _ (List.mem_map_of_mem hentry)⟩
  | _ => exact ⟨_, .leaf rfl⟩

end Heap

/-- A comparison comes to an end, and its answer is the right one. -/
def Decides (comparison : Option Bool) (claim : Prop) : Prop :=
  ∃ answer, comparison = some answer ∧ (answer = true ↔ claim)

theorem Decides.congr {comparison : Option Bool} {claim other : Prop}
    (hdecides : Decides comparison claim) (hclaim : claim ↔ other) : Decides comparison other := by
  obtain ⟨answer, hanswer, hiff⟩ := hdecides
  exact ⟨answer, hanswer, hiff.trans hclaim⟩

/-- Of several comparisons only those up to the first difference are made, and their answers are
enough. -/
private theorem decides_allM {α : Type} {p : α → Option Bool} {P : α → Prop} {list : List α}
    (hlist : ∀ x ∈ list, Decides (p x) (P x)) :
    Decides (list.allM p) (∀ x ∈ list, P x) := by
  induction list with
  | nil => exact ⟨true, rfl, by simp⟩
  | cons x rest ih =>
    obtain ⟨⟨answer, hx, hiff⟩, hrest⟩ := List.forall_mem_cons.mp hlist
    rw [List.allM, hx]
    cases answer with
    | false =>
      have hno : ¬ P x := fun hx => Bool.noConfusion (hiff.mpr hx)
      exact ⟨false, rfl, iff_of_false Bool.false_ne_true fun hall =>
        hno (hall x List.mem_cons_self)⟩
    | true =>
      refine (ih hrest).congr ?_
      rw [List.forall_mem_cons]
      exact (and_iff_right (hiff.mp rfl)).symm

private theorem allM_eq_some_of_attach {α : Type} {list : List α}
    {p : {x // x ∈ list} → Option Bool} {q : α → Option Bool} {answer : Bool}
    (hlist : list.attach.allM p = some answer)
    (hpq : ∀ x answer, p x = some answer → q x.1 = some answer) : list.allM q = some answer := by
  have hall : ∀ (part : List {x // x ∈ list}) answer, part.allM p = some answer →
      (part.map Subtype.val).allM q = some answer := by
    intro part
    induction part with
    | nil => exact fun _ hpart => hpart
    | cons x rest ih =>
      intro answer hpart
      rw [List.allM] at hpart
      obtain ⟨first, hx, hrest⟩ := Option.bind_eq_some_iff.mp hpart
      rw [List.map_cons, List.allM, hpq x first hx]
      cases first with
      | false => exact hrest
      | true => exact ih answer hrest
  have hlist := hall list.attach answer hlist
  rwa [List.attach_map_subtype_val] at hlist

private theorem map_eq_map_iff_zip {α β γ : Type} {f : α → γ} {g : β → γ} {left : List α}
    {right : List β} (hlength : left.length = right.length) :
    left.map f = right.map g ↔ ∀ pair ∈ left.zip right, f pair.1 = g pair.2 := by
  rw [← List.forall₂_eq_eq_eq, List.forall₂_map_left_iff, List.forall₂_map_right_iff,
    List.forall₂_iff_zip]
  simp [hlength]

namespace Heap

variable {heap : Heap}

private theorem length_elements (heap : Heap) (id : Nat) :
    (heap.elements id).length = (heap.sequence id).size :=
  Sequence.length_toList _

theorem Unfolds.exists_of_array {id : Nat} {unfolding : Unfolding}
    (harray : heap.Unfolds (.array id) unfolding) :
    ∃ unfold : Value → Unfolding, unfolding = .array ((heap.elements id).map unfold) ∧
      ∀ item ∈ heap.elements id, heap.Unfolds item (unfold item) := by
  cases harray with
  | leaf hvalue => cases hvalue
  | array hitems => exact ⟨_, rfl, hitems⟩

theorem Unfolds.exists_of_hash {id : Nat} {unfolding : Unfolding}
    (hhash : heap.Unfolds (.hash id) unfolding) :
    ∃ unfold : Value → Unfolding, unfolding = .hash (fun key =>
        ((heap.contents id).get? key).map fun entry => unfold entry.value) ∧
      ∀ entry ∈ (heap.contents id).entries,
        heap.Unfolds entry.2.value (unfold entry.2.value) := by
  cases hhash with
  | leaf hvalue => cases hvalue
  | hash hvalues => exact ⟨_, rfl, hvalues⟩

/-- Only containers of one kind can be different and still unfold to the same. -/
theorem Unfolds.eq_or_both {left right : Value} {first second : Unfolding}
    (hleft : heap.Unfolds left first) (hright : heap.Unfolds right second)
    (hsame : first = second) :
    left = right ∨ (∃ a b, left = .array a ∧ right = .array b) ∨
      ∃ a b, left = .hash a ∧ right = .hash b := by
  cases hleft with
  | leaf hvalue =>
    rw [hsame] at hvalue
    cases hright with
    | leaf hother => exact .inl (Value.eq_of_unfolding? hvalue hother)
    | array | hash => cases left <;> cases hvalue
  | array =>
    cases hright with
    | leaf hother =>
      rw [← hsame] at hother
      cases right <;> cases hother
    | array => exact .inr (.inl ⟨_, _, rfl, rfl⟩)
    | hash => cases hsame
  | hash =>
    cases hright with
    | leaf hother =>
      rw [← hsame] at hother
      cases right <;> cases hother
    | array => cases hsame
    | hash => exact .inr (.inr ⟨_, _, rfl, rfl⟩)

/-- Comparing two values decides whether they unfold to the same. Of the pairs of containers around
them, none is met again, since each of them holds the value on the left. -/
theorem Unfolds.decides_equalWithin? {trail : PairTrail} {left right : Value}
    {first second : Unfolding} (hclear : Clear heap.parts (Leads trail) left)
    (hleft : heap.Unfolds left first) (hright : heap.Unfolds right second) :
    Decides (heap.equalWithin? trail left right) (first = second) := by
  fun_induction Heap.equalWithin? heap trail left right generalizing first second with
  | case1 => exact ⟨true, rfl, iff_of_true rfl (hleft.unique hright)⟩
  | case2 trail a b _ hmem =>
    have hleads : Leads trail (.array a) := ⟨_, hmem⟩
    exact absurd hleads hclear.not_around
  | case3 trail a b _ _ hsize ih =>
    obtain ⟨unfold, rfl, hitems⟩ := hleft.exists_of_array
    obtain ⟨unfold', rfl, hothers⟩ := hright.exists_of_array
    have hlength : (heap.elements a).length = (heap.elements b).length := by
      rw [length_elements, length_elements, hsize]
    rw [Unfolding.array.injEq, map_eq_map_iff_zip hlength]
    refine (decides_allM (P := fun items => unfold items.1.1 = unfold' items.1.2)
      fun items _ => ?_).congr (by simp)
    obtain ⟨hitem, hother⟩ := List.of_mem_zip items.2
    exact ih items (hclear.enter hitem fun _ => eq_or_leads_of_leads_insert)
      (hitems _ hitem) (hothers _ hother)
  | case4 trail a b _ _ hsize =>
    obtain ⟨unfold, rfl, -⟩ := hleft.exists_of_array
    obtain ⟨unfold', rfl, -⟩ := hright.exists_of_array
    refine ⟨false, rfl, iff_of_false nofun fun harrays => hsize ?_⟩
    have hlength := congrArg List.length (Unfolding.array.inj harrays)
    rwa [List.length_map, List.length_map, length_elements, length_elements] at hlength
  | case5 => exact ⟨true, rfl, iff_of_true rfl (hleft.unique hright)⟩
  | case6 trail a b _ hmem =>
    have hleads : Leads trail (.hash a) := ⟨_, hmem⟩
    exact absurd hleads hclear.not_around
  | case7 trail a b _ _ hsize ih =>
    obtain ⟨unfold, rfl, hvalues⟩ := hleft.exists_of_hash
    obtain ⟨unfold', rfl, hothers⟩ := hright.exists_of_hash
    rw [Unfolding.hash.injEq, IndexedMap.map_get?_eq_iff hsize]
    -- Only the keys on the left are looked up. No other key is left over, as the sizes are equal.
    refine (decides_allM (P := fun entry => ((heap.contents b).get? entry.1.1).map
      (fun entry => unfold' entry.value) = some (unfold entry.1.2.value))
      fun entry _ => ?_).congr (by simp)
    split
    · rename_i hnone
      exact ⟨false, rfl, by simp [hnone]⟩
    · rename_i other hother
      have hvalue : entry.1.2.value ∈ heap.parts (.hash a) := List.mem_map_of_mem entry.2
      refine (ih entry other hother (hclear.enter hvalue fun _ => eq_or_leads_of_leads_insert)
        (hvalues _ entry.2)
        (hothers _ (IndexedMap.mem_entries_of_get?_eq_some hother))).congr ?_
      rw [hother, Option.map_some, Option.some.injEq, eq_comm]
  | case8 trail a b _ _ hsize =>
    obtain ⟨unfold, rfl, -⟩ := hleft.exists_of_hash
    obtain ⟨unfold', rfl, -⟩ := hright.exists_of_hash
    refine ⟨false, rfl, iff_of_false nofun fun hhashes => hsize ?_⟩
    exact IndexedMap.size_eq_of_map_get?_eq (Unfolding.hash.inj hhashes)
  | case9 trail left right harrays hhashes =>
    refine ⟨_, rfl, decide_eq_true_iff.trans ⟨?_, fun hsame => ?_⟩⟩
    · rintro rfl
      exact hleft.unique hright
    · rcases hleft.eq_or_both hright hsame with heq | ⟨a, b, hleft, hright⟩ | ⟨a, b, hleft, hright⟩
      · exact heq
      · exact (harrays a b hleft hright).elim
      · exact (hhashes a b hleft hright).elim

/-- Compares two values by plain recursion, down to a certain depth. If they nest deeper, there is
no answer. -/
def equalNested (heap : Heap) : Nat → Value → Value → Option Bool
  | 0, _, _ => none
  | depth + 1, .array a, .array b =>
    if a = b then some true
    else if (heap.sequence a).size = (heap.sequence b).size then
      ((heap.elements a).zip (heap.elements b)).allM fun items =>
        heap.equalNested depth items.1 items.2
    else some false
  | depth + 1, .hash a, .hash b =>
    if a = b then some true
    else if (heap.contents a).size = (heap.contents b).size then
      (heap.contents a).entries.allM fun entry =>
        match (heap.contents b).get? entry.1 with
        | none => some false
        | some other => heap.equalNested depth entry.2.value other.value
    else some false
  | _ + 1, left, right => some (left = right)

/-- An answer that is found without meeting a pair of containers again is found by plain recursion,
as there are only so many pairs. -/
theorem equalNested_eq_some {trail : PairTrail} {left right : Value} {answer : Bool} {depth : Nat}
    (hequal : heap.equalWithin? trail left right = some answer)
    (hdepth : unseen heap.containerPairs trail < depth) :
    heap.equalNested depth left right = some answer := by
  induction depth generalizing trail left right answer with
  | zero => exact absurd hdepth (Nat.not_lt_zero _)
  | succ depth ih =>
    have hfewer {pair : Container × Container} (hfresh : pair ∉ trail)
        (hleft : pair.1 ∈ heap.containers) (hright : pair.2 ∈ heap.containers) :
        unseen heap.containerPairs (trail.insert pair) < depth :=
      Nat.lt_of_lt_of_le (unseen_insert_lt (mem_containerPairs hleft hright) hfresh)
        (Nat.le_of_lt_succ hdepth)
    revert hequal
    fun_cases Heap.equalWithin? heap trail left right with
    | case1 => simp [equalNested]
    | case2 | case6 => exact nofun
    | case3 a b hne hfresh hsize =>
      intro hequal
      rw [equalNested, if_neg hne, if_pos hsize]
      refine allM_eq_some_of_attach hequal fun items answer hanswer => ih hanswer ?_
      obtain ⟨hitem, hother⟩ := List.of_mem_zip items.2
      exact hfewer hfresh (array_mem_containers hitem) (array_mem_containers hother)
    | case4 a b hne hfresh hsize => simp [equalNested, hne, hsize]
    | case5 => simp [equalNested]
    | case7 a b hne hfresh hsize =>
      intro hequal
      rw [equalNested, if_neg hne, if_pos hsize]
      refine allM_eq_some_of_attach hequal fun entry answer hanswer => ?_
      split at hanswer
      · rename_i hnone
        rw [hnone]
        exact hanswer
      · rename_i other hother
        rw [hother]
        have hmem := IndexedMap.mem_entries_of_get?_eq_some hother
        exact ih hanswer
          (hfewer hfresh (hash_mem_containers entry.2) (hash_mem_containers hmem))
    | case8 a b hne hfresh hsize => simp [equalNested, hne, hsize]
    | case9 left right harrays hhashes =>
      rw [equalNested]
      · exact id
      · exact harrays
      · exact hhashes

end Heap

variable {heap : Heap}

namespace CycleFree

variable {left right : Value} (hleft : CycleFree heap.parts left)

include hleft

theorem decides_equal? {first second : Unfolding} (hfirst : heap.Unfolds left first)
    (hsecond : heap.Unfolds right second) : Decides (heap.equal? left right) (first = second) := by
  refine hfirst.decides_equalWithin? (.of_nothing hleft ?_) hsecond
  rintro outer ⟨second, hmem⟩
  simp at hmem

/-- Values are equal exactly if there is one unfolding for both. -/
theorem equal?_eq_true_iff (hright : CycleFree heap.parts right) :
    heap.equal? left right = some true ↔
      ∃ unfolding, heap.Unfolds left unfolding ∧ heap.Unfolds right unfolding := by
  obtain ⟨first, hfirst⟩ := Heap.exists_unfolds hleft
  obtain ⟨second, hsecond⟩ := Heap.exists_unfolds hright
  obtain ⟨answer, hanswer, hiff⟩ := hleft.decides_equal? hfirst hsecond
  rw [hanswer, Option.some.injEq, hiff]
  constructor
  · rintro rfl
    exact ⟨first, hfirst, hsecond⟩
  · rintro ⟨unfolding, hleft, hright⟩
    rw [hfirst.unique hleft, hsecond.unique hright]

theorem exists_equal? (hright : CycleFree heap.parts right) :
    ∃ answer, heap.equal? left right = some answer := by
  obtain ⟨first, hfirst⟩ := Heap.exists_unfolds hleft
  obtain ⟨second, hsecond⟩ := Heap.exists_unfolds hright
  obtain ⟨answer, hanswer, -⟩ := hleft.decides_equal? hfirst hsecond
  exact ⟨answer, hanswer⟩

theorem equal?_self : heap.equal? left left = some true := by
  obtain ⟨unfolding, hunfolds⟩ := Heap.exists_unfolds hleft
  exact (hleft.equal?_eq_true_iff hleft).mpr ⟨unfolding, hunfolds, hunfolds⟩

theorem equal?_comm (hright : CycleFree heap.parts right) :
    heap.equal? left right = heap.equal? right left := by
  obtain ⟨answer, hanswer⟩ := hleft.exists_equal? hright
  obtain ⟨other, hother⟩ := hright.exists_equal? hleft
  have hiff : heap.equal? left right = some true ↔ heap.equal? right left = some true := by
    rw [hleft.equal?_eq_true_iff hright, hright.equal?_eq_true_iff hleft]
    simp only [and_comm]
  rw [hanswer, hother, Option.some.injEq, Option.some.injEq, ← Bool.eq_iff_iff] at hiff
  rw [hanswer, hother, hiff]

theorem equal?_trans {middle : Value} (hmiddle : CycleFree heap.parts middle)
    (hright : CycleFree heap.parts right) (hfirst : heap.equal? left middle = some true)
    (hsecond : heap.equal? middle right = some true) : heap.equal? left right = some true := by
  obtain ⟨first, hunfolds, hmeets⟩ := (hleft.equal?_eq_true_iff hmiddle).mp hfirst
  obtain ⟨second, hmeets', hunfolds'⟩ := (hmiddle.equal?_eq_true_iff hright).mp hsecond
  rw [← hmeets.unique hmeets'] at hunfolds'
  exact (hleft.equal?_eq_true_iff hright).mpr ⟨first, hunfolds, hunfolds'⟩

end CycleFree

/-- The order of the entries does not matter. -/
theorem CycleFree.equal?_of_perm {a b : Nat} (hfree : CycleFree heap.parts (.hash a))
    (hentries : (heap.contents a).entries.Perm (heap.contents b).entries) :
    heap.equal? (.hash a) (.hash b) = some true := by
  obtain ⟨_, hleft⟩ := Heap.exists_unfolds hfree
  obtain ⟨unfold, rfl, hvalues⟩ := hleft.exists_of_hash
  have hright := Heap.Unfolds.hash fun entry hentry => hvalues entry (hentries.mem_iff.mpr hentry)
  obtain ⟨answer, hanswer, hiff⟩ := hfree.decides_equal? hleft hright
  rw [hanswer, hiff.mpr (by rw [IndexedMap.get?_eq_of_perm hentries])]

/-- Equality of contents is an equality of values. Where no cycle can be reached, plain recursion
comes to an end and decides whether two values unfold to the same, so it is reflexive, symmetric and
transitive. The order of entries does not matter, and one and the same value is equal to itself. -/
theorem equality_is_of_unfoldings (heap : Heap) :
    (∀ value, CycleFree heap.parts value → ∃! unfolding, heap.Unfolds value unfolding) ∧
    (∀ left right, CycleFree heap.parts left → CycleFree heap.parts right →
      ∃ answer, heap.equal? left right = some answer ∧
        (∀ depth, heap.containerPairs.length < depth →
          heap.equalNested depth left right = some answer) ∧
        ∀ first second, heap.Unfolds left first → heap.Unfolds right second →
          (answer = true ↔ first = second)) ∧
    (∀ value, CycleFree heap.parts value → heap.equal? value value = some true) ∧
    (∀ left right, CycleFree heap.parts left → CycleFree heap.parts right →
      heap.equal? left right = heap.equal? right left) ∧
    (∀ left middle right, CycleFree heap.parts left → CycleFree heap.parts middle →
      CycleFree heap.parts right → heap.equal? left middle = some true →
      heap.equal? middle right = some true → heap.equal? left right = some true) ∧
    (∀ a b, CycleFree heap.parts (.hash a) →
      (heap.contents a).entries.Perm (heap.contents b).entries →
      heap.equal? (.hash a) (.hash b) = some true) ∧
    ∀ left right, CycleFree heap.parts left → left.same right = true →
      heap.equal? left right = some true := by
  refine ⟨fun value hfree => ?_, fun left right hleft hright => ?_,
    fun _ hfree => hfree.equal?_self, fun _ _ hleft hright => hleft.equal?_comm hright,
    fun _ _ _ hleft hmiddle hright => hleft.equal?_trans hmiddle hright,
    fun _ _ hfree => hfree.equal?_of_perm, fun left right hleft hsame => ?_⟩
  · obtain ⟨unfolding, hunfolds⟩ := Heap.exists_unfolds hfree
    exact ⟨unfolding, hunfolds, fun _ hother => hother.unique hunfolds⟩
  · obtain ⟨answer, hanswer⟩ := hleft.exists_equal? hright
    refine ⟨answer, hanswer, fun depth hdepth => ?_, fun first second hfirst hsecond => ?_⟩
    · exact Heap.equalNested_eq_some hanswer (Nat.lt_of_le_of_lt (unseen_le_length _ _) hdepth)
    · obtain ⟨other, hother, hiff⟩ := hleft.decides_equal? hfirst hsecond
      rw [hanswer] at hother
      rwa [Option.some.inj hother]
  · obtain rfl : left = right := of_decide_eq_true hsame
    exact hleft.equal?_self

/-- Two hashes with one array in common have their entries in different orders, and a third has an
equal array in its place. An array with the first two is equal to one with the third twice. -/
theorem equality_is_of_unfoldings_reordered :
    let filed (first second : Value × Value) : Hash :=
      (Hash.ofPairs [first, second]).toOption.getD .empty
    let heap : Heap := {
      arrays := #[.ofList [.int 1], .ofList [.int 1], .ofList [.hash 0, .hash 1],
        .ofList [.hash 2, .hash 2]]
      hashes := #[filed (.int 1, .array 0) (.bool true, .null),
        filed (.bool true, .null) (.int 1, .array 0), filed (.bool true, .null) (.int 1, .array 1)] }
    (∀ value, CycleFree heap.parts value) ∧
      (heap.contents 0).entries.Perm (heap.contents 1).entries ∧
      heap.equal? (.hash 0) (.hash 1) = some true ∧
      heap.equal? (.array 2) (.array 3) = some true ∧
      ∃ unfolding, heap.Unfolds (.array 2) unfolding ∧ heap.Unfolds (.array 3) unfolding := by
  intro filed heap
  have hfree : ∀ value, CycleFree heap.parts value := by
    refine .of_rank_on (fun _ _ => Heap.mem_containers_of_parts)
      (fun container => if container.rank = 1 then 3 else 2 * container.id) ?_
    decide +kernel
  have hperm : (heap.contents 0).entries.Perm (heap.contents 1).entries := by decide +kernel
  have hequal : heap.equal? (.array 2) (.array 3) = some true := by decide +kernel
  obtain ⟨hunfolds, hdecides, -, -, -, hreorder, -⟩ := equality_is_of_unfoldings heap
  obtain ⟨first, hfirst, -⟩ := hunfolds (.array 2) (hfree _)
  obtain ⟨second, hsecond, -⟩ := hunfolds (.array 3) (hfree _)
  obtain ⟨answer, hanswer, -, hiff⟩ := hdecides _ _ (hfree (.array 2)) (hfree (.array 3))
  have hsame : first = second :=
    (hiff first second hfirst hsecond).mp (Option.some.inj (hanswer.symm.trans hequal))
  exact ⟨hfree, hperm, hreorder 0 1 (hfree _) hperm, hequal, first, hfirst, hsame ▸ hsecond⟩

end MonkeyLang
