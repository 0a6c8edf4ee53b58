import MonkeyLang.Proofs.Datum
import MonkeyLang.Value.Equality

namespace MonkeyLang

private theorem allM_eq_some_true {α : Type} {p : α → Option Bool} {list : List α}
    (hlist : ∀ x ∈ list, p x = some true) : list.allM p = some true := by
  induction list with
  | nil => rfl
  | cons x rest ih =>
    obtain ⟨hx, hrest⟩ := List.forall_mem_cons.mp hlist
    rw [List.allM, hx]
    exact ih hrest

namespace Heap

variable {heap : Heap}

/-- A container stands first in one of the pairs of a trail. This is enough to tell that no pair is
met again. -/
def Leads (trail : PairTrail) (first : Container) : Prop := ∃ second, (first, second) ∈ trail

theorem eq_or_leads_of_leads_insert {trail : PairTrail} {left right other : Container}
    (hother : Leads (trail.insert (left, right)) other) : other = left ∨ Leads trail other := by
  obtain ⟨second, hmem⟩ := hother
  rcases Std.TreeSet.mem_insert.mp hmem with heq | hold
  · exact .inl (Prod.mk.inj (Std.LawfulEqCmp.eq_of_compare heq)).1.symm
  · exact .inr ⟨second, hold⟩

theorem Enclosed.insertPair {trail : PairTrail} {datum : Datum} {left : Container}
    (htrail : heap.Enclosed (Leads trail) (sizeOf datum))
    (hdatum : heap.Represents datum left.value) (right : Container) {size : Nat}
    (hsize : size < sizeOf datum) :
    heap.Enclosed (Leads (trail.insert (left, right))) size := by
  intro first hfirst
  exact htrail.enter hdatum hsize first (eq_or_leads_of_leads_insert hfirst)

theorem RepresentsItems.length_eq {items : List Datum} {values : List Value} :
    heap.RepresentsItems items values → values.length = items.length
  | .nil => rfl
  | .cons _ hitems => congrArg Nat.succ hitems.length_eq

theorem RepresentsPairs.length_eq {pairs : List (Atom × Datum)}
    {entries : List (HashKey × Entry)} :
    heap.RepresentsPairs pairs entries → entries.length = pairs.length
  | .nil => rfl
  | .cons _ _ _ hpairs => congrArg Nat.succ hpairs.length_eq

mutual

/-- Values that stand for one datum have the same contents, wherever their containers are. -/
theorem Represents.equalWithin? : {datum : Datum} → {left right : Value} → {trail : PairTrail} →
    heap.Represents datum left → heap.Represents datum right →
    heap.Enclosed (Leads trail) (sizeOf datum) →
    heap.equalWithin? trail left right = some true
  | _, _, _, _, .null, hright, _ => by
    cases hright with
    | null => simp [Heap.equalWithin?]
  | .atom atom, _, _, _, .atom hleft, hright, _ => by
    cases hright with
    | atom hright =>
      subst hleft hright
      cases atom <;> simp [Heap.equalWithin?, Atom.value]
  | .array items, .array a, _, trail, .array hid hitems, hright, htrail => by
    cases hright with
    | @array _ b _ hother hothers =>
      have harray : heap.Represents (.array items) (Container.array a).value := .array hid hitems
      have hfresh : (.array a, .array b) ∉ trail := fun hmem =>
        htrail.not_around harray ⟨_, hmem⟩
      have hequal := hitems.equalWithin? hothers (htrail.insertPair harray (.array b) (by simp))
      have hsize : (heap.sequence a).size = (heap.sequence b).size := by
        rw [sequence_of_getElem? hid, sequence_of_getElem? hother, ← Sequence.length_toList,
          ← Sequence.length_toList, hitems.length_eq, hothers.length_eq]
      rw [Heap.equalWithin?, if_neg hfresh, if_pos hsize]
      split
      · rfl
      · rw [← sequence_of_getElem? hid, ← sequence_of_getElem? hother] at hequal
        exact allM_eq_some_true fun pair _ => hequal pair.1 pair.2
  | .hash pairs, .hash a, _, trail, .hash hid hpairs, hright, htrail => by
    cases hright with
    | @hash _ b _ hother hothers =>
      have hhash : heap.Represents (.hash pairs) (Container.hash a).value := .hash hid hpairs
      have hfresh : (.hash a, .hash b) ∉ trail := fun hmem =>
        htrail.not_around hhash ⟨_, hmem⟩
      have hequal := hpairs.equalWithin? hothers (htrail.insertPair hhash (.hash b) (by simp))
      have hsize : (heap.contents a).size = (heap.contents b).size := by
        rw [contents_of_getElem? hid, contents_of_getElem? hother]
        exact hpairs.length_eq.trans hothers.length_eq.symm
      rw [Heap.equalWithin?, if_neg hfresh, if_pos hsize]
      split
      · rfl
      · rw [← contents_of_getElem? hid, ← contents_of_getElem? hother] at hequal
        refine allM_eq_some_true fun entry _ => ?_
        -- The key is looked up in the other hash, where it stands in the same place and no other.
        obtain ⟨other, hmem, hvalues⟩ := hequal entry.1 entry.2
        have hfound := IndexedMap.get?_of_mem_entries hmem
        split
        · rename_i hnone
          rw [hfound] at hnone
          cases hnone
        · rename_i hsome
          rw [hfound] at hsome
          cases hsome
          exact hvalues

theorem RepresentsItems.equalWithin? : {items : List Datum} → {lefts rights : List Value} →
    {trail : PairTrail} → heap.RepresentsItems items lefts → heap.RepresentsItems items rights →
    heap.Enclosed (Leads trail) (sizeOf items) →
    ∀ pair ∈ lefts.zip rights, heap.equalWithin? trail pair.1 pair.2 = some true
  | _, _, _, _, .nil, _, _ => by simp
  | _, _, _, _, .cons hitem hitems, hrights, htrail => by
    cases hrights with
    | cons hother hothers =>
      have hfirst := hitem.equalWithin? hother (htrail.of_le (by simp; omega))
      have hrest := hitems.equalWithin? hothers (htrail.of_le (by simp))
      exact List.forall_mem_cons.mpr ⟨hfirst, hrest⟩

theorem RepresentsPairs.equalWithin? : {pairs : List (Atom × Datum)} →
    {lefts rights : List (HashKey × Entry)} → {trail : PairTrail} →
    heap.RepresentsPairs pairs lefts → heap.RepresentsPairs pairs rights →
    heap.Enclosed (Leads trail) (sizeOf pairs) →
    ∀ left ∈ lefts, ∃ other, (left.1, other) ∈ rights ∧
      heap.equalWithin? trail left.2.value other.value = some true
  | _, _, _, _, .nil, _, _ => by simp
  | _, _, _, _, .cons hleft _ hdatum hpairs, hrights, htrail => by
    cases hrights with
    | cons hright _ hother hothers =>
      subst hleft hright
      have hfirst := hdatum.equalWithin? hother (htrail.of_le (by simp; omega))
      have hrest := hpairs.equalWithin? hothers (htrail.of_le (by simp))
      refine List.forall_mem_cons.mpr ⟨⟨_, List.mem_cons_self, hfirst⟩, fun left hleft => ?_⟩
      obtain ⟨found, hfound, hequal⟩ := hrest left hleft
      exact ⟨found, List.mem_cons_of_mem _ hfound, hequal⟩

end

theorem Represents.equal? {datum : Datum} {left right : Value} (hleft : heap.Represents datum left)
    (hright : heap.Represents datum right) : heap.equal? left right = some true :=
  hleft.equalWithin? hright fun container ⟨_, hmem⟩ => by simp at hmem

end Heap

end MonkeyLang
