import Mathlib.Data.List.Induction
import Mathlib.Data.List.Nodup
import Mathlib.Data.List.Perm.Subperm
import MonkeyLang.IndexedMap

namespace MonkeyLang.OrderedMap

variable {K V : Type} [DecidableEq K]

private theorem map_fst_upsert (key : K) (value : V) (entries : List (K × V)) :
    (upsert key value entries).map Prod.fst =
      if key ∈ entries.map Prod.fst then entries.map Prod.fst
      else entries.map Prod.fst ++ [key] := by
  induction entries with
  | nil => rfl
  | cons entry rest ih =>
    rw [upsert]
    split
    · rename_i hkey
      subst hkey
      simp
    · rename_i hkey
      simp only [List.map_cons, ih, List.mem_cons, Ne.symm hkey, false_or]
      split <;> simp

/-- A key keeps its place once it has one, and a new key goes last. -/
theorem keys_insert (m : OrderedMap K V) (key : K) (value : V) :
    (m.insert key value).keys = if key ∈ m.keys then m.keys else m.keys ++ [key] :=
  map_fst_upsert key value m.entries

theorem get?_insert_of_ne (m : OrderedMap K V) {key other : K} (hne : other ≠ key) (value : V) :
    (m.insert key value).get? other = m.get? other := by
  obtain ⟨entries⟩ := m
  simp only [get?, insert]
  induction entries with
  | nil => simp [upsert, List.lookup_cons, beq_false_of_ne hne]
  | cons entry rest ih =>
    obtain ⟨k, v⟩ := entry
    rw [upsert]
    split
    · rename_i hkey
      subst hkey
      rw [List.lookup_cons, List.lookup_cons, beq_false_of_ne hne]
    · rw [List.lookup_cons, List.lookup_cons, ih]

theorem get?_insert_self (m : OrderedMap K V) (key : K) (value : V) :
    (m.insert key value).get? key = some value := by
  obtain ⟨entries⟩ := m
  simp only [get?, insert]
  induction entries with
  | nil => simp [upsert]
  | cons entry rest ih =>
    obtain ⟨k, v⟩ := entry
    rw [upsert]
    split
    · rw [List.lookup_cons_self]
    · rename_i hkey
      rw [List.lookup_cons, beq_false_of_ne (Ne.symm hkey)]
      exact ih

/-- One pass finds the old value and stores the new one. -/
private theorem exchange_eq (key : K) (value : V) (entries : List (K × V)) :
    exchange key value entries = (entries.lookup key, upsert key value entries) := by
  induction entries with
  | nil => rfl
  | cons entry rest ih =>
    rw [exchange, upsert, List.lookup_cons]
    split
    · rename_i hkey
      rw [hkey, beq_self_eq_true]
    · rename_i hkey
      rw [beq_false_of_ne (Ne.symm hkey), ih]

/-- What is replaced is what was found just before, and otherwise this is an insertion. -/
theorem replace_eq (m : OrderedMap K V) (key : K) (value : V) :
    m.replace key value = (m.get? key, m.insert key value) := by
  rw [replace, exchange_eq]
  rfl

theorem not_mem_keys_of_get?_eq_none {m : OrderedMap K V} {key : K} (hget : m.get? key = none) :
    key ∉ m.keys := by
  intro hkey
  obtain ⟨entry, hentry, rfl⟩ := List.mem_map.mp hkey
  simpa using List.lookup_eq_none_iff.mp hget entry hentry

theorem mem_upsert {key : K} {value : V} {entries : List (K × V)} {entry : K × V}
    (hentry : entry ∈ upsert key value entries) : entry = (key, value) ∨ entry ∈ entries := by
  induction entries with
  | nil => exact .inl (List.mem_singleton.mp hentry)
  | cons first rest ih =>
    rw [upsert] at hentry
    split at hentry
    · rcases List.mem_cons.mp hentry with hnew | hrest
      · exact .inl hnew
      · exact .inr (List.mem_cons_of_mem _ hrest)
    · rcases List.mem_cons.mp hentry with hfirst | hrest
      · exact .inr (List.mem_cons.mpr (.inl hfirst))
      · exact (ih hrest).imp_right (List.mem_cons_of_mem _)

/-- The map that comes of inserting some entries one after another. -/
def ofInserts (entries : List (K × V)) : OrderedMap K V :=
  entries.foldl (fun m entry => m.insert entry.1 entry.2) .empty

theorem ofInserts_concat (entries : List (K × V)) (entry : K × V) :
    ofInserts (entries ++ [entry]) = (ofInserts entries).insert entry.1 entry.2 :=
  List.foldl_concat ..

/-- The keys stand in the order of their first insertions. -/
theorem keys_ofInserts (entries : List (K × V)) :
    (ofInserts entries).keys = (entries.map Prod.fst).eraseDups := by
  induction entries using List.reverseRecOn with
  | nil => rfl
  | append_singleton entries entry ih =>
    rw [ofInserts_concat, keys_insert, ih, List.map_append, List.eraseDups_append]
    split
    · rename_i hkey
      rw [List.mem_eraseDups] at hkey
      simp [List.removeAll, hkey]
    · rename_i hkey
      rw [List.mem_eraseDups] at hkey
      simp [List.removeAll, hkey, List.eraseDups_cons]

theorem nodup_keys_ofInserts (entries : List (K × V)) : (ofInserts entries).keys.Nodup := by
  induction entries using List.reverseRecOn with
  | nil => exact List.nodup_nil
  | append_singleton entries entry ih =>
    rw [ofInserts_concat, keys_insert]
    split
    · exact ih
    · rename_i hkey
      exact ih.append (List.nodup_singleton _) (by simpa using hkey)

/-- The value under a key is the one that was inserted last. -/
theorem get?_ofInserts (entries : List (K × V)) (key : K) : (ofInserts entries).get? key =
    ((entries.filter fun entry => entry.1 = key).getLast?).map Prod.snd := by
  induction entries using List.reverseRecOn with
  | nil => rfl
  | append_singleton entries entry ih =>
    rw [ofInserts_concat, List.filter_append]
    by_cases hkey : entry.1 = key
    · subst hkey
      simp [get?_insert_self]
    · rw [get?_insert_of_ne _ (Ne.symm hkey), ih]
      simp [hkey]

end MonkeyLang.OrderedMap

namespace MonkeyLang.IndexedMap

variable {K V : Type} {cmp : K → K → Ordering}

/-- What is replaced is what was found just before, and otherwise this is an insertion. -/
theorem replace_eq [Std.TransCmp cmp] [Std.LawfulEqCmp cmp] (m : IndexedMap K V cmp) (key : K)
    (value : V) : m.replace key value = (m.get? key, m.insert key value) := by
  rw [replace, get?, insert]
  split
  · rename_i i hkey
    simp [hkey]
  · rename_i hkey
    simp [hkey]

theorem index_key (m : IndexedMap K V cmp) {i : Nat} (hi : i < m.entries.length) :
    m.index[m.entries[i].1]? = some i := by
  refine (m.indexed _ i).mpr ⟨m.entries[i].2, ?_⟩
  rw [← Array.getElem?_toList]
  exact List.getElem?_eq_getElem hi

/-- No key has two entries, since it has one position. -/
theorem nodup_keys (m : IndexedMap K V cmp) : (m.entries.map Prod.fst).Nodup := by
  rw [List.Nodup, List.pairwise_map, List.pairwise_iff_getElem]
  intro i j hi hj hlt hkeys
  have hfirst := m.index_key hi
  rw [hkeys, m.index_key hj] at hfirst
  exact absurd (Option.some.inj hfirst) (Nat.ne_of_gt hlt)

/-- Every entry is found under its key. -/
theorem get?_of_mem_entries {m : IndexedMap K V cmp} {key : K} {value : V}
    (hentry : (key, value) ∈ m.entries) : m.get? key = some value := by
  obtain ⟨i, hi⟩ := List.mem_iff_getElem?.mp hentry
  rw [entries, Array.getElem?_toList] at hi
  rw [get?, (m.indexed key i).mpr ⟨value, hi⟩, Option.bind_some, hi, Option.map_some]

theorem length_keys (m : IndexedMap K V cmp) : (m.entries.map Prod.fst).length = m.size := by
  simp [entries, size]

section

variable [DecidableEq K] [Std.TransCmp cmp] [Std.LawfulEqCmp cmp]

theorem get?_insert (m : IndexedMap K V cmp) (key other : K) (value : V) :
    (m.insert key value).get? other = if other = key then some value else m.get? other := by
  rw [← get?_toOrderedMap, toOrderedMap_insert, ← get?_toOrderedMap]
  split
  · rename_i hkey
    rw [hkey, OrderedMap.get?_insert_self]
  · rename_i hkey
    exact OrderedMap.get?_insert_of_ne _ hkey value

theorem keys_insert (m : IndexedMap K V cmp) (key : K) (value : V) :
    (m.insert key value).entries.map Prod.fst =
      if key ∈ m.entries.map Prod.fst then m.entries.map Prod.fst
      else m.entries.map Prod.fst ++ [key] :=
  (congrArg OrderedMap.keys (m.toOrderedMap_insert key value)).trans
    (m.toOrderedMap.keys_insert key value)

/-- A map grows by the keys that are new to it. -/
theorem size_insert (m : IndexedMap K V cmp) (key : K) (value : V) :
    (m.insert key value).size =
      if key ∈ m.entries.map Prod.fst then m.size else m.size + 1 := by
  rw [← length_keys, ← length_keys, keys_insert]
  split <;> simp

theorem entries_insert_of_absent {m : IndexedMap K V cmp} {key : K}
    (habsent : key ∉ m.entries.map Prod.fst) (value : V) :
    (m.insert key value).entries = m.entries ++ [(key, value)] := by
  have hentries := congrArg OrderedMap.entries (m.toOrderedMap_insert key value)
  refine hentries.trans (OrderedMap.upsert_eq_append_of_absent ?_ value)
  rintro entry hentry rfl
  exact habsent (List.mem_map_of_mem hentry)

end

section

variable {m n : IndexedMap K V cmp}

/-- No key is left over in a map that has all the keys of another one and is no larger. This is why
looking them up in one direction is enough. -/
theorem keys_subset_of_size_eq (hsize : m.size = n.size)
    (hkeys : m.entries.map Prod.fst ⊆ n.entries.map Prod.fst) :
    n.entries.map Prod.fst ⊆ m.entries.map Prod.fst := by
  have hlength : (n.entries.map Prod.fst).length = (m.entries.map Prod.fst).length := by
    rw [length_keys, length_keys, hsize]
  have hperm :=
    (List.subperm_of_subset m.nodup_keys hkeys).perm_of_length_le (Nat.le_of_eq hlength)
  exact hperm.symm.subset

variable {α : Type} {f g : V → α}

private theorem map_get?_of_mem_entries
    (hmaps : (fun key => (m.get? key).map f) = fun key => (n.get? key).map g) :
    ∀ entry ∈ m.entries, (n.get? entry.1).map g = some (f entry.2) := by
  intro entry hentry
  rw [← congrFun hmaps entry.1, get?_of_mem_entries hentry, Option.map_some]

variable [DecidableEq K]

theorem get?_eq_some_iff {key : K} {value : V} :
    m.get? key = some value ↔ (key, value) ∈ m.entries :=
  ⟨mem_entries_of_get?_eq_some, get?_of_mem_entries⟩

theorem get?_eq_of_perm (hentries : m.entries.Perm n.entries) : m.get? = n.get? := by
  funext key
  refine Option.ext fun value => ?_
  rw [get?_eq_some_iff, get?_eq_some_iff, hentries.mem_iff]

theorem mem_keys_iff {key : K} :
    key ∈ m.entries.map Prod.fst ↔ ∃ value, m.get? key = some value := by
  simp only [List.mem_map, Prod.exists, exists_and_right, exists_eq_right, get?_eq_some_iff]

private theorem keys_subset_of_map_get?
    (hentries : ∀ entry ∈ m.entries, (n.get? entry.1).map g = some (f entry.2)) :
    m.entries.map Prod.fst ⊆ n.entries.map Prod.fst := by
  intro _ hkey
  obtain ⟨entry, hentry, rfl⟩ := List.mem_map.mp hkey
  obtain ⟨other, hget, -⟩ := Option.map_eq_some_iff.mp (hentries entry hentry)
  exact mem_keys_iff.mpr ⟨other, hget⟩

theorem size_eq_of_map_get?_eq
    (hmaps : (fun key => (m.get? key).map f) = fun key => (n.get? key).map g) :
    m.size = n.size := by
  have hkeys := keys_subset_of_map_get? (map_get?_of_mem_entries hmaps)
  have hothers := keys_subset_of_map_get? (map_get?_of_mem_entries hmaps.symm)
  rw [← length_keys, ← length_keys]
  exact Nat.le_antisymm (List.subperm_of_subset m.nodup_keys hkeys).length_le
    (List.subperm_of_subset n.nodup_keys hothers).length_le

/-- Two maps of one size are the same, as far as their values tell, if every entry of the first one
is found in the second. -/
theorem map_get?_eq_iff (hsize : m.size = n.size) :
    (fun key => (m.get? key).map f) = (fun key => (n.get? key).map g) ↔
      ∀ entry ∈ m.entries, (n.get? entry.1).map g = some (f entry.2) := by
  refine ⟨map_get?_of_mem_entries, fun hentries => funext fun key => ?_⟩
  cases hm : m.get? key with
  | some value => exact (hentries (key, value) (mem_entries_of_get?_eq_some hm)).symm
  | none =>
    cases hn : n.get? key with
    | none => rfl
    | some other =>
      have hkeys := keys_subset_of_size_eq hsize (keys_subset_of_map_get? hentries)
      obtain ⟨value, hvalue⟩ := mem_keys_iff.mp (hkeys (mem_keys_iff.mpr ⟨other, hn⟩))
      cases hm.symm.trans hvalue

end

end MonkeyLang.IndexedMap
