import Mathlib.Data.Finset.Card
import MonkeyLang.Proofs.OrderedMap

namespace MonkeyLang

namespace OrderedMap

variable {K V : Type} [DecidableEq K]

/-- The value that came last under a key. -/
def lastValue (log : List (K × V)) (key : K) : Option V :=
  ((log.filter fun entry => entry.1 = key).getLast?).map Prod.snd

/-- What is left of some insertions if each key stays where it came first and has the value that
came last. -/
structure IsDigest (log entries : List (K × V)) : Prop where
  once : ∀ key, (entries.map Prod.fst).count key = if key ∈ log.map Prod.fst then 1 else 0
  ordered : (entries.map Prod.fst).Pairwise fun key later =>
    (log.map Prod.fst).idxOf key < (log.map Prod.fst).idxOf later
  last : ∀ entry ∈ entries, lastValue log entry.1 = some entry.2

namespace IsDigest

variable {log entries others : List (K × V)}

theorem mem_keys_iff (hentries : IsDigest log entries) (key : K) :
    key ∈ entries.map Prod.fst ↔ key ∈ log.map Prod.fst := by
  rw [← List.count_pos_iff, hentries.once]
  split <;> simp_all

theorem nodup_keys (hentries : IsDigest log entries) : (entries.map Prod.fst).Nodup := by
  refine List.nodup_iff_count_le_one.mpr fun key => ?_
  rw [hentries.once]
  split <;> decide

theorem keys_eq (hentries : IsDigest log entries) (hothers : IsDigest log others) :
    entries.map Prod.fst = others.map Prod.fst := by
  refine List.Perm.eq_of_pairwise ?_ hentries.ordered hothers.ordered ?_
  · intro key later _ _ hlt hgt
    exact absurd hgt (Nat.lt_asymm hlt)
  · refine (List.perm_ext_iff_of_nodup hentries.nodup_keys hothers.nodup_keys).mpr fun key => ?_
    rw [hentries.mem_keys_iff, hothers.mem_keys_iff]

/-- The values follow from the keys, and the keys from the order in which they came. -/
theorem unique (hentries : IsDigest log entries) (hothers : IsDigest log others) :
    entries = others := by
  have hvalues {list : List (K × V)} (hlist : IsDigest log list) :
      list.map (Prod.map id some) =
        (list.map Prod.fst).map fun key => (key, lastValue log key) := by
    rw [List.map_map]
    refine List.map_congr_left fun entry hentry => ?_
    rw [Function.comp_apply, hlist.last entry hentry]
    rfl
  have hinjective : Function.Injective (Prod.map id some : K × V → K × Option V) :=
    Function.injective_id.prodMap (Option.some_injective V)
  refine hinjective.list_map ?_
  rw [hvalues hentries, hvalues hothers, hentries.keys_eq hothers]

end IsDigest

theorem get?_of_mem_entries {m : OrderedMap K V} (hkeys : m.keys.Nodup) {entry : K × V}
    (hentry : entry ∈ m.entries) : m.get? entry.1 = some entry.2 := by
  obtain ⟨i, hi⟩ := List.mem_iff_getElem?.mp hentry
  refine lookup_eq_some_of_unique hi fun j found hfound => ?_
  have hlt : j < m.keys.length := by
    rw [keys, List.length_map]
    exact (List.getElem?_eq_some_iff.mp hfound).1
  refine (List.getElem?_inj hlt hkeys).mp ?_
  rw [keys, List.getElem?_map, List.getElem?_map, hfound, hi]
  rfl

theorem mem_keys_ofInserts (log : List (K × V)) (key : K) :
    key ∈ (ofInserts log).keys ↔ key ∈ log.map Prod.fst := by
  rw [keys_ofInserts, List.mem_eraseDups]

/-- A new key comes later than all the others, and a known one changes nothing. -/
theorem ordered_ofInserts (log : List (K × V)) : (ofInserts log).keys.Pairwise fun key later =>
    (log.map Prod.fst).idxOf key < (log.map Prod.fst).idxOf later := by
  induction log using List.reverseRecOn with
  | nil => exact .nil
  | append_singleton log entry ih =>
    -- What comes later does not change where a key came first.
    have hfirst {key : K} (hkey : key ∈ (ofInserts log).keys) :
        ((log ++ [entry]).map Prod.fst).idxOf key = (log.map Prod.fst).idxOf key := by
      rw [List.map_append, List.idxOf_append_of_mem ((mem_keys_ofInserts log key).mp hkey)]
    have hold : (ofInserts log).keys.Pairwise fun key later =>
        ((log ++ [entry]).map Prod.fst).idxOf key <
          ((log ++ [entry]).map Prod.fst).idxOf later := by
      refine ih.imp_of_mem fun hkey hlater hlt => ?_
      rwa [hfirst hkey, hfirst hlater]
    rw [ofInserts_concat, keys_insert]
    split
    · exact hold
    · rename_i hnew
      rw [mem_keys_ofInserts] at hnew
      refine List.pairwise_append.mpr ⟨hold, List.pairwise_singleton _ _, ?_⟩
      intro key hkey later hlater
      rw [List.mem_singleton.mp hlater, hfirst hkey, List.map_append,
        List.idxOf_append_of_notMem hnew]
      have hlt := List.idxOf_lt_length_of_mem ((mem_keys_ofInserts log key).mp hkey)
      exact Nat.lt_add_right _ hlt

theorem isDigest_ofInserts (log : List (K × V)) : IsDigest log (ofInserts log).entries where
  once key := by
    have hkeys := nodup_keys_ofInserts log
    split
    · rename_i hkey
      exact List.count_eq_one_of_mem hkeys ((mem_keys_ofInserts log key).mpr hkey)
    · rename_i hkey
      exact List.count_eq_zero_of_not_mem fun hmem => hkey ((mem_keys_ofInserts log key).mp hmem)
  ordered := ordered_ofInserts log
  last entry hentry :=
    (get?_ofInserts log entry.1).symm.trans (get?_of_mem_entries (nodup_keys_ofInserts log) hentry)

theorem size_ofInserts (log : List (K × V)) :
    (ofInserts log).size = (log.map Prod.fst).toFinset.card := by
  have hkeys : (ofInserts log).keys.toFinset = (log.map Prod.fst).toFinset := by
    ext key
    rw [List.mem_toFinset, List.mem_toFinset, mem_keys_ofInserts]
  rw [← hkeys, List.toFinset_card_of_nodup (nodup_keys_ofInserts log), keys, List.length_map, size]

/-- Insertions only add keys behind those that are there. -/
theorem prefix_keys_ofInserts (log more : List (K × V)) :
    (ofInserts log).keys <+: (ofInserts (log ++ more)).keys := by
  rw [keys_ofInserts, keys_ofInserts, List.map_append, List.eraseDups_append]
  exact List.prefix_append _ _

/-- Inserts entries one after another and lists the values that they replace. -/
def replaceAll (m : OrderedMap K V) : List (K × V) → List (Option V) × OrderedMap K V
  | [] => ([], m)
  | (key, value) :: rest =>
    let first := m.replace key value
    let others := first.2.replaceAll rest
    (first.1 :: others.1, others.2)

/-- Each insertion gives back what was found under its key after those before it. -/
theorem replaceAll_ofInserts (done log : List (K × V)) :
    (replaceAll (ofInserts done) log).2 = ofInserts (done ++ log) ∧
      ∀ i : Nat, (replaceAll (ofInserts done) log).1[i]? =
        log[i]?.map fun entry => (ofInserts (done ++ log.take i)).get? entry.1 := by
  induction log generalizing done with
  | nil => simp [replaceAll]
  | cons entry rest ih =>
    obtain ⟨key, value⟩ := entry
    obtain ⟨hlast, holds⟩ := ih (done ++ [(key, value)])
    rw [ofInserts_concat] at hlast holds
    simp only [replaceAll, replace_eq]
    refine ⟨by rw [hlast, List.append_assoc, List.singleton_append], fun i => ?_⟩
    cases i with
    | zero => simp
    | succ i => simp [holds]

end OrderedMap

namespace IndexedMap

variable {K V : Type} {cmp : K → K → Ordering} [Std.TransCmp cmp] [Std.LawfulEqCmp cmp]

/-- The map that comes of inserting some entries one after another. -/
def ofInserts (entries : List (K × V)) : IndexedMap K V cmp :=
  entries.foldl (fun m entry => m.insert entry.1 entry.2) .empty

/-- Inserts entries one after another and lists the values that they replace. -/
def replaceAll (m : IndexedMap K V cmp) : List (K × V) → List (Option V) × IndexedMap K V cmp
  | [] => ([], m)
  | (key, value) :: rest =>
    let first := m.replace key value
    let others := first.2.replaceAll rest
    (first.1 :: others.1, others.2)

theorem snd_replaceAll (m : IndexedMap K V cmp) (log : List (K × V)) :
    (m.replaceAll log).2 = log.foldl (fun m entry => m.insert entry.1 entry.2) m := by
  induction log generalizing m with
  | nil => rfl
  | cons entry rest ih =>
    obtain ⟨key, value⟩ := entry
    simp only [replaceAll, replace_eq]
    exact ih _

/-- The values that are replaced are the same in the plain ordered map. -/
theorem fst_replaceAll [DecidableEq K] (m : IndexedMap K V cmp) (log : List (K × V)) :
    (m.replaceAll log).1 = (m.toOrderedMap.replaceAll log).1 := by
  induction log generalizing m with
  | nil => rfl
  | cons entry rest ih =>
    obtain ⟨key, value⟩ := entry
    simp only [replaceAll, OrderedMap.replaceAll, replace_eq, OrderedMap.replace_eq]
    rw [ih, toOrderedMap_insert, get?_toOrderedMap]

theorem toOrderedMap_ofInserts [DecidableEq K] (log : List (K × V)) :
    (ofInserts log : IndexedMap K V cmp).toOrderedMap = OrderedMap.ofInserts log :=
  (List.foldl_hom toOrderedMap fun m entry => (m.toOrderedMap_insert entry.1 entry.2).symm).symm

end IndexedMap

open OrderedMap

/-- Whatever is inserted, a map has each key once, where it came first, with the value that came
last, and there is only one such list of entries. It has as many of them as there were different
keys, and what is found under a key is what came last under it. An insertion gives back what was
found just before, and no key moves any more. It makes no difference whether a map finds its keys by
an index. -/
theorem maps_keep_first_places {K V : Type} [DecidableEq K] {cmp : K → K → Ordering}
    [Std.TransCmp cmp] [Std.LawfulEqCmp cmp] (log : List (K × V)) :
    (∀ entries, (ofInserts log).entries = entries ↔ IsDigest log entries) ∧
    (ofInserts log).size = (log.map Prod.fst).toFinset.card ∧
    (∀ key, (ofInserts log).get? key = lastValue log key) ∧
    (replaceAll .empty log).2 = ofInserts log ∧
    (∀ i : Nat, (replaceAll .empty log).1[i]? =
      log[i]?.map fun entry => (ofInserts (log.take i)).get? entry.1) ∧
    (∀ more, (ofInserts log).keys <+: (ofInserts (log ++ more)).keys) ∧
    (∀ key ∈ (ofInserts log).keys, ∀ value,
      ((ofInserts log).insert key value).keys = (ofInserts log).keys) ∧
    let indexed : IndexedMap K V cmp := .ofInserts log
    indexed.entries = (ofInserts log).entries ∧ indexed.size = (ofInserts log).size ∧
      (∀ key, indexed.get? key = (ofInserts log).get? key) ∧
      IndexedMap.replaceAll .empty log = ((replaceAll .empty log).1, indexed) := by
  have hdigest := isDigest_ofInserts log
  have hindexed : (IndexedMap.ofInserts log : IndexedMap K V cmp).toOrderedMap = ofInserts log :=
    IndexedMap.toOrderedMap_ofInserts log
  obtain ⟨hlast, holds⟩ := replaceAll_ofInserts [] log
  refine ⟨fun entries => ⟨?_, hdigest.unique⟩, size_ofInserts log, get?_ofInserts log, hlast, holds,
    prefix_keys_ofInserts log, ?_, ?_⟩
  · rintro rfl
    exact hdigest
  · intro key hkey value
    rw [keys_insert, if_pos hkey]
  · rw [← hindexed]
    refine ⟨rfl, rfl, fun key => (IndexedMap.get?_toOrderedMap _ key).symm, ?_⟩
    exact Prod.ext (IndexedMap.fst_replaceAll _ log) (IndexedMap.snd_replaceAll _ log)

/-- A key comes back after another one. It keeps its place, and the old value is given back. -/
theorem maps_keep_first_places_repeated :
    let log := [("b", 1), ("a", 2), ("b", 3)]
    IsDigest log [("b", 3), ("a", 2)] ∧
    (IndexedMap.ofInserts log : IndexedMap String Nat compare).entries = [("b", 3), ("a", 2)] ∧
    (replaceAll .empty log).1[2]? = some (some 1) ∧
    ((ofInserts log).insert "b" 4).keys = (ofInserts log).keys := by
  intro log
  obtain ⟨hentries, -, -, -, hreplaced, -, hplaces, hindexed, -⟩ :=
    @maps_keep_first_places String Nat _ compare _ _ log
  refine ⟨(hentries _).mp (by decide), hindexed.trans (by decide), (hreplaced 2).trans (by decide),
    hplaces "b" (by decide) 4⟩

end MonkeyLang
