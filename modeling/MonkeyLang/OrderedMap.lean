namespace MonkeyLang

/-- A finite map that remembers the order in which its keys were first inserted.
The entries are kept in that order, so iteration depends on nothing else. -/
structure OrderedMap (K V : Type) where
  entries : List (K × V) := []

namespace OrderedMap

variable {K V : Type}

/-- The map without entries. -/
def empty : OrderedMap K V := {}

/-- The keys in the order of their first insertion. -/
def keys (m : OrderedMap K V) : List K := m.entries.map Prod.fst

/-- The number of keys. -/
def size (m : OrderedMap K V) : Nat := m.entries.length

variable [DecidableEq K]

/-- The value stored under a key. -/
def get? (m : OrderedMap K V) (key : K) : Option V := m.entries.lookup key

/-- Overwrites the entry of a known key where it stands and appends a new one. -/
def upsert (key : K) (value : V) : List (K × V) → List (K × V)
  | [] => [(key, value)]
  | entry :: rest =>
    if entry.1 = key then (key, value) :: rest else entry :: upsert key value rest

/-- Stores a value under a key. A key that is already present keeps its place. -/
def insert (m : OrderedMap K V) (key : K) (value : V) : OrderedMap K V :=
  ⟨upsert key value m.entries⟩

/-- Overwrites the entry of a known key and hands back what stood there, or appends a new one. -/
def exchange (key : K) (value : V) : List (K × V) → Option V × List (K × V)
  | [] => (none, [(key, value)])
  | entry :: rest =>
    if entry.1 = key then (some entry.2, (key, value) :: rest)
    else
      let (old, others) := exchange key value rest
      (old, entry :: others)

/-- Stores a value under a key and hands back the value it replaces. -/
def replace (m : OrderedMap K V) (key : K) (value : V) : Option V × OrderedMap K V :=
  let (old, entries) := exchange key value m.entries
  (old, ⟨entries⟩)

/-- A value that is found belongs to an entry. -/
theorem mem_of_get?_eq_some {m : OrderedMap K V} {key : K} {value : V}
    (hget : m.get? key = some value) : (key, value) ∈ m.entries := by
  obtain ⟨entries⟩ := m
  simp only [get?] at hget ⊢
  induction entries with
  | nil => simp at hget
  | cons entry rest ih =>
    obtain ⟨k, v⟩ := entry
    simp only [List.lookup_cons] at hget
    split at hget
    · rename_i hkey
      cases hget
      simp [eq_of_beq hkey]
    · exact List.mem_cons_of_mem _ (ih hget)

/-- A key at a single position is found there. -/
theorem lookup_eq_some_of_unique {entries : List (K × V)} {key : K} {value : V} {i : Nat}
    (hentry : entries[i]? = some (key, value))
    (hunique : ∀ j found, entries[j]? = some (key, found) → j = i) :
    entries.lookup key = some value := by
  induction entries generalizing i with
  | nil => simp at hentry
  | cons entry rest ih =>
    obtain ⟨k, v⟩ := entry
    by_cases hkey : key = k
    · subst hkey
      have hzero := hunique 0 v rfl
      subst hzero
      simp_all
    · cases i with
      | zero => simp_all
      | succ i =>
        rw [List.lookup_cons, beq_false_of_ne hkey]
        exact ih hentry fun j found hfound => Nat.succ.inj (hunique (j + 1) found hfound)

/-- A key at a single position is overwritten there. -/
theorem upsert_eq_set_of_unique {entries : List (K × V)} {key : K} {old : V} {i : Nat}
    (hentry : entries[i]? = some (key, old))
    (hunique : ∀ j found, entries[j]? = some (key, found) → j = i) (value : V) :
    upsert key value entries = entries.set i (key, value) := by
  induction entries generalizing i with
  | nil => simp at hentry
  | cons entry rest ih =>
    obtain ⟨k, v⟩ := entry
    by_cases hkey : k = key
    · subst hkey
      have hzero := hunique 0 v rfl
      subst hzero
      simp [upsert]
    · cases i with
      | zero => simp_all
      | succ i =>
        rw [upsert, if_neg hkey, List.set_cons_succ,
          ih hentry fun j found hfound => Nat.succ.inj (hunique (j + 1) found hfound)]

/-- A key that is nowhere is appended. -/
theorem upsert_eq_append_of_absent {entries : List (K × V)} {key : K}
    (habsent : ∀ entry ∈ entries, entry.1 ≠ key) (value : V) :
    upsert key value entries = entries ++ [(key, value)] := by
  induction entries with
  | nil => rfl
  | cons entry rest ih =>
    rw [upsert, if_neg (habsent entry (List.mem_cons_self ..)), List.cons_append,
      ih fun other hother => habsent other (List.mem_cons_of_mem _ hother)]

end OrderedMap

end MonkeyLang
