import MonkeyLang.Proofs.Eval.Filing
import MonkeyLang.Proofs.OrderedMap.Digest

namespace MonkeyLang

theorem OrderedMap.map_upsert {K V L W : Type} [DecidableEq K] [DecidableEq L] (f : K × V → L × W)
    (key : K) (value : V) {entries : List (K × V)}
    (hkeys : ∀ entry ∈ entries, (f entry).1 = (f (key, value)).1 ↔ entry.1 = key) :
    (upsert key value entries).map f =
      upsert (f (key, value)).1 (f (key, value)).2 (entries.map f) := by
  induction entries with
  | nil => rfl
  | cons entry rest ih =>
    obtain ⟨hentry, hrest⟩ := List.forall_mem_cons.mp hkeys
    rw [List.map_cons, upsert, upsert]
    by_cases hkey : entry.1 = key
    · rw [if_pos hkey, if_pos (hentry.mpr hkey), List.map_cons]
    · rw [if_neg hkey, if_neg fun hsame => hkey (hentry.mp hsame), List.map_cons, ih hrest]

namespace Value

/-- A key is refused because of its type. -/
theorem hashKey_eq_error_of_not_hashable {key : Value} (hkey : ¬ key.Hashable) :
    key.hashKey = .error (.unhashable key.type) := by
  cases key with
  | int | bool | string => exact absurd ⟨_, rfl⟩ hkey
  | null | array | hash | function | builtin | error => rfl

end Value

namespace Hash

/-- The keys and values of a hash, in order. -/
def pairs (hash : Hash) : List (Value × Value) :=
  hash.entries.map fun entry => (entry.2.key, entry.2.value)

/-- A value takes the place that its key has among the keys as they are kept. -/
theorem Filed.pairs_insert {hash : Hash} (hhash : hash.Filed) {key : Value} {hashKey : HashKey}
    (hkey : key.hashKey = .ok hashKey) (value : Value) :
    pairs (hash.insert hashKey ⟨key, value⟩) = OrderedMap.upsert key value hash.pairs := by
  have hentries : (hash.insert hashKey ⟨key, value⟩).entries =
      OrderedMap.upsert hashKey ⟨key, value⟩ hash.entries :=
    congrArg OrderedMap.entries (hash.toOrderedMap_insert hashKey ⟨key, value⟩)
  rw [pairs, hentries, OrderedMap.map_upsert]
  · rfl
  · intro entry hentry
    have hfiled := hhash entry hentry
    constructor
    · rintro rfl
      exact Except.ok.inj (hfiled.symm.trans hkey)
    · rintro rfl
      exact Value.hashKey_injective hfiled hkey

/-- Files pairs in a hash until a key is refused. What was filed by then stays. -/
def fileAll (hash : Hash) : List (Value × Value) → Hash × Except Fault Unit
  | [] => (hash, .ok ())
  | (key, value) :: rest =>
    match key.hashKey with
    | .ok hashKey => fileAll (hash.insert hashKey ⟨key, value⟩) rest
    | .error fault => (hash, .error fault)

section

variable {hash : Hash} {key value : Value} {rest : List (Value × Value)}

theorem fileAll_cons_of_ok {hashKey : HashKey} (hkey : key.hashKey = .ok hashKey) :
    fileAll hash ((key, value) :: rest) = fileAll (hash.insert hashKey ⟨key, value⟩) rest := by
  rw [fileAll, hkey]

theorem fileAll_cons_of_error {fault : Fault} (hkey : key.hashKey = .error fault) :
    fileAll hash ((key, value) :: rest) = (hash, .error fault) := by
  rw [fileAll, hkey]

end

/-- Either all pairs are filed, or those before the first unhashable key. -/
theorem fileAll_cases (hash : Hash) (pairs : List (Value × Value)) :
    ((∀ pair ∈ pairs, pair.1.Hashable) ∧ (fileAll hash pairs).2 = .ok ()) ∨
    ∃ before key value rest, pairs = before ++ (key, value) :: rest ∧
      (∀ pair ∈ before, pair.1.Hashable) ∧ ¬ key.Hashable ∧ (fileAll hash before).2 = .ok () ∧
      fileAll hash pairs = ((fileAll hash before).1, .error (.unhashable key.type)) := by
  induction pairs generalizing hash with
  | nil => exact .inl ⟨by simp, rfl⟩
  | cons pair rest ih =>
    obtain ⟨key, value⟩ := pair
    by_cases hhashable : key.Hashable
    · obtain ⟨hashKey, hkey⟩ := hhashable
      rw [fileAll_cons_of_ok hkey]
      rcases ih (hash.insert hashKey ⟨key, value⟩) with ⟨hrest, hall⟩ |
        ⟨before, other, found, rest, rfl, hbefore, hother, hfiled, hstops⟩
      · exact .inl ⟨List.forall_mem_cons.mpr ⟨⟨hashKey, hkey⟩, hrest⟩, hall⟩
      · refine .inr ⟨(key, value) :: before, other, found, rest, rfl,
          List.forall_mem_cons.mpr ⟨⟨hashKey, hkey⟩, hbefore⟩, hother, ?_⟩
        rw [fileAll_cons_of_ok hkey]
        exact ⟨hfiled, hstops⟩
    · refine .inr ⟨[], key, value, rest, rfl, by simp, hhashable, rfl, ?_⟩
      exact fileAll_cons_of_error (Value.hashKey_eq_error_of_not_hashable hhashable)

/-- Filing all of some pairs is inserting them into a plain map. -/
theorem Filed.fileAll {old : Hash} (hold : old.Filed) {log : List (Value × Value)}
    (hlog : old.pairs = (OrderedMap.ofInserts log).entries) {pairs : List (Value × Value)}
    (hall : (old.fileAll pairs).2 = .ok ()) : (old.fileAll pairs).1.Filed ∧
      (old.fileAll pairs).1.pairs = (OrderedMap.ofInserts (log ++ pairs)).entries := by
  induction pairs generalizing old log with
  | nil =>
    rw [List.append_nil]
    exact ⟨hold, hlog⟩
  | cons pair rest ih =>
    obtain ⟨key, value⟩ := pair
    cases hkey : key.hashKey with
    | error fault =>
      rw [fileAll_cons_of_error hkey] at hall
      cases hall
    | ok hashKey =>
      rw [fileAll_cons_of_ok hkey] at hall ⊢
      rw [List.append_cons]
      refine ih (hold.insert hkey value) ?_ hall
      rw [hold.pairs_insert hkey, hlog, OrderedMap.ofInserts_concat]
      rfl

theorem isDigest_fileAll {log : List (Value × Value)} (hall : (fileAll .empty log).2 = .ok ()) :
    (fileAll .empty log).1.Filed ∧ OrderedMap.IsDigest log (fileAll .empty log).1.pairs := by
  have hempty : pairs .empty = (OrderedMap.ofInserts []).entries := rfl
  obtain ⟨hfiled, hpairs⟩ := filed_empty.fileAll hempty hall
  rw [hpairs]
  exact ⟨hfiled, OrderedMap.isDigest_ofInserts log⟩

/-- The hash of a list of pairs is there only if no key was refused. -/
private theorem foldlM_file (hash : Hash) (pairs : List (Value × Value)) :
    pairs.foldlM (fun hash (key, value) => file hash key value) hash =
      (fileAll hash pairs).2.map fun _ => (fileAll hash pairs).1 := by
  induction pairs generalizing hash with
  | nil => rfl
  | cons pair rest ih =>
    obtain ⟨key, value⟩ := pair
    simp only [List.foldlM_cons, file]
    cases hkey : key.hashKey with
    | error fault =>
      rw [fileAll_cons_of_error hkey]
      rfl
    | ok hashKey =>
      rw [fileAll_cons_of_ok hkey]
      exact ih (hash.insert hashKey ⟨key, value⟩)

end Hash

/-- Two names that stand for a key and a value. -/
def Heap.Binds (heap : Heap) (scope : Nat) (names : String × String) (pair : Value × Value) :
    Prop :=
  heap.lookup names.1 scope = some pair.1 ∧ heap.lookup names.2 scope = some pair.2

/-- A hash literal in which keys and values are names. -/
def Expr.hashOf (names : List (String × String)) : Expr :=
  .hash (names.map fun name => (.ident name.1, .ident name.2))

/-- Calls `set` for some pairs, one after another, until one of the calls fails. -/
def setAll (run : Nat → Block → Eval Value) (target : Value) : List (Value × Value) → Eval Unit
  | [] => return ()
  | (key, value) :: rest => do
    let _ ← apply run (.builtin .set) [target, key, value]
    setAll run target rest

section

variable (run : Nat → Block → Eval Value) {scope : Nat} {state : State}

private theorem evalExpr_ident {name : String} {value : Value}
    (hname : state.heap.lookup name scope = some value) :
    evalExpr run scope (.ident name) state = .ok value state := by
  simp only [evalExpr, resolve_eq, Effect.read, bind, EStateM.bind, hname]
  rfl

/-- Names change nothing when they are evaluated, so a literal of names files the pairs that they
stand for. -/
theorem evalPairs_idents {names : List (String × String)} {pairs : List (Value × Value)}
    (hnames : List.Forall₂ (state.heap.Binds scope) names pairs) (done : Hash) :
    evalPairs run scope done (names.map fun name => (.ident name.1, .ident name.2)) state =
      Eval.ofExcept ((done.fileAll pairs).2.map fun _ => (done.fileAll pairs).1) state := by
  induction hnames generalizing done with
  | nil =>
    rw [List.map_nil, evalPairs]
    rfl
  | @cons name pair names pairs hname _ ih =>
    obtain ⟨key, value⟩ := pair
    obtain ⟨hkeyName, hvalueName⟩ := hname
    simp only [List.map_cons, evalPairs, bind, EStateM.bind, evalExpr_ident run hkeyName]
    cases hkey : key.hashKey with
    | error fault =>
      rw [Hash.fileAll_cons_of_error hkey]
      rfl
    | ok hashKey =>
      rw [Hash.fileAll_cons_of_ok hkey, ← ih]
      have hready : Eval.ofExcept (.ok hashKey) state = .ok hashKey state := rfl
      simp only [hready, evalExpr_ident run hvalueName]

private theorem apply_set_of_error {id : Nat} {key : Value} {fault : Fault}
    (hkey : key.hashKey = .error fault) (value : Value) :
    apply run (.builtin .set) [.hash id, key, value] state = .error (.fault fault) state := by
  simp only [apply, Builtin.call, Builtin.callSet, hkey]
  rfl

theorem Heap.insert_newHash (heap : Heap) (hash : Hash) (hashKey : HashKey) (entry : Entry) :
    (heap.newHash hash).2.insert heap.hashes.size hashKey entry =
      (heap.newHash (hash.insert hashKey entry)).2 := by
  have hhashes : (heap.hashes.push hash).modify heap.hashes.size (·.insert hashKey entry) =
      heap.hashes.push (hash.insert hashKey entry) := by
    refine Array.ext_getElem? fun i => ?_
    rw [Array.getElem?_modify, Array.getElem?_push, Array.getElem?_push]
    by_cases hi : i = heap.hashes.size
    · simp [hi]
    · simp [hi, Ne.symm hi]
  rw [newHash, newHash, insert, hhashes]

/-- Calls of `set` file pairs in a hash that was made last. -/
theorem setAll_newHash (heap : Heap) (output : Output) (done : Hash)
    (pairs : List (Value × Value)) :
    setAll run (.hash heap.hashes.size) pairs ⟨(heap.newHash done).2, output⟩ =
      Eval.ofExcept (done.fileAll pairs).2 ⟨(heap.newHash (done.fileAll pairs).1).2, output⟩ := by
  induction pairs generalizing done with
  | nil => rfl
  | cons pair rest ih =>
    obtain ⟨key, value⟩ := pair
    cases hkey : key.hashKey with
    | error fault =>
      rw [Hash.fileAll_cons_of_error hkey]
      simp only [setAll, bind, EStateM.bind, apply_set_of_error run hkey]
      rfl
    | ok hashKey =>
      -- After a call the state is that of a hash just made with one more entry.
      rw [Hash.fileAll_cons_of_ok hkey, ← ih, ← heap.insert_newHash done]
      simp only [setAll, bind, EStateM.bind, apply_set hkey]

/-- A literal of names makes a hash of the pairs that they stand for, unless a key is refused. -/
theorem evalExpr_hashOf {names : List (String × String)} {pairs : List (Value × Value)}
    (hnames : List.Forall₂ (state.heap.Binds scope) names pairs) :
    evalExpr run scope (.hashOf names) state =
      match Hash.ofPairs pairs with
      | .ok hash => .ok (.hash state.heap.hashes.size) ⟨(state.heap.newHash hash).2, state.output⟩
      | .error fault => .error (.fault fault) state := by
  have hpairs := evalPairs_idents run hnames .empty
  rw [← Hash.foldlM_file, ← Hash.ofPairs] at hpairs
  simp only [Expr.hashOf, evalExpr, bind, EStateM.bind, hpairs]
  cases Hash.ofPairs pairs <;> rfl

end

/-- There are three ways to make a hash of some pairs: at once, by a literal, and by filing them in
an empty hash with `set`. They come to the same hash, in which each key stands where it came first
and has the value that came last. If there is an unhashable key they fail alike, because of the
first one, and `set` has filed the pairs before it by then. -/
theorem hashes_are_made_alike (run : Nat → Block → Eval Value) {scope : Nat} {state : State}
    {names : List (String × String)} {pairs : List (Value × Value)}
    (hnames : List.Forall₂ (state.heap.Binds scope) names pairs) :
    ∃ id start, evalExpr run scope (.hash []) state = .ok (.hash id) start ∧
      state.heap.hashes[id]? = none ∧
      ((∃ hash after, (∀ pair ∈ pairs, pair.1.Hashable) ∧
        Hash.ofPairs pairs = .ok hash ∧
        evalExpr run scope (.hashOf names) state = .ok (.hash id) after ∧
        setAll run (.hash id) pairs start = .ok () after ∧
        after.heap.hashes[id]? = some hash ∧ hash.Filed ∧
        OrderedMap.IsDigest pairs hash.pairs) ∨
      ∃ before key value rest hash after, pairs = before ++ (key, value) :: rest ∧
        (∀ pair ∈ before, pair.1.Hashable) ∧ ¬ key.Hashable ∧
        (Fault.unhashable key.type).message = "unusable as hash key: " ++ key.type.name ∧
        Hash.ofPairs pairs = .error (.unhashable key.type) ∧
        evalExpr run scope (.hashOf names) state = .error (.fault (.unhashable key.type)) state ∧
        setAll run (.hash id) pairs start = .error (.fault (.unhashable key.type)) after ∧
        after.heap.hashes[id]? = some hash ∧ Hash.ofPairs before = .ok hash ∧ hash.Filed ∧
        OrderedMap.IsDigest before hash.pairs) := by
  have hliteral := evalExpr_hashOf run hnames
  have hset := setAll_newHash run state.heap state.output .empty pairs
  have hofPairs (pairs : List (Value × Value)) : Hash.ofPairs pairs =
      (Hash.fileAll .empty pairs).2.map fun _ => (Hash.fileAll .empty pairs).1 :=
    Hash.foldlM_file .empty pairs
  refine ⟨state.heap.hashes.size, ⟨(state.heap.newHash .empty).2, state.output⟩, ?_,
    Array.getElem?_eq_none (Nat.le_refl _), ?_⟩
  · simp only [evalExpr, evalPairs]
    rfl
  rcases Hash.fileAll_cases .empty pairs with ⟨hpairs, hall⟩ |
    ⟨before, key, value, rest, hsplit, hbefore, hkey, hall, hstops⟩
  · obtain ⟨hfiled, hdigest⟩ := Hash.isDigest_fileAll hall
    have hhash := hofPairs pairs
    rw [hall] at hhash hset
    rw [hhash] at hliteral
    exact .inl ⟨_, _, hpairs, hhash, hliteral, hset, Array.getElem?_push_size, hfiled, hdigest⟩
  · obtain ⟨hfiled, hdigest⟩ := Hash.isDigest_fileAll hall
    have hfault := hofPairs pairs
    have hhash := hofPairs before
    rw [hstops] at hfault hset
    rw [hall] at hhash
    rw [hfault] at hliteral
    exact .inr ⟨before, key, value, rest, _, _, hsplit, hbefore, hkey, rfl, hfault, hliteral, hset,
      Array.getElem?_push_size, hhash, hfiled, hdigest⟩

/-- A key comes back before an unhashable one. The hash filled by `set` has kept its place and taken
its new value. -/
theorem hashes_are_made_alike_repeated :
    let bindings := [("a", Value.int 1), ("b", .string "1"), ("c", .null)]
    let state : State := ⟨{ scopes := #[{ bindings := ⟨bindings⟩ }] }, {}⟩
    let names := [("a", "b"), ("b", "a"), ("a", "c"), ("c", "a")]
    let pairs : List (Value × Value) :=
      [(.int 1, .string "1"), (.string "1", .int 1), (.int 1, .null), (.null, .int 1)]
    List.Forall₂ (state.heap.Binds 0) names pairs ∧
    Hash.ofPairs pairs = .error (.unhashable .null) ∧
    evalExpr (runBody 0) 0 (.hashOf names) state = .error (.fault (.unhashable .null)) state ∧
    ∃ id start after hash, evalExpr (runBody 0) 0 (.hash []) state = .ok (.hash id) start ∧
      setAll (runBody 0) (.hash id) pairs start = .error (.fault (.unhashable .null)) after ∧
      after.heap.hashes[id]? = some hash ∧
      OrderedMap.IsDigest (pairs.take 3) hash.pairs := by
  intro bindings state names pairs
  have hnames : List.Forall₂ (state.heap.Binds 0) names pairs := by
    refine .cons ⟨?_, ?_⟩ (.cons ⟨?_, ?_⟩ (.cons ⟨?_, ?_⟩ (.cons ⟨?_, ?_⟩ .nil))) <;>
      decide +kernel
  obtain ⟨id, start, hstart, -, hmade | hrefused⟩ := hashes_are_made_alike (runBody 0) hnames
  · obtain ⟨-, -, hhashable, -⟩ := hmade
    obtain ⟨key, hkey⟩ := hhashable (.null, .int 1) (by simp [pairs])
    cases hkey
  · obtain ⟨before, key, value, rest, hash, after, hsplit, hbefore, hkey, -, hofPairs, hliteral,
      hset, hhash, -, -, hdigest⟩ := hrefused
    -- Only the last key is unhashable, so all the pairs before it were filed.
    simp only [pairs] at hsplit
    rcases before with _ | ⟨_, _ | ⟨_, _ | ⟨_, before⟩⟩⟩
    iterate 3
      · cases hsplit
        exact absurd ⟨_, rfl⟩ hkey
    · cases before with
      | cons => simp at hsplit
      | nil =>
        cases hsplit
        exact ⟨hnames, hofPairs, hliteral, id, start, after, hash, hstart, hset, hhash, hdigest⟩

end MonkeyLang
