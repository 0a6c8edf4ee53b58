import MonkeyLang.Proofs.Eval.Chronicle
import MonkeyLang.Value.Equality

namespace MonkeyLang

namespace Value

/-- A value that can be filed in a hash. -/
def Hashable (value : Value) : Prop := ∃ key, value.hashKey = .ok key

/-- No two values are filed under one key, not even values of different types. -/
theorem hashKey_injective {left right : Value} {key : HashKey} (hleft : left.hashKey = .ok key)
    (hright : right.hashKey = .ok key) : left = right := by
  cases left <;> cases hleft <;> cases right <;> cases hright <;> rfl

theorem Hashable.scalar {value : Value} (hvalue : value.Hashable) : value.Scalar := by
  obtain ⟨key, hkey⟩ := hvalue
  cases value <;> cases hkey <;> trivial

end Value

/-- A value that can be filed has the contents of another one only if it is the same value. -/
theorem Heap.equal?_eq_true_iff (heap : Heap) {left : Value} (hleft : left.Hashable)
    (right : Value) : heap.equal? left right = some true ↔ left = right := by
  have hscalar := hleft.scalar
  cases left with
  | int | bool | string | null => simp [equal?, equalWithin?]
  | array | hash | function | builtin | error => cases hscalar

namespace Hash

/-- What is filed pair by pair fills a hash well if each insertion does. -/
theorem filled_of_foldlM {good : Value → Prop} {filled : Hash → Prop}
    (hinsert : ∀ {hash : Hash} {key value : Value} {hashKey : HashKey}, filled hash → good key →
      good value → key.hashKey = .ok hashKey → filled (hash.insert hashKey ⟨key, value⟩))
    {pairs : List (Value × Value)} (hpairs : ∀ pair ∈ pairs, good pair.1 ∧ good pair.2)
    {old new : Hash} (hold : filled old)
    (hnew : pairs.foldlM (fun hash (key, value) => file hash key value) old = .ok new) :
    filled new := by
  induction pairs generalizing old with
  | nil =>
    cases hnew
    exact hold
  | cons pair rest ih =>
    obtain ⟨key, value⟩ := pair
    obtain ⟨⟨hkey, hvalue⟩, hrest⟩ := List.forall_mem_cons.mp hpairs
    simp only [List.foldlM_cons, file] at hnew
    cases hhashKey : key.hashKey with
    | error fault =>
      rw [hhashKey] at hnew
      cases hnew
    | ok hashKey =>
      rw [hhashKey] at hnew
      exact ih hrest (hinsert hold hkey hvalue hhashKey) hnew

namespace Filed

variable {hash : Hash} (hhash : hash.Filed) {key : Value} {hashKey : HashKey}
  (hkey : key.hashKey = .ok hashKey)

include hhash hkey

/-- What an entry is filed under depends on the contents of its key and on nothing else. -/
theorem matches_iff (heap : Heap) {entry : HashKey × Entry} (hentry : entry ∈ hash.entries) :
    heap.equal? key entry.2.key = some true ↔ entry.1 = hashKey := by
  rw [heap.equal?_eq_true_iff ⟨hashKey, hkey⟩]
  have hfiled := hhash entry hentry
  constructor
  · rintro rfl
    exact Except.ok.inj (hfiled.symm.trans hkey)
  · rintro rfl
    exact Value.hashKey_injective hkey hfiled

theorem mem_keys_iff (heap : Heap) : hashKey ∈ hash.entries.map Prod.fst ↔
    ∃ entry ∈ hash.entries, heap.equal? key entry.2.key = some true := by
  rw [List.mem_map]
  refine exists_congr fun entry => and_congr_right fun hentry => ?_
  rw [hhash.matches_iff hkey heap hentry]

/-- Looking a key up finds the one entry whose key has the same contents. -/
theorem get?_eq (heap : Heap) :
    (∃ entry ∈ hash.entries, heap.equal? key entry.2.key = some true ∧
      hash.get? hashKey = some entry.2) ∨
    (∀ entry ∈ hash.entries, heap.equal? key entry.2.key ≠ some true) ∧
      hash.get? hashKey = none := by
  cases hget : hash.get? hashKey with
  | some entry =>
    have hentry := IndexedMap.mem_entries_of_get?_eq_some hget
    exact .inl ⟨_, hentry, (hhash.matches_iff hkey heap hentry).mpr rfl, rfl⟩
  | none =>
    refine .inr ⟨fun entry hentry hmatches => ?_, rfl⟩
    have hfound : hash.get? entry.1 = some entry.2 := IndexedMap.get?_of_mem_entries hentry
    rw [(hhash.matches_iff hkey heap hentry).mp hmatches, hget] at hfound
    cases hfound

end Filed

end Hash

/-- The states that come about from a fresh one when programs are evaluated, hashes are made of
pairs, and entries are filed in the hashes that are there, in any order. -/
inductive State.Reached : State → Prop where
  | fresh (output : Output) : Reached ((Session.newScope : Effect Failure Nat).after ⟨{}, output⟩)
  | program {state : State} (hstate : state.Reached) (depth scope : Nat) (stmts : List Stmt) :
      Reached ((evalProgram (runBody depth) scope stmts).after state)
  | newHash {state : State} (hstate : state.Reached) {pairs : List (Value × Value)} {hash : Hash}
      (hpairs : ∀ pair ∈ pairs, state.heap.Has pair.1 ∧ state.heap.Has pair.2)
      (hhash : Hash.ofPairs pairs = .ok hash) :
      Reached { state with heap := (state.heap.newHash hash).2 }
  | insert {state : State} (hstate : state.Reached) {id : Nat} {key value : Value}
      {hashKey : HashKey} (hid : state.heap.Has (.hash id)) (hvalue : state.heap.Has value)
      (hkey : key.hashKey = .ok hashKey) :
      Reached { state with heap := state.heap.insert id hashKey ⟨key, value⟩ }

theorem Heap.Has.offers {heap : Heap} {value : Value} (hvalue : heap.Has value) :
    heap.Offers True value :=
  ⟨hvalue, fun _ => trivial⟩

theorem State.Reached.history {state : State} (hstate : state.Reached) :
    ∃ events, History True (Heap.newScope {} none).2 events state.heap := by
  have hstaged := Chronicled.staged True
  induction hstate with
  | fresh output => exact ⟨[], .nil _⟩
  | @program state hstate depth scope stmts ih =>
    obtain ⟨events, hevents⟩ := ih
    have hidents : ∀ name ∈ idents stmts, name = "set" → True := fun _ _ _ => trivial
    obtain ⟨more, hmore⟩ :=
      history_evalStmts depth scope hidents state (hevents.sound Heap.sound_fresh)
    rw [after_evalProgram]
    exact ⟨events ++ more, hevents.append hmore⟩
  | @newHash state hstate pairs hash hpairs hhash ih =>
    obtain ⟨events, hevents⟩ := ih
    have hgood : ∀ pair ∈ pairs, state.heap.Offers True pair.1 ∧ state.heap.Offers True pair.2 :=
      fun pair hpair => (hpairs pair hpair).imp Heap.Has.offers Heap.Has.offers
    have hpossible : (Event.newHash hash).Possible True state.heap :=
      Hash.filled_of_foldlM hstaged.insert hgood hstaged.empty hhash
    exact ⟨events ++ [.newHash hash], hevents.append (.single hpossible)⟩
  | @insert state hstate id key value hashKey hid hvalue hkey ih =>
    obtain ⟨events, hevents⟩ := ih
    have hoffers : state.heap.Offers True key :=
      hstaged.scalar (Value.Hashable.scalar ⟨hashKey, hkey⟩)
    have hpossible : (Event.insert id key value hashKey).Possible True state.heap :=
      ⟨trivial, hid, hoffers, hvalue.offers, hkey⟩
    exact ⟨events ++ [.insert id key value hashKey], hevents.append (.single hpossible)⟩

/-- Whatever happens to a heap, the entries of its hashes are filed properly. -/
theorem Event.filed_apply {settable : Prop} {heap : Heap} {event : Event}
    (hpossible : event.Possible settable heap) (hheap : ∀ hash ∈ heap.hashes, hash.Filed) :
    ∀ hash ∈ (event.apply heap).hashes, hash.Filed := by
  intro hash hmem
  cases event with
  | bind | newArray | newClosure => exact hheap hash hmem
  | call closure args =>
    rw [apply, Heap.enter_eq] at hmem
    exact hheap hash hmem
  | newHash new =>
    rcases Array.mem_push.mp hmem with hold | rfl
    · exact hheap hash hold
    · exact hpossible.1
  | insert id key value hashKey =>
    obtain ⟨other, hother⟩ := Array.getElem?_of_mem hmem
    rw [apply, Heap.insert, Array.getElem?_modify] at hother
    split at hother
    · obtain ⟨old, hold, rfl⟩ := Option.map_eq_some_iff.mp hother
      exact (hheap old (Array.mem_of_getElem? hold)).insert hpossible.2.2.2.2 value
    · exact hheap hash (Array.mem_of_getElem? hother)

theorem History.filed {settable : Prop} {events : List Event} {heap : Heap}
    (hhistory : History settable (Heap.newScope {} none).2 events heap) :
    ∀ hash ∈ heap.hashes, hash.Filed :=
  hhistory.keeps (I := fun heap => ∀ hash ∈ heap.hashes, hash.Filed) (fun _ _ => Event.filed_apply)
    fun hash hmem => absurd hmem (Array.not_mem_empty hash)

section

variable {heap : Heap} {id : Nat} {hash : Hash} (hid : heap.hashes[id]? = some hash)

include hid

theorem Heap.getElem?_hashes_insert (hashKey : HashKey) (entry : Entry) :
    (heap.insert id hashKey entry).hashes[id]? = some (hash.insert hashKey entry) := by
  rw [Heap.insert, Array.getElem?_modify, if_pos rfl, hid, Option.map_some]

theorem Heap.subscript_hash {index : Value} {hashKey : HashKey}
    (hindex : index.hashKey = .ok hashKey) : heap.subscript (.hash id) index =
      .ok (((hash.get? hashKey).map Entry.value).getD .null) := by
  rw [Heap.subscript, hindex, Heap.contents_of_getElem? hid]
  rfl

/-- A subscript gives the value of the entry whose key has the same contents, if there is one. -/
theorem Hash.Filed.subscript_eq_iff (hhash : hash.Filed) {index : Value}
    (hindex : index.Hashable) (value : Value) : heap.subscript (.hash id) index = .ok value ↔
      (∃ entry ∈ hash.entries, heap.equal? index entry.2.key = some true ∧
        entry.2.value = value) ∨
      (∀ entry ∈ hash.entries, heap.equal? index entry.2.key ≠ some true) ∧ value = .null := by
  obtain ⟨hashKey, hkey⟩ := hindex
  rw [Heap.subscript_hash hid hkey, Except.ok.injEq]
  rcases hhash.get?_eq hkey heap with ⟨found, hfound, hmatches, hget⟩ | ⟨habsent, hget⟩
  · rw [hget]
    constructor
    · intro hvalue
      exact .inl ⟨found, hfound, hmatches, hvalue⟩
    · rintro (⟨entry, hentry, hmatches', hvalue⟩ | ⟨habsent, -⟩)
      · have hget' : hash.get? entry.1 = some entry.2 := IndexedMap.get?_of_mem_entries hentry
        rw [(hhash.matches_iff hkey heap hentry).mp hmatches', hget] at hget'
        rw [Option.some.inj hget']
        exact hvalue
      · exact absurd hmatches (habsent found hfound)
  · rw [hget]
    constructor
    · intro hvalue
      exact .inr ⟨habsent, hvalue.symm⟩
    · rintro (⟨entry, hentry, hmatches, -⟩ | ⟨-, hvalue⟩)
      · exact absurd hmatches (habsent entry hentry)
      · exact hvalue.symm

/-- Filing an entry changes what is found under its key and nothing else. -/
theorem Heap.subscript_insert {key index : Value} {hashKey : HashKey}
    (hkey : key.hashKey = .ok hashKey) (hindex : index.Hashable) {old : Value}
    (hold : heap.subscript (.hash id) index = .ok old) (value : Value) :
    (heap.insert id hashKey ⟨key, value⟩).subscript (.hash id) index =
      .ok (if heap.equal? index key = some true then value else old) := by
  obtain ⟨indexKey, hindexKey⟩ := hindex
  rw [Heap.subscript_hash hid hindexKey] at hold
  rw [Heap.subscript_hash (Heap.getElem?_hashes_insert hid hashKey _) hindexKey,
    IndexedMap.get?_insert]
  by_cases hsame : index = key
  · subst hsame
    cases hindexKey.symm.trans hkey
    rw [if_pos rfl, if_pos ((heap.equal?_eq_true_iff ⟨_, hkey⟩ _).mpr rfl)]
    rfl
  · have hne : indexKey ≠ hashKey := by
      rintro rfl
      exact hsame (Value.hashKey_injective hindexKey hkey)
    rw [if_neg hne, hold, if_neg fun hequal => hsame
      ((heap.equal?_eq_true_iff ⟨_, hindexKey⟩ _).mp hequal)]

end

theorem apply_set {run : Nat → Block → Eval Value} {id : Nat} {key : Value} {hashKey : HashKey}
    (hkey : key.hashKey = .ok hashKey) (value : Value) (state : State) :
    apply run (.builtin .set) [.hash id, key, value] state =
      .ok .null { state with heap := state.heap.insert id hashKey ⟨key, value⟩ } := by
  simp only [apply, Builtin.call, Builtin.callSet, hkey]
  rfl

/-- A hash is the same hash under all its names. -/
theorem evalExpr_index {run : Nat → Block → Eval Value} {scope id : Nat} {handle expr : Expr}
    {index : Value} {state middle after : State}
    (hhandle : evalExpr run scope handle state = .ok (.hash id) middle)
    (hexpr : evalExpr run scope expr middle = .ok index after)
    (hsame : after.heap.contents id = state.heap.contents id) {value : Value}
    (hvalue : state.heap.subscript (.hash id) index = .ok value) :
    evalExpr run scope (.index handle expr) state = .ok value after := by
  have hvalue' : after.heap.subscript (.hash id) index = .ok value := by
    rw [← hvalue, Heap.subscript, Heap.subscript, hsame]
  simp only [evalExpr, bind, EStateM.bind, hhandle, hexpr, Effect.heap, hvalue']
  rfl

/-- Hashes are finite maps, whatever was done before. Every key occurs once and belongs to the entry
filed under it. So a subscript finds the entry whose key has the contents of the index, and after
`set` it finds the new value there and what it found before everywhere else, by whichever way one
gets hold of the hash. The hash grows if no key had those contents. -/
theorem hashes_are_finite_maps {state : State} (hstate : state.Reached) :
    (∀ hash ∈ state.heap.hashes, (hash.entries.map Prod.fst).Nodup ∧
      ∀ entry ∈ hash.entries, entry.2.key.hashKey = .ok entry.1) ∧
    ∀ (id : Nat) (hash : Hash), state.heap.hashes[id]? = some hash →
      (∀ index value, index.Hashable → (state.heap.subscript (.hash id) index = .ok value ↔
        (∃ entry ∈ hash.entries, state.heap.equal? index entry.2.key = some true ∧
          entry.2.value = value) ∨
        (∀ entry ∈ hash.entries, state.heap.equal? index entry.2.key ≠ some true) ∧
          value = .null)) ∧
      ∀ (run : Nat → Block → Eval Value) (key value : Value), key.Hashable →
        ∃ after, apply run (.builtin .set) [.hash id, key, value] state = .ok .null after ∧
          (∃ new, after.heap.hashes[id]? = some new ∧ new.size =
            if ∃ entry ∈ hash.entries, state.heap.equal? key entry.2.key = some true
            then hash.size else hash.size + 1) ∧
          ∀ index, index.Hashable → ∃ old, state.heap.subscript (.hash id) index = .ok old ∧
            let found := if state.heap.equal? index key = some true then value else old
            after.heap.subscript (.hash id) index = .ok found ∧
            (index.type ≠ key.type → found = old) ∧
            ∀ scope handle expr middle last,
              evalExpr run scope handle after = .ok (.hash id) middle →
              evalExpr run scope expr middle = .ok index last →
              last.heap.contents id = after.heap.contents id →
                evalExpr run scope (.index handle expr) after = .ok found last := by
  obtain ⟨events, hevents⟩ := hstate.history
  refine ⟨fun hash hmem => ⟨hash.nodup_keys, hevents.filed hash hmem⟩, fun id hash hid => ?_⟩
  have hfiled := hevents.filed hash (Array.mem_of_getElem? hid)
  refine ⟨fun index value hindex => hfiled.subscript_eq_iff hid hindex value, ?_⟩
  rintro run key value ⟨hashKey, hkey⟩
  refine ⟨_, apply_set hkey value state, ⟨_, Heap.getElem?_hashes_insert hid hashKey _, ?_⟩, ?_⟩
  · rw [IndexedMap.size_insert]
    simp only [hfiled.mem_keys_iff hkey state.heap]
  · intro index hindex
    obtain ⟨indexKey, hindexKey⟩ := hindex
    have hold := Heap.subscript_hash hid hindexKey
    have hnew := Heap.subscript_insert hid hkey ⟨indexKey, hindexKey⟩ hold value
    refine ⟨_, hold, hnew, fun htype => if_neg fun hequal => ?_, ?_⟩
    · rw [(state.heap.equal?_eq_true_iff ⟨indexKey, hindexKey⟩ key).mp hequal] at htype
      exact htype rfl
    · intro scope handle expr middle last hhandle hexpr hsame
      exact evalExpr_index hhandle hexpr hsame hnew

/-- A hash has two names. What is set through one of them is found through the other, and the string
of the same digits finds nothing. -/
theorem hashes_are_finite_maps_alias :
    let stmts := (Program.parse "let a = \x7b1: 2, true: 3\x7d; let b = a").stmts
    let state := (evalProgram (runBody 1) 0 stmts).after ⟨(Heap.newScope {} none).2, {}⟩
    state.Reached ∧ state.heap.lookup "b" 0 = some (.hash 0) ∧
      ∃ after, apply (runBody 1) (.builtin .set) [.hash 0, .int 1, .int 5] state = .ok .null after ∧
        evalExpr (runBody 1) 0 (.index (.ident "b") (.int 1)) after = .ok (.int 5) after ∧
        evalExpr (runBody 1) 0 (.index (.ident "b") (.bool true)) after = .ok (.int 3) after ∧
        evalExpr (runBody 1) 0 (.index (.ident "b") (.string "1")) after = .ok .null after := by
  intro stmts state
  have hstate : state.Reached := (State.Reached.fresh {}).program 1 0 stmts
  have hb : state.heap.lookup "b" 0 = some (.hash 0) := by decide +kernel
  obtain ⟨hash, hhash⟩ : ∃ hash, state.heap.hashes[0]? = some hash :=
    Option.isSome_iff_exists.mp (by decide +kernel)
  obtain ⟨after, hset, -, hindex⟩ := ((hashes_are_finite_maps hstate).2 0 hash hhash).2 (runBody 1)
    (.int 1) (.int 5) ⟨_, rfl⟩
  have hhandle : evalExpr (runBody 1) 0 (.ident "b") after = .ok (.hash 0) after := by
    cases (apply_set rfl _ state).symm.trans hset
    simp only [evalExpr, resolve_eq, Effect.read, bind, EStateM.bind]
    have hb : (state.heap.insert 0 (.int 1) ⟨.int 1, .int 5⟩).lookup "b" 0 = some (.hash 0) := by
      decide +kernel
    rw [hb]
    rfl
  refine ⟨hstate, hb, after, hset, ?_, ?_, ?_⟩
  · obtain ⟨old, -, -, -, hfound⟩ := hindex (.int 1) ⟨_, rfl⟩
    rw [if_pos ((state.heap.equal?_eq_true_iff ⟨_, rfl⟩ _).mpr rfl)] at hfound
    exact hfound 0 _ (.int 1) after after hhandle (by rw [evalExpr]; rfl) rfl
  · obtain ⟨old, hold, -, hother, hfound⟩ := hindex (.bool true) ⟨_, rfl⟩
    have hthree : (state.heap.subscript (.hash 0) (.bool true)).toOption = some (.int 3) := by
      decide +kernel
    rw [hold] at hthree
    cases hthree
    rw [hother (by decide)] at hfound
    exact hfound 0 _ (.bool true) after after hhandle (by rw [evalExpr]; rfl) rfl
  · obtain ⟨old, hold, -, hother, hfound⟩ := hindex (.string "1") ⟨_, rfl⟩
    have hnull : (state.heap.subscript (.hash 0) (.string "1")).toOption = some .null := by
      decide +kernel
    rw [hold] at hnull
    cases hnull
    rw [hother (by decide)] at hfound
    exact hfound 0 _ (.string "1") after after hhandle (by rw [evalExpr]; rfl) rfl

end MonkeyLang
