import MonkeyLang.Proofs.Datum.Equality
import MonkeyLang.Proofs.Datum.Text
import MonkeyLang.Session

namespace MonkeyLang

/-- A computation delivers a result with a property, and no container changes on the way. -/
def Delivers {ε α : Type} (effect : Effect ε α) (post : Heap → α → Prop) (state : State) : Prop :=
  ∃ value after, effect state = .ok value after ∧ state.heap.Extends after.heap ∧
    post after.heap value

namespace Delivers

variable {ε α β : Type} {state : State}

theorem pure {post : Heap → α → Prop} {value : α} (hvalue : post state.heap value) :
    Delivers (Pure.pure value : Effect ε α) post state :=
  ⟨value, state, rfl, .of_eq rfl rfl, hvalue⟩

theorem bind {first : Effect ε α} {next : α → Effect ε β} {middle : Heap → α → Prop}
    {post : Heap → β → Prop} (hfirst : Delivers first middle state)
    (hnext : ∀ value after, state.heap.Extends after.heap → middle after.heap value →
      Delivers (next value) post after) : Delivers (first >>= next) post state := by
  obtain ⟨value, between, hvalue, hbefore, hmiddle⟩ := hfirst
  obtain ⟨result, after, hresult, hafter, hpost⟩ := hnext value between hbefore hmiddle
  refine ⟨result, after, ?_, hbefore.trans hafter, hpost⟩
  simp only [Bind.bind, EStateM.bind, hvalue, hresult]

theorem newArray (items : Sequence Value) :
    Delivers (Effect.allocate (·.newArray items) : Effect ε Nat)
      (fun heap id => heap.arrays[id]? = some items) state :=
  ⟨_, _, rfl, .newArray state.heap items, Array.getElem?_push_size⟩

theorem newHash (hash : Hash) :
    Delivers (Effect.allocate (·.newHash hash) : Effect ε Nat)
      (fun heap id => heap.hashes[id]? = some hash) state :=
  ⟨_, _, rfl, .newHash state.heap hash, Array.getElem?_push_size⟩

end Delivers

section

variable (run : Nat → Block → Eval Value) (scope : Nat) {heap : Heap}

private theorem delivers_atom (atom : Atom) (state : State) :
    Delivers (evalExpr run scope atom.literal) (fun _ value => value = atom.value) state := by
  refine ⟨atom.value, state, ?_, .of_eq rfl rfl, rfl⟩
  cases atom with
  | bool truth => rfl
  | int number =>
    rw [Atom.literal]
    split
    · rfl
    · have hdouble : evalExpr run scope (.unary .negate (.int (-number))) state =
          .ok (.int (- -number)) state := rfl
      rw [hdouble, Int64.neg_neg, Atom.value]

mutual

/-- The literal of what a value stands for makes a copy of it. -/
theorem Heap.Represents.copied : {datum : Datum} → {original : Value} →
    heap.Represents datum original → (state : State) →
    Delivers (evalExpr run scope datum.literal) (fun heap => heap.Represents datum) state
  | _, _, .null, state => .pure .null
  | .atom atom, _, .atom _, state => by
    obtain ⟨value, after, heval, hextends, hvalue⟩ := delivers_atom run scope atom state
    exact ⟨value, after, heval, hextends, .atom hvalue⟩
  | .array items, _, .array _ hitems, state => by
    rw [Datum.literal, evalExpr]
    refine (hitems.copied state).bind fun values middle _ hvalues => ?_
    refine (Delivers.newArray _).bind fun id after hafter hid => ?_
    refine .pure (.array hid ?_)
    rw [Sequence.toList_ofList]
    exact hvalues.persists hafter
  | .hash pairs, _, @Heap.Represents.hash _ _ _ hash _ hpairs, state => by
    rw [Datum.literal, evalExpr]
    -- No key of the literal comes twice, because none did in the hash that it was made from.
    have hkeys := IndexedMap.nodup_keys hash
    refine (hpairs.copied .empty hkeys state).bind fun made middle _ hmade => ?_
    refine (Delivers.newHash made).bind fun id after hafter hid => ?_
    obtain ⟨entries, hentries, hcopies⟩ := hmade
    refine .pure (.hash hid ?_)
    rw [hentries]
    exact hcopies.persists hafter

theorem Heap.RepresentsItems.copied : {items : List Datum} → {originals : List Value} →
    heap.RepresentsItems items originals → (state : State) →
    Delivers (evalItems run scope (itemLiterals items)) (fun heap => heap.RepresentsItems items)
      state
  | _, _, .nil, state => .pure .nil
  | _, _, .cons hitem hitems, state => by
    rw [itemLiterals, evalItems]
    refine (hitem.copied state).bind fun value middle _ hvalue => ?_
    refine (hitems.copied middle).bind fun values after hafter hvalues => ?_
    exact .pure (.cons (hvalue.persists hafter) hvalues)

/-- New keys are filed behind those that are there already. -/
theorem Heap.RepresentsPairs.copied : {pairs : List (Atom × Datum)} →
    {originals : List (HashKey × Entry)} → heap.RepresentsPairs pairs originals → (done : Hash) →
    (done.entries.map Prod.fst ++ originals.map Prod.fst).Nodup → (state : State) →
    Delivers (evalPairs run scope done (pairLiterals pairs))
      (fun heap hash => ∃ entries, hash.entries = done.entries ++ entries ∧
        heap.RepresentsPairs pairs entries) state
  | _, _, .nil, done, _, state => .pure ⟨[], (List.append_nil _).symm, .nil⟩
  | (key, datum) :: pairs, _ :: originals, .cons hhash _ hdatum hpairs, done, hkeys, state => by
    rw [pairLiterals, evalPairs]
    refine (delivers_atom run scope _ state).bind fun value middle _ hvalue => ?_
    subst hvalue
    rw [Atom.hashKey_value]
    have hready : Eval.ofExcept (.ok key.hashKey) = (pure key.hashKey : Eval HashKey) := rfl
    rw [hready, pure_bind]
    refine (hdatum.copied middle).bind fun value between _ hvalue => ?_
    -- The key is not among those filed so far, so its entry goes last, where the pair stands.
    rw [hhash, List.map_cons] at hkeys
    have hentries := IndexedMap.entries_insert_of_absent
      (fun hmem => (List.nodup_append.mp hkeys).2.2 _ hmem _ List.mem_cons_self rfl)
      (⟨key.value, value⟩ : Entry)
    have hmore : ((done.insert key.hashKey ⟨key.value, value⟩).entries.map Prod.fst ++
        originals.map Prod.fst).Nodup := by
      rw [hentries, List.map_append, List.append_assoc]
      exact hkeys
    obtain ⟨hash, after, heval, hafter, entries, hrest, hcopies⟩ := hpairs.copied _ hmore between
    refine ⟨hash, after, heval, hafter, (key.hashKey, ⟨key.value, value⟩) :: entries, ?_, ?_⟩
    · rw [hrest, hentries, List.append_assoc, List.singleton_append]
    · exact .cons rfl rfl (hvalue.persists hafter) hcopies

end

end

namespace Delivers

variable {post : Heap → Option Value → Prop} {state : State}

theorem evaluate {depth scope : Nat} {stmts : List Stmt}
    (hstmts : Delivers (evalStmts (runBody depth) scope none stmts) post state) :
    Delivers (Session.evaluate depth scope stmts) post state := by
  obtain ⟨value, after, heval, hafter, hvalue⟩ := hstmts
  refine ⟨value, after, ?_, hafter, hvalue⟩
  simp only [Session.evaluate, EStateM.adaptExcept, evalProgram, heval]

theorem silently {effect : Effect Failure (Option Value)}
    (heffect : Delivers effect post { state with output := {} }) :
    Delivers (Session.silently effect) post state := by
  obtain ⟨value, after, hresult, hafter, hvalue⟩ := heffect
  refine ⟨value, { after with output := state.output }, ?_, hafter, hvalue⟩
  simp only [Session.silently, hresult]

end Delivers

/-- The value of the text of a datum is a copy of it. -/
theorem Heap.Represents.evalCode {heap : Heap} {datum : Datum} {original : Value}
    (hdatum : heap.Represents datum original) (depth : Nat) (state : State) :
    Delivers (Session.evalCode depth datum.text)
      (fun heap found => ∃ copy, found = some copy ∧ heap.Represents datum copy) state := by
  have hscope : Delivers (Session.newScope : Effect Failure Nat) (fun _ _ => True)
      { state with output := {} } := ⟨_, _, rfl, .of_eq rfl rfl, trivial⟩
  rw [Session.evalCode, parse_text]
  refine .silently (hscope.bind fun scope middle _ _ => .evaluate ?_)
  simp only [evalStmts, evalStmt, bind_assoc, pure_bind]
  refine (hdatum.copied _ scope middle).bind fun copy after _ hcopy => ?_
  exact .pure ⟨copy, rfl, hcopy⟩

/-- Data is read back from its text. The text of a value that stands for a datum is a program
without errors, and its result is a new value that stands for the same datum, with the entries of
hashes in the same order. It is equal to the old one, which is still what it was. -/
theorem data_round_trips {state : State} {datum : Datum} {value : Value}
    (hvalue : state.heap.Represents datum value) (depth : Nat) :
    (Program.parse (state.heap.render value)).errors = [] ∧
    ∃ copy after, Session.evalCode depth (state.heap.render value) state = .ok (some copy) after ∧
      after.heap.Represents datum value ∧ after.heap.Represents datum copy ∧
      after.heap.equal? value copy = some true := by
  rw [hvalue.render]
  refine ⟨by rw [parse_text], ?_⟩
  obtain ⟨_, after, heval, hafter, copy, rfl, hcopy⟩ := hvalue.evalCode depth state
  have hkept := hvalue.persists hafter
  exact ⟨copy, after, heval, hkept, hcopy, hkept.equal? hcopy⟩

/-- An array stands in a hash twice, the second time inside another array and next to an empty
hash. Two numbers are below zero, and one of them is a key. -/
theorem data_round_trips_shared :
    let shared : Datum := .array [.atom (.int (-5) (by decide)), .null]
    let datum : Datum :=
      .hash [(.int (-1) (by decide), shared), (.bool true, .array [shared, .hash []])]
    let hash : Hash := (IndexedMap.empty.insert (.int (-1)) ⟨.int (-1), .array 0⟩).insert
      (.bool true) ⟨.bool true, .array 1⟩
    let heap : Heap :=
      { arrays := #[.ofList [.int (-5), .null], .ofList [.array 0, .hash 0]]
        hashes := #[.empty, hash] }
    let text := "\x7b-1: [-5, null], true: [[-5, null], \x7b\x7d]\x7d"
    heap.Represents datum (.hash 1) ∧ heap.render (.hash 1) = text ∧
      (Program.parse text).errors = [] ∧
      ∃ copy after, Session.evalCode 0 text ⟨heap, {}⟩ = .ok (some copy) after ∧
        after.heap.Represents datum (.hash 1) ∧ after.heap.Represents datum copy ∧
        after.heap.equal? (.hash 1) copy = some true := by
  intro shared datum hash heap text
  have hshared : heap.Represents shared (.array 0) :=
    .array rfl (.cons (.atom rfl) (.cons .null .nil))
  have hnested : heap.Represents (.array [shared, .hash []]) (.array 1) :=
    .array rfl (.cons hshared (.cons (.hash rfl .nil) .nil))
  have hdatum : heap.Represents datum (.hash 1) :=
    .hash rfl (.cons rfl rfl hshared (.cons rfl rfl hnested .nil))
  have htext : heap.render (.hash 1) = text := hdatum.render.trans (by decide +kernel)
  have hcopied := @data_round_trips ⟨heap, {}⟩ datum (.hash 1) hdatum 0
  rw [htext] at hcopied
  exact ⟨hdatum, htext, hcopied⟩

end MonkeyLang
