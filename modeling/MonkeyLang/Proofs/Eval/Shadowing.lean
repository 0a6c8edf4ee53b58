import MonkeyLang.Proofs.Eval.Attribution

namespace MonkeyLang

/-- The name of a builtin function stands for it wherever no scope around binds it. -/
theorem evalExpr_builtin {run : Nat → Block → Eval Value} {scope : Nat} {name : String}
    {callee : Builtin} (hcallee : Builtin.ofName? name = some callee) {state : State}
    (hfree : ∀ other, Relation.ReflTransGen state.heap.Encloses scope other →
      name ∉ state.heap.names other) :
    evalExpr run scope (.ident name) state = .ok (.builtin callee) state := by
  have hnone : state.heap.lookup name scope = none := by
    cases hlookup : state.heap.lookup name scope with
    | none => rfl
    | some value =>
      obtain ⟨other, hchain, hname⟩ := Heap.mem_names_of_lookup hlookup
      exact absurd hname (hfree other hchain)
  simp only [evalExpr, resolve_eq, Effect.read, bind, EStateM.bind, hnone, hcallee]
  rfl

/-- It stands for something else only inside a function that has a parameter of that name. -/
theorem Heap.Attributed.evalExpr_builtin {called : List Closure} {state : State}
    (hheap : state.heap.Attributed called) (run : Nat → Block → Eval Value) (scope : Nat)
    {name : String} {callee : Builtin} (hcallee : Builtin.ofName? name = some callee) :
    evalExpr run scope (.ident name) state = .ok (.builtin callee) state ∨
      ∃ outer closure, Relation.ReflTransGen state.heap.Encloses scope outer ∧
        callee? called outer = some closure ∧ name ∈ closure.params := by
  by_cases hbound : ∃ outer, Relation.ReflTransGen state.heap.Encloses scope outer ∧
      name ∈ state.heap.names outer
  · obtain ⟨outer, hchain, hname⟩ := hbound
    obtain ⟨closure, hclosure, hparam⟩ := hheap.names outer name hname (by simp [hcallee])
    exact .inr ⟨outer, closure, hchain, hclosure, hparam⟩
  · refine .inl (MonkeyLang.evalExpr_builtin hcallee fun other hchain hname => ?_)
    exact hbound ⟨other, hchain, hname⟩

/-- The first scope stands inside no other, so nothing ever hides a builtin function there. -/
theorem Heap.Attributed.evalExpr_builtin_zero {called : List Closure} {state : State}
    (hheap : state.heap.Attributed called) (run : Nat → Block → Eval Value) {name : String}
    {callee : Builtin} (hcallee : Builtin.ofName? name = some callee) :
    evalExpr run 0 (.ident name) state = .ok (.builtin callee) state := by
  refine (hheap.evalExpr_builtin run 0 hcallee).resolve_right ?_
  rintro ⟨outer, closure, hchain, hclosure, -⟩
  rcases hchain.cases_head with rfl | ⟨other, hencloses, -⟩
  · cases hclosure
  · obtain ⟨found, hfound, -⟩ := (hheap.outer 0 other).mp hencloses
    cases hfound

private theorem Recorded.snd_catchReturn (body : Recorded Signal Value) (state : State) :
    (body.catchReturn state).2 = (body state).2 := by
  simp only [catchReturn, resume]
  cases (body state).1 with
  | ok value after => exact List.append_nil _
  | error signal after => cases signal <;> exact List.append_nil _

section

variable {depth scope id : Nat} {callee : Expr} {args : List Expr} {state middle after : State}
  {values : List Value} {closure : Closure}
  (hcallee : evalExpr (runBody depth) scope callee state = .ok (.function id) middle)
  (hargs : evalItems (runBody depth) scope args middle = .ok values after)
  (hclosure : after.heap.closures[id]? = some closure)
  (hlength : values.length = closure.params.length)

include hcallee hargs hclosure hlength

/-- A call evaluates the function and then the arguments. It makes a scope for the parameters of
that function, inside the one in which the function was written, and runs its body there. -/
theorem evalExpr_call :
    evalExpr (runBody depth) scope (.call callee args) state =
      Eval.catchReturn (runBody depth after.heap.scopes.size closure.body)
        { after with heap := after.heap.enter closure values } := by
  have harity : Fault.arity? closure.params.length values.length = none := if_pos hlength
  simp only [evalExpr, bind, EStateM.bind, hcallee, hargs]
  rw [apply_function, hclosure]
  simp only [harity]

/-- What is on record of a call is what the function and the arguments come to, then the call
itself, and then what the body comes to. -/
theorem snd_recordExpr_call :
    (recordExpr (recordBody depth) scope (.call callee args) state).2 =
      (recordExpr (recordBody depth) scope callee state).2 ++
        ((recordItems (recordBody depth) scope args middle).2 ++
          .call closure values after ::
            (recordBody depth after.heap.scopes.size closure.body
              { after with heap := after.heap.enter closure values }).2) := by
  have hrun := Records.recordBody depth
  have harity : Fault.arity? closure.params.length values.length = none := if_pos hlength
  have hfirst : (recordExpr (recordBody depth) scope callee state).1 = .ok (.function id) middle :=
    ((Records.recordExpr hrun callee (List.Subset.refl _)).outcome state).trans hcallee
  have hitems : (recordItems (recordBody depth) scope args middle).1 = .ok values after :=
    ((Records.recordItems hrun args (List.Subset.refl _)).outcome middle).trans hargs
  simp only [recordExpr, bind, Recorded.resume, hfirst, hitems]
  rw [recordApply_function, hclosure]
  simp only [harity]
  rw [Recorded.snd_catchReturn]

end

/-- Builtin functions are only ever hidden by parameters. An evaluation may keep a record of the
names that it looks up and binds and of its calls, and is none the different for it. A call goes on
record before the body of its function, which is run in the scope that the call makes for the
parameters. Whatever lines a session has run, its own scope binds no name of a builtin function, so
that each of them stands for its function there. All other scopes are those of the calls on record,
and they bind no such names but those of parameters. A name of a builtin function that is looked up
on the way stands for the function as well, unless a call around it was that of a function with a
parameter of that name. -/
theorem only_parameters_hide_builtins (depth : Nat) (lines : List String) (output : Output) :
    (∀ scope,
      (∀ expr state, (recordExpr (recordBody depth) scope expr state).1 =
        evalExpr (runBody depth) scope expr state) ∧
      ∀ line state, (Session.recordLine depth scope line state).1 =
        Session.run depth scope line state) ∧
    (∀ scope callee args state id middle values after closure,
      evalExpr (runBody depth) scope callee state = .ok (.function id) middle →
      evalItems (runBody depth) scope args middle = .ok values after →
      after.heap.closures[id]? = some closure → values.length = closure.params.length →
        let inside := after.heap.scopes.size
        let entered : State := { after with heap := after.heap.enter closure values }
        evalExpr (runBody depth) scope (.call callee args) state =
          Eval.catchReturn (runBody depth inside closure.body) entered ∧
        (recordExpr (recordBody depth) scope (.call callee args) state).2 =
          (recordExpr (recordBody depth) scope callee state).2 ++
            ((recordItems (recordBody depth) scope args middle).2 ++
              .call closure values after :: (recordBody depth inside closure.body entered).2)) ∧
    let fresh := (Session.newScope : Effect Failure Nat).after ⟨{}, output⟩
    let state := Session.afterLines depth 0 lines fresh
    let moments := Session.moments depth 0 lines fresh
    state.heap.Attributed (callees moments) ∧
    (∀ name callee, Builtin.ofName? name = some callee → name ∉ state.heap.names 0 ∧
      evalExpr (runBody depth) 0 (.ident name) state = .ok (.builtin callee) state) ∧
    ∀ past moment rest, moments = past ++ moment :: rest → moment.Fits past ∧
      ∀ scope name state callee, moment = .name scope name state →
        Builtin.ofName? name = some callee →
          evalExpr (runBody depth) scope (.ident name) state = .ok (.builtin callee) state ∨
            scope ≠ 0 ∧ ∃ outer closure, Relation.ReflTransGen state.heap.Encloses scope outer ∧
              callee? (callees past) outer = some closure ∧ name ∈ closure.params := by
  refine ⟨fun scope => ⟨fun expr state => ?_, fun line => ?_⟩, ?_, ?_⟩
  · exact (Records.recordExpr (Records.recordBody depth) expr (List.Subset.refl _)).outcome state
  · exact (Records.recordLine depth scope line).outcome
  · intro scope callee args state id middle values after closure hcallee hargs hclosure hlength
    constructor
    · exact evalExpr_call hcallee hargs hclosure hlength
    · exact snd_recordExpr_call hcallee hargs hclosure hlength
  intro fresh state moments
  obtain ⟨hmoments, hstate⟩ := Session.inOrder_moments depth lines [] fresh attributed_fresh
  refine ⟨hstate, fun name callee hcallee => ⟨fun hname => ?_, ?_⟩, ?_⟩
  · obtain ⟨closure, hclosure, -⟩ := hstate.names 0 name hname (by simp [hcallee])
    cases hclosure
  · exact hstate.evalExpr_builtin_zero (runBody depth) hcallee
  · rintro past moment rest hsplit
    have hfits : moment.Fits past := by
      have hparts : InOrder [] (past ++ moment :: rest) := hsplit ▸ hmoments
      exact hparts.fits
    refine ⟨hfits, ?_⟩
    rintro scope name state callee rfl hcallee
    by_cases hscope : scope = 0
    · subst hscope
      exact .inl (hfits.1.evalExpr_builtin_zero (runBody depth) hcallee)
    · exact (hfits.1.evalExpr_builtin (runBody depth) scope hcallee).imp_right fun hhidden =>
        ⟨hscope, hhidden⟩

/-- The call of a function that hides `len` goes on record before its body. When such a function is
called and then one that does not hide `len`, the first finds its argument under that name and the
second the builtin function, though the scope of the first call still binds the name. -/
theorem only_parameters_hide_builtins_len :
    let closure : Closure := ⟨["len"], [.expr (.ident "len")], 0⟩
    let callee : Expr := .function ["len"] [.expr (.ident "len")]
    let start : State := ⟨{ scopes := #[{}] }, {}⟩
    let middle : State := ⟨{ scopes := #[{}], closures := #[closure] }, {}⟩
    let inside : State := { middle with heap := middle.heap.enter closure [.int 1] }
    (recordExpr (recordBody 1) 0 (.call callee [.int 1]) start).2 =
      .call closure [.int 1] middle :: (recordBody 1 1 closure.body inside).2 ∧
    let moments : List Moment := Session.moments 1 0
      ["let g = fn(len) \x7b len \x7d; let f = fn(x) \x7b len \x7d", "g(1); f(5)"]
      ((Session.newScope : Effect Failure Nat).after ⟨{}, {}⟩)
    (callees (moments.take 7)).map (fun closure => (closure.params, closure.scope)) =
      [(["len"], 0), (["x"], 0)] ∧
    ∃ first second, moments[4]? = some (.name 1 "len" first) ∧
      first.heap.lookup "len" 1 = some (.int 1) ∧ moments[7]? = some (.name 2 "len" second) ∧
      evalExpr (runBody 1) 2 (.ident "len") second = .ok (.builtin .len) second := by
  intro closure callee start middle inside
  obtain ⟨-, hcalls, -, -, hway⟩ := only_parameters_hide_builtins 1
    ["let g = fn(len) \x7b len \x7d; let f = fn(x) \x7b len \x7d", "g(1); f(5)"] {}
  have hcallee : evalExpr (runBody 1) 0 callee start = .ok (.function 0) middle := rfl
  have hargs : evalItems (runBody 1) 0 [.int 1] middle = .ok [.int 1] middle := rfl
  refine ⟨(hcalls 0 callee [.int 1] start 0 middle _ middle closure hcallee hargs rfl rfl).2, ?_⟩
  intro moments
  have hcalled : (callees (moments.take 7)).map (fun closure => (closure.params, closure.scope)) =
      [(["len"], 0), (["x"], 0)] := by decide +kernel
  have hfirst : (match (moments[4]? : Option Moment) with
      | some (.name scope name state) => some (scope, name, state.heap.lookup name scope)
      | _ => none) = some (1, "len", some (.int 1)) := by decide +kernel
  have hlast : (match (moments[7]? : Option Moment) with
      | some (.name scope name _) => some (scope, name)
      | _ => none) = some (2, "len") := by decide +kernel
  split at hfirst
  case h_2 => cases hfirst
  rename_i first hfourth
  split at hlast
  case h_2 => cases hlast
  rename_i second hseventh
  simp only [Option.some.injEq, Prod.mk.injEq] at hfirst hlast
  obtain ⟨rfl, rfl, hlookup⟩ := hfirst
  obtain ⟨rfl, rfl⟩ := hlast
  refine ⟨hcalled, _, _, hfourth, hlookup, hseventh, ?_⟩
  have hsplit : moments = moments.take 7 ++ .name 2 "len" second :: moments.drop 8 := by
    obtain ⟨hlt, hget⟩ := List.getElem?_eq_some_iff.mp hseventh
    rw [← hget, ← List.drop_eq_getElem_cons hlt, List.take_append_drop]
  obtain ⟨⟨hheap, -⟩, hnames⟩ := hway _ _ _ hsplit
  refine (hnames 2 "len" second .len rfl rfl).resolve_right ?_
  rintro ⟨-, outer, called, hchain, hclosure, hparam⟩
  -- The scope of the second call stands inside the first scope of all, and that is in no other.
  obtain ⟨g, f, hboth⟩ := List.length_eq_two.mp
    ((List.length_map _).symm.trans (congrArg List.length hcalled))
  rw [hboth] at hcalled hclosure hheap
  obtain ⟨-, hparams, hscope⟩ : (g.params = ["len"] ∧ g.scope = 0) ∧
      f.params = ["x"] ∧ f.scope = 0 := by simpa using hcalled
  rcases hchain.cases_head with rfl | ⟨next, hnext, hchain⟩
  · cases hclosure
    rw [hparams] at hparam
    exact absurd hparam (by decide)
  obtain ⟨_, hsecond, rfl⟩ := (hheap.outer 2 next).mp hnext
  cases hsecond
  rw [hscope] at hchain
  rcases hchain.cases_head with rfl | ⟨next, hnext, -⟩
  · cases hclosure
  · obtain ⟨_, hnone, -⟩ := (hheap.outer 0 next).mp hnext
    cases hnone

end MonkeyLang
