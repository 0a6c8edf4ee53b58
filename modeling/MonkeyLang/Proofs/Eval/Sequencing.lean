import MonkeyLang.Proofs.Eval.Cleanness

namespace MonkeyLang

section

variable (run : Nat → Block → Eval Value) (scope : Nat)

/-- The statements of a program as a loop that carries the value of the last one. What stops a
statement is the value of the program at once. -/
def programLoop (last : Option Value) : List Stmt → Eval (Option Value)
  | [] => return last
  | stmt :: rest => fun state =>
    match evalStmt run scope stmt state with
    | .ok value middle => programLoop value rest middle
    | .error (.ret value) after => .ok (some value) after
    | .error (.fault fault) after => .ok (some (.error fault)) after
    | .error .exhausted after => .error .exhausted after

/-- The statements of a block as a loop that carries a value all the time. It is null after a
statement without a value, and a signal goes through. -/
def blockLoop (last : Value) : List Stmt → Eval Value
  | [] => return last
  | stmt :: rest => do
    let value ← evalStmt run scope stmt
    blockLoop (value.getD .null) rest

end

variable {run : Nat → Block → Eval Value} {scope : Nat}

private theorem programLoop_eq (last : Option Value) (stmts : List Stmt) (state : State) :
    programLoop run scope last stmts state =
      match evalStmts run scope last stmts state with
      | .error (.ret value) after => .ok (some value) after
      | .error (.fault fault) after => .ok (some (.error fault)) after
      | outcome => outcome := by
  induction stmts generalizing last state with
  | nil =>
    rw [programLoop, evalStmts]
    rfl
  | cons stmt rest ih =>
    simp only [programLoop, evalStmts, bind, EStateM.bind]
    -- A signal ends the loop and nothing is evaluated after it, so it makes no difference whether
    -- it is met inside the loop or behind it.
    cases evalStmt run scope stmt state with
    | ok value middle => exact ih value middle
    | error signal after => cases signal <;> rfl

private theorem blockLoop_eq (last : Option Value) (stmts : List Stmt) :
    blockLoop run scope (last.getD .null) stmts =
      evalStmts run scope last stmts >>= fun value => return value.getD .null := by
  induction stmts generalizing last with
  | nil => rw [blockLoop, evalStmts, pure_bind]
  | cons stmt rest ih => simp only [blockLoop, evalStmts, bind_assoc, ih]

/-- A statement that comes to its end has a value unless it is a `let`. -/
theorem evalStmt_eq_none_iff {stmt : Stmt} {value : Option Value} {state after : State}
    (hstmt : evalStmt run scope stmt state = .ok value after) :
    value = none ↔ ∃ name expr, stmt = .bind name expr := by
  cases stmt with
  | bind name expr =>
    rw [evalStmt] at hstmt
    cases hname : Builtin.ofName? name with
    | some callee =>
      rw [hname] at hstmt
      cases hstmt
    | none =>
      simp only [hname, bind, EStateM.bind] at hstmt
      split at hstmt
      · cases hstmt
        exact ⟨fun _ => ⟨name, expr, rfl⟩, fun _ => rfl⟩
      · cases hstmt
  | ret found =>
    cases found with
    | none =>
      rw [evalStmt] at hstmt
      cases hstmt
    | some expr =>
      simp only [evalStmt, bind, EStateM.bind] at hstmt
      split at hstmt <;> cases hstmt
  | expr expr =>
    simp only [evalStmt, bind, EStateM.bind] at hstmt
    split at hstmt
    · cases hstmt
      simp
    · cases hstmt

/-- Statements that come to their end have a value unless there are none or the last one is a
`let`. -/
theorem evalStmts_eq_none_iff {stmts : List Stmt} {value : Option Value} {state after : State}
    (hstmts : evalStmts run scope none stmts state = .ok value after) :
    value = none ↔ stmts = [] ∨ ∃ name expr, stmts.getLast? = some (.bind name expr) := by
  rcases List.eq_nil_or_concat stmts with rfl | ⟨before, stmt, rfl⟩
  · rw [evalStmts] at hstmts
    cases hstmts
    simp
  · simp only [List.concat_eq_append, evalStmts_append, evalStmts, bind_pure] at hstmts
    simp only [bind, EStateM.bind] at hstmts
    split at hstmts
    · simp [evalStmt_eq_none_iff hstmts]
    · cases hstmts

section

variable {stmts : List Stmt} {state after : State}

theorem evalBlock_eq_ok_iff {value : Value} :
    evalBlock run scope stmts state = .ok value after ↔
      ∃ found, evalStmts run scope none stmts state = .ok found after ∧
        found.getD .null = value := by
  simp only [evalBlock, bind, EStateM.bind]
  cases evalStmts run scope none stmts state with
  | ok found middle => simp [pure, EStateM.pure, and_comm]
  | error signal middle => simp

/-- Statements that are stopped are stopped at the same place whatever follows them. -/
theorem Stops.append {signal : Signal} (hstops : Stops run scope stmts state signal after)
    (more : List Stmt) : Stops run scope (stmts ++ more) state signal after := by
  obtain ⟨before, stmt, rest, value, middle, rfl, hbefore, hstmt⟩ := hstops
  exact ⟨before, stmt, rest ++ more, value, middle, by simp, hbefore, hstmt⟩

/-- What stops a block goes through it. -/
theorem evalBlock_eq_error_iff {signal : Signal} :
    evalBlock run scope stmts state = .error signal after ↔
      Stops run scope stmts state signal after := by
  rw [stops_iff]
  simp only [evalBlock, bind, EStateM.bind]
  cases evalStmts run scope none stmts state with
  | ok found middle => simp [pure, EStateM.pure]
  | error signal middle => simp

/-- What stops a program is its value, unless it was not allowed to go on. -/
theorem evalProgram_of_stops {signal : Signal} :
    Stops run scope stmts state signal after → evalProgram run scope stmts state =
      match signal with
      | .ret value => .ok (some value) after
      | .fault fault => .ok (some (.error fault)) after
      | .exhausted => .error .exhausted after := by
  intro hstops
  rw [evalProgram, stops_iff.mp hstops]
  cases signal <;> rfl

theorem after_evalBlock : (evalBlock run scope stmts).after state =
    (evalStmts run scope none stmts).after state := by
  simp only [Effect.after, evalBlock, bind, EStateM.bind]
  cases evalStmts run scope none stmts state <;> rfl

end

/-- A program and a block are two loops over their statements, and they go through the same states.
A `return` or a fault goes through the block exactly where it becomes the value of the program.
Without one the value of the program is that of the block, but for a program without statements or
with a `let` at its end, which has none where the block is null. If one of the first statements
stops them, the others might as well not be there. -/
theorem blocks_run_as_programs (run : Nat → Block → Eval Value) (scope : Nat) (stmts : List Stmt)
    (state : State) :
    let program := evalProgram run scope stmts state
    let block := evalBlock run scope stmts state
    program = programLoop run scope none stmts state ∧
    block = blockLoop run scope .null stmts state ∧
    (evalProgram run scope stmts).after state = (evalBlock run scope stmts).after state ∧
    (∀ value after, block = .error (.ret value) after ↔
      Stops run scope stmts state (.ret value) after ∧ program = .ok (some value) after) ∧
    (∀ fault after, block = .error (.fault fault) after ↔
      Stops run scope stmts state (.fault fault) after ∧
        program = .ok (some (.error fault)) after) ∧
    (∀ after, block = .error .exhausted after ↔
      Stops run scope stmts state .exhausted after ∧ program = .error .exhausted after) ∧
    (∀ value after, block = .ok value after →
      (program = .ok (some value) after ∨ program = .ok none after ∧ value = .null) ∧
      (program = .ok none after ↔
        stmts = [] ∨ ∃ name expr, stmts.getLast? = some (.bind name expr))) ∧
    ∀ first second, stmts = first ++ second →
      ∀ signal after, Stops run scope first state signal after →
        program = evalProgram run scope first state ∧ block = evalBlock run scope first state ∧
          (evalProgram run scope stmts).after state = after := by
  intro program block
  have hstops {signal : Signal} {after : State} : block = .error signal after ↔
      Stops run scope stmts state signal after := evalBlock_eq_error_iff
  refine ⟨(programLoop_eq none stmts state).symm, ?_, ?_, ?_, ?_, ?_, ?_, ?_⟩
  · exact congrFun (blockLoop_eq none stmts).symm state
  · rw [after_evalProgram, after_evalBlock]
  · exact fun value after => hstops.trans (and_iff_left_of_imp evalProgram_of_stops).symm
  · exact fun fault after => hstops.trans (and_iff_left_of_imp evalProgram_of_stops).symm
  · exact fun after => hstops.trans (and_iff_left_of_imp evalProgram_of_stops).symm
  · intro value after hblock
    obtain ⟨found, hstmts, hvalue⟩ := evalBlock_eq_ok_iff.mp hblock
    have hprogram : program = .ok found after := by
      simp only [program, evalProgram, hstmts]
    rw [hprogram, ← evalStmts_eq_none_iff hstmts, ← hvalue]
    cases found <;> simp
  · rintro first second rfl signal after hfirst
    have hwhole := hfirst.append second
    refine ⟨(evalProgram_of_stops hwhole).trans (evalProgram_of_stops hfirst).symm, ?_, ?_⟩
    · exact (hstops.mpr hwhole).trans (evalBlock_eq_error_iff.mpr hfirst).symm
    · rw [after_evalProgram, Effect.after, stops_iff.mp hwhole]

/-- A `return` stops the statements before they write anything. Up to the `let` before it the
program has no value, and the block is null. -/
theorem blocks_run_as_programs_early :
    let state : State := ⟨(Heap.newScope {} none).2, {}⟩
    let first : List Stmt := [.bind "a" (.int 1), .ret (some (.ident "a"))]
    let second : List Stmt := [.expr (.call (.ident "puts") [.ident "a"])]
    (∃ after, Stops (runBody 0) 0 first state (.ret (.int 1)) after ∧
      evalProgram (runBody 0) 0 (first ++ second) state = .ok (some (.int 1)) after ∧
      evalBlock (runBody 0) 0 (first ++ second) state = .error (.ret (.int 1)) after) ∧
    ∃ after, evalBlock (runBody 0) 0 (first.take 1) state = .ok .null after ∧
      evalProgram (runBody 0) 0 (first.take 1) state = .ok none after := by
  intro state first second
  have hsignal : (match evalStmts (runBody 0) 0 none first state with
      | .ok _ _ => none
      | .error signal _ => some signal) = some (.ret (.int 1)) := by decide +kernel
  have hnull : (match evalBlock (runBody 0) 0 (first.take 1) state with
      | .ok value _ => some value
      | .error _ _ => none) = some .null := by decide +kernel
  constructor
  · cases hfirst : evalStmts (runBody 0) 0 none first state with
    | ok value after => simp [hfirst] at hsignal
    | error signal after =>
      simp only [hfirst, Option.some.injEq] at hsignal
      subst hsignal
      have hstops := stops_iff.mpr hfirst
      obtain ⟨-, -, -, hreturn, -⟩ := blocks_run_as_programs (runBody 0) 0 first state
      obtain ⟨-, -, -, -, -, -, -, hsplit⟩ :=
        blocks_run_as_programs (runBody 0) 0 (first ++ second) state
      obtain ⟨hprogram, hblock, -⟩ := hsplit first second rfl _ after hstops
      have hreturned := (hreturn (.int 1) after).mpr ⟨hstops, evalProgram_of_stops hstops⟩
      exact ⟨after, hstops, hprogram.trans (evalProgram_of_stops hstops), hblock.trans hreturned⟩
  · cases hblock : evalBlock (runBody 0) 0 (first.take 1) state with
    | error signal after => simp [hblock] at hnull
    | ok value after =>
      simp only [hblock, Option.some.injEq] at hnull
      subst hnull
      obtain ⟨-, -, -, -, -, -, hends, -⟩ :=
        blocks_run_as_programs (runBody 0) 0 (first.take 1) state
      exact ⟨after, rfl, (hends .null after hblock).2.mpr (.inr ⟨_, _, rfl⟩)⟩

end MonkeyLang
