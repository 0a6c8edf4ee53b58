import MonkeyLang.Eval

namespace MonkeyLang

variable {run : Nat → Block → Eval Value} {scope : Nat}

/-- Statements are evaluated one after another, each with the value of the one before it. -/
theorem evalStmts_append (last : Option Value) (stmts more : List Stmt) :
    evalStmts run scope last (stmts ++ more) =
      evalStmts run scope last stmts >>= fun value => evalStmts run scope value more := by
  induction stmts generalizing last with
  | nil => simp only [List.nil_append, evalStmts, pure_bind]
  | cons stmt stmts ih => simp only [List.cons_append, evalStmts, ih, bind_assoc]

/-- The value of statements is that of the last one, so the one before them all counts only if
there are none. -/
theorem evalStmts_of_ne_nil {stmts : List Stmt} (hfilled : stmts ≠ []) (last : Option Value) :
    evalStmts run scope last stmts = evalStmts run scope none stmts := by
  cases stmts with
  | nil => contradiction
  | cons stmt stmts => rw [evalStmts, evalStmts]

/-- One of some statements ends in a signal after those before it have been evaluated. The state
that it leaves behind is the last one, because nothing of what follows it is evaluated. -/
def Stops (run : Nat → Block → Eval Value) (scope : Nat) (stmts : List Stmt) (state : State)
    (signal : Signal) (after : State) : Prop :=
  ∃ before stmt rest value middle, stmts = before ++ stmt :: rest ∧
    evalStmts run scope none before state = .ok value middle ∧
    evalStmt run scope stmt middle = .error signal after

private theorem evalStmts_eq_error_of_stops {stmts : List Stmt} {state after : State}
    {signal : Signal} (hstops : Stops run scope stmts state signal after) :
    evalStmts run scope none stmts state = .error signal after := by
  obtain ⟨before, stmt, rest, value, middle, rfl, hbefore, hstmt⟩ := hstops
  simp only [evalStmts_append, evalStmts, bind, EStateM.bind, hbefore, hstmt]

private theorem stops_of_evalStmts_eq_error {stmts : List Stmt} {last : Option Value}
    {state after : State} {signal : Signal}
    (herror : evalStmts run scope last stmts state = .error signal after) :
    ∃ before stmt rest value middle, stmts = before ++ stmt :: rest ∧
      evalStmts run scope last before state = .ok value middle ∧
      evalStmt run scope stmt middle = .error signal after := by
  induction stmts generalizing last state with
  | nil =>
    rw [evalStmts] at herror
    cases herror
  | cons stmt stmts ih =>
    simp only [evalStmts, bind, EStateM.bind] at herror
    cases hstmt : evalStmt run scope stmt state with
    | error found left =>
      rw [hstmt] at herror
      cases herror
      exact ⟨[], stmt, stmts, last, state, rfl, by rw [evalStmts]; rfl, hstmt⟩
    | ok value middle =>
      simp only [hstmt] at herror
      obtain ⟨before, other, rest, found, left, rfl, hbefore, hother⟩ := ih herror
      refine ⟨stmt :: before, other, rest, found, left, rfl, ?_, hother⟩
      simp only [evalStmts, bind, EStateM.bind, hstmt, hbefore]

/-- Evaluation of statements ends early exactly if one of them stops it. -/
theorem stops_iff {stmts : List Stmt} {state after : State} {signal : Signal} :
    Stops run scope stmts state signal after ↔
      evalStmts run scope none stmts state = .error signal after :=
  ⟨evalStmts_eq_error_of_stops, stops_of_evalStmts_eq_error⟩

end MonkeyLang
