import MonkeyLang.Eval

namespace MonkeyLang

open Eval

/-- A computation that comes to whatever another one comes to. It may go its own way only where the
other one gives up because calls are nested too deep. -/
def ExtendedBy {α : Type} (first second : Eval α) : Prop :=
  ∀ state, (∀ after, first state ≠ .error .exhausted after) → second state = first state

/-- Where one way to run the body of a function comes to something, so does another. -/
def DeepenedBy (run deeper : Nat → Block → Eval Value) : Prop :=
  ∀ scope body, ExtendedBy (run scope body) (deeper scope body)

namespace ExtendedBy

theorem refl {α : Type} (effect : Eval α) : ExtendedBy effect effect :=
  fun _ _ => rfl

theorem exhausted {α : Type} (effect : Eval α) : ExtendedBy (throw .exhausted) effect :=
  fun state hends => absurd rfl (hends state)

theorem bind {α β : Type} {first second : Eval α} {next after : α → Eval β}
    (hfirst : ExtendedBy first second) (hnext : ∀ value, ExtendedBy (next value) (after value)) :
    ExtendedBy (first >>= next) (second >>= after) := by
  intro state hends
  simp only [Bind.bind, EStateM.bind] at hends ⊢
  cases hresult : first state with
  | ok value middle =>
    rw [hfirst state (by simp [hresult]), hresult]
    exact hnext value middle (by simpa [hresult] using hends)
  | error signal middle =>
    rw [hfirst state (by simpa [hresult] using hends), hresult]

theorem catchReturn {first second : Eval Value} (hbody : ExtendedBy first second) :
    ExtendedBy (catchReturn first) (catchReturn second) := by
  intro state hends
  simp only [Eval.catchReturn] at hends ⊢
  rw [hbody state fun after hresult => hends after (by rw [hresult])]

section

variable {run deeper : Nat → Block → Eval Value}

/-- Of all values only functions have a body to run. -/
theorem apply (hrun : DeepenedBy run deeper) (callee : Value) (args : List Value) :
    ExtendedBy (apply run callee args) (apply deeper callee args) := by
  cases callee with
  | function id =>
    refine bind (refl _) fun heap => ?_
    split
    · exact refl _
    split
    · exact refl _
    · exact bind (refl _) fun scope => bind (refl _) fun _ => (hrun scope _).catchReturn
  | int | bool | string | null | array | hash | builtin | error => exact refl _

variable {scope : Nat}

mutual

/-- An expression is evaluated in the same steps, whatever runs the bodies of functions. -/
theorem evalExpr (hrun : DeepenedBy run deeper) : (expr : Expr) →
    ExtendedBy (evalExpr run scope expr) (evalExpr deeper scope expr)
  | .ident _ | .int _ | .string _ | .bool _ | .null | .function _ _ => by
    rw [MonkeyLang.evalExpr, MonkeyLang.evalExpr]
    exact refl _
  | .unary op operand => by
    rw [MonkeyLang.evalExpr, MonkeyLang.evalExpr]
    exact bind (evalExpr hrun operand) fun _ => refl _
  | .binary left op right => by
    rw [MonkeyLang.evalExpr, MonkeyLang.evalExpr]
    exact bind (evalExpr hrun left) fun _ => bind (evalExpr hrun right) fun _ => refl _
  | .cond test yes none => by
    rw [MonkeyLang.evalExpr, MonkeyLang.evalExpr]
    refine bind (evalExpr hrun test) fun _ => ?_
    split
    · exact bind (evalStmts hrun none yes) fun _ => refl _
    · exact refl _
  | .cond test yes (some no) => by
    rw [MonkeyLang.evalExpr, MonkeyLang.evalExpr]
    refine bind (evalExpr hrun test) fun _ => ?_
    split
    · exact bind (evalStmts hrun none yes) fun _ => refl _
    · exact bind (evalStmts hrun none no) fun _ => refl _
  | .ternary test yes no => by
    rw [MonkeyLang.evalExpr, MonkeyLang.evalExpr]
    refine bind (evalExpr hrun test) fun _ => ?_
    split
    · exact evalExpr hrun yes
    · exact evalExpr hrun no
  | .call callee args => by
    rw [MonkeyLang.evalExpr, MonkeyLang.evalExpr]
    exact bind (evalExpr hrun callee) fun _ => bind (evalItems hrun args) fun _ => apply hrun _ _
  | .array items => by
    rw [MonkeyLang.evalExpr, MonkeyLang.evalExpr]
    exact bind (evalItems hrun items) fun _ => refl _
  | .hash pairs => by
    rw [MonkeyLang.evalExpr, MonkeyLang.evalExpr]
    exact bind (evalPairs hrun .empty pairs) fun _ => refl _
  | .index left index => by
    rw [MonkeyLang.evalExpr, MonkeyLang.evalExpr]
    exact bind (evalExpr hrun left) fun _ => bind (evalExpr hrun index) fun _ => refl _

theorem evalItems (hrun : DeepenedBy run deeper) : (items : List Expr) →
    ExtendedBy (evalItems run scope items) (evalItems deeper scope items)
  | [] => by
    rw [MonkeyLang.evalItems, MonkeyLang.evalItems]
    exact refl _
  | item :: rest => by
    rw [MonkeyLang.evalItems, MonkeyLang.evalItems]
    exact bind (evalExpr hrun item) fun _ => bind (evalItems hrun rest) fun _ => refl _

theorem evalPairs (hrun : DeepenedBy run deeper) (done : Hash) : (pairs : List (Expr × Expr)) →
    ExtendedBy (evalPairs run scope done pairs) (evalPairs deeper scope done pairs)
  | [] => by
    rw [MonkeyLang.evalPairs, MonkeyLang.evalPairs]
    exact refl _
  | (key, value) :: rest => by
    rw [MonkeyLang.evalPairs, MonkeyLang.evalPairs]
    refine bind (evalExpr hrun key) fun _ => bind (refl _) fun _ => ?_
    exact bind (evalExpr hrun value) fun _ => evalPairs hrun _ rest

theorem evalStmt (hrun : DeepenedBy run deeper) : (stmt : Stmt) →
    ExtendedBy (evalStmt run scope stmt) (evalStmt deeper scope stmt)
  | .bind name value => by
    rw [MonkeyLang.evalStmt, MonkeyLang.evalStmt]
    split
    · exact refl _
    · exact bind (evalExpr hrun value) fun _ => refl _
  | .ret none => by
    rw [MonkeyLang.evalStmt, MonkeyLang.evalStmt]
    exact refl _
  | .ret (some value) => by
    rw [MonkeyLang.evalStmt, MonkeyLang.evalStmt]
    exact bind (evalExpr hrun value) fun _ => refl _
  | .expr value => by
    rw [MonkeyLang.evalStmt, MonkeyLang.evalStmt]
    exact bind (evalExpr hrun value) fun _ => refl _

theorem evalStmts (hrun : DeepenedBy run deeper) (last : Option Value) : (stmts : List Stmt) →
    ExtendedBy (evalStmts run scope last stmts) (evalStmts deeper scope last stmts)
  | [] => by
    rw [MonkeyLang.evalStmts, MonkeyLang.evalStmts]
    exact refl _
  | stmt :: rest => by
    rw [MonkeyLang.evalStmts, MonkeyLang.evalStmts]
    exact bind (evalStmt hrun stmt) fun value => evalStmts hrun value rest

end

theorem evalProgram (hrun : DeepenedBy run deeper) (stmts : List Stmt) :
    ExtendedBy (evalProgram run scope stmts) (evalProgram deeper scope stmts) := by
  intro state hends
  simp only [MonkeyLang.evalProgram] at hends ⊢
  rw [evalStmts hrun none stmts state fun after hresult => hends after (by rw [hresult])]

end

theorem runBody {depth deeper : Nat} (hle : depth ≤ deeper) :
    DeepenedBy (runBody depth) (runBody deeper) := by
  intro scope body
  induction depth generalizing deeper scope body with
  | zero => exact exhausted _
  | succ depth ih =>
    obtain ⟨deeper, rfl⟩ := Nat.exists_eq_add_of_le' (Nat.lt_of_lt_of_le (Nat.succ_pos depth) hle)
    exact bind (evalStmts (ih (Nat.le_of_succ_le_succ hle)) none body) fun _ => refl _

end ExtendedBy

/-- What a program comes to without reaching the bound on calls, it comes to with every larger bound
as well. -/
theorem evalProgram_of_le {depth deeper : Nat} (hle : depth ≤ deeper) (scope : Nat)
    (stmts : List Stmt) {state : State}
    (hends : ∀ after, evalProgram (runBody depth) scope stmts state ≠ .error .exhausted after) :
    evalProgram (runBody deeper) scope stmts state =
      evalProgram (runBody depth) scope stmts state :=
  ExtendedBy.evalProgram (ExtendedBy.runBody hle) stmts state hends

end MonkeyLang
