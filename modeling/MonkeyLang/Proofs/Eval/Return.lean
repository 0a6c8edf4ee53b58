import MonkeyLang.Proofs.Eval.Composition

namespace MonkeyLang

open Eval

/-- A computation that never ends in a `return`, whatever else it may end in. -/
def Returnless (α : Type) (effect : Eval α) : Prop :=
  ∀ state value after, effect state ≠ .error (.ret value) after

namespace Returnless

theorem update (change : Heap → Heap) : Returnless Unit (Effect.update change) := by
  intro state value after hreturn
  cases hreturn

theorem allocate (new : Heap → Nat × Heap) : Returnless Nat (Effect.allocate new) := by
  intro state value after hreturn
  cases hreturn

theorem bind {α β : Type} {first : Eval α} {next : α → Eval β} (hfirst : Returnless α first)
    (hnext : ∀ value, Returnless β (next value)) : Returnless β (first >>= next) := by
  intro state value after hreturn
  simp only [Bind.bind, EStateM.bind] at hreturn
  cases hresult : first state with
  | ok found middle =>
    rw [hresult] at hreturn
    exact hnext found middle value after hreturn
  | error signal middle =>
    rw [hresult] at hreturn
    cases hreturn
    exact hfirst state value after hresult

theorem composable : Composable Returnless where
  pure _ _ _ _ hreturn := by cases hreturn
  bind := bind
  fail _ _ _ _ hreturn := by cases hreturn
  heap _ _ _ hreturn := by cases hreturn
  newArray _ := allocate _
  newHash _ := allocate _
  newClosure _ := allocate _

/-- What a builtin function may end in instead of a value is a fault. -/
theorem ofEffect {α : Type} (effect : Effect Fault α) : Returnless α (ofEffect effect) := by
  intro state value after hreturn
  simp only [Eval.ofEffect, EStateM.adaptExcept] at hreturn
  cases hresult : effect state with
  | ok found middle =>
    rw [hresult] at hreturn
    cases hreturn
  | error fault middle =>
    rw [hresult] at hreturn
    cases hreturn

theorem catchReturn (body : Eval Value) : Returnless Value (catchReturn body) := by
  intro state value after hreturn
  rw [Eval.catchReturn] at hreturn
  split at hreturn
  · cases hreturn
  · rename_i hother
    exact hother value after hreturn

/-- A call makes a scope and binds its parameters, which returns nothing, and what its body returns
goes no further. Nothing is asked of the way in which bodies are run. -/
theorem apply (run : Nat → Block → Eval Value) (callee : Value) (args : List Value) :
    Returnless Value (apply run callee args) := by
  refine composable.apply (fun callee args => ofEffect _) ?_ callee args
  intro outer bindings body
  refine bind (allocate _) fun scope => ?_
  exact bind (composable.bindAll (fun _ _ => update _) bindings) fun _ => catchReturn _

theorem allows {stmts : List Stmt} (hstmts : ∀ value, Stmt.ret value ∉ stmts) (scope : Nat) :
    ∀ stmt ∈ stmts, stmt.Allows Returnless scope := by
  intro stmt hmem
  cases stmt with
  | bind name value => exact fun _ => update _
  | ret value => exact absurd hmem (hstmts value)
  | expr value => trivial

end Returnless

/-- A `return` stays inside the call around it. No call ends in one, and other code does so only if
one of its own statements, those outside the function literals in it, is a `return`. -/
theorem returns_stay_in_calls (depth scope : Nat) :
    (∀ callee args, Returnless Value (apply (runBody depth) callee args)) ∧
    (∀ expr : Expr, (∀ value, Stmt.ret value ∉ expr.ownStmts) →
      Returnless Value (evalExpr (runBody depth) scope expr)) ∧
    (∀ stmt : Stmt, (∀ value, Stmt.ret value ∉ stmt.ownStmts) →
      Returnless (Option Value) (evalStmt (runBody depth) scope stmt)) ∧
    ∀ block : Block, (∀ value, Stmt.ret value ∉ ownStmts block) →
      Returnless Value (evalBlock (runBody depth) scope block) := by
  have hP := Returnless.composable
  have happly := Returnless.apply (runBody depth)
  refine ⟨happly, fun expr hexpr => ?_, fun stmt hstmt => ?_, fun block hblock => ?_⟩
  · exact hP.evalExpr happly expr (Returnless.allows hexpr scope)
  · exact hP.evalStmt happly stmt (Returnless.allows hstmt scope)
  · have hstmts := hP.evalStmts happly none block (Returnless.allows hblock scope)
    exact hP.bind hstmts fun _ => hP.pure _

/-- A function returns from inside a block that is an element of an array. The call is an element
of an array too, which is built in spite of the `return`. -/
theorem returns_stay_in_calls_inside_array :
    let function : Expr :=
      .function ["x"] [.expr (.array [.int 1, .cond (.ident "x") [.ret (some (.int 2))] none])]
    let expr : Expr := .array [.call function [.bool true], .call function [.bool false]]
    (∀ value, Stmt.ret value ∉ expr.ownStmts) ∧
      Returnless Value (evalExpr (runBody 1) 0 expr) := by
  intro function expr
  have hown : ∀ value, Stmt.ret value ∉ expr.ownStmts := by
    intro value hmem
    cases hmem
  exact ⟨hown, (returns_stay_in_calls 1 0).2.1 expr hown⟩

end MonkeyLang
