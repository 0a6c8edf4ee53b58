import MonkeyLang.Proofs.Eval.Composition
import MonkeyLang.Proofs.OrderedMap

namespace MonkeyLang

open Eval

/-- Bindings in which only some names were bound anew. All names stay in their order, and those
that were not bound before come last. -/
structure Rebound (targets : String → Prop) (old new : OrderedMap String Value) : Prop where
  names : old.keys <+: new.keys
  added : ∀ name ∈ new.keys, name ∈ old.keys ∨ targets name
  kept : ∀ name, ¬ targets name → new.get? name = old.get? name

namespace Rebound

variable {targets : String → Prop}

theorem refl (bindings : OrderedMap String Value) : Rebound targets bindings bindings :=
  ⟨List.prefix_rfl, fun _ hname => .inl hname, fun _ _ => rfl⟩

theorem trans {old middle new : OrderedMap String Value} (hfirst : Rebound targets old middle)
    (hsecond : Rebound targets middle new) : Rebound targets old new := by
  refine ⟨hfirst.names.trans hsecond.names, ?_, ?_⟩
  · intro name hname
    rcases hsecond.added name hname with hmiddle | htarget
    · exact hfirst.added name hmiddle
    · exact .inr htarget
  · intro name hname
    rw [hsecond.kept name hname, hfirst.kept name hname]

theorem insert (bindings : OrderedMap String Value) {name : String} (htarget : targets name)
    (value : Value) : Rebound targets bindings (bindings.insert name value) := by
  have hkeys := bindings.keys_insert name value
  refine ⟨?_, ?_, ?_⟩
  · rw [hkeys]
    split
    · exact List.prefix_rfl
    · exact List.prefix_append _ _
  · intro other hother
    rw [hkeys] at hother
    split at hother
    · exact .inl hother
    · rcases List.mem_append.mp hother with hold | hnew
      · exact .inl hold
      · rw [List.mem_singleton.mp hnew]
        exact .inr htarget
  · intro other hother
    refine bindings.get?_insert_of_ne ?_ value
    rintro rfl
    exact hother htarget

end Rebound

/-- The scopes of a heap are all there afterwards, as they were. -/
def Heap.Keeps (before after : Heap) : Prop :=
  ∀ (i : Nat) (old : Scope), before.scopes[i]? = some old → after.scopes[i]? = some old

/-- The scopes of a heap are all there afterwards. They are as they were, but for the given one,
in which some names were bound. -/
structure Heap.Frame (scope : Nat) (targets : String → Prop) (before after : Heap) : Prop where
  others : ∀ (i : Nat) (old : Scope), i ≠ scope →
    before.scopes[i]? = some old → after.scopes[i]? = some old
  own : ∀ old, before.scopes[scope]? = some old → ∃ new, after.scopes[scope]? = some new ∧
    new.outer = old.outer ∧ Rebound targets old.bindings new.bindings

namespace Heap

variable {scope : Nat} {targets : String → Prop} {before middle after : Heap}

theorem Keeps.of_scopes_eq (hscopes : after.scopes = before.scopes) : before.Keeps after := by
  intro i old hold
  rw [hscopes, hold]

theorem Keeps.trans (hfirst : before.Keeps middle) (hsecond : middle.Keeps after) :
    before.Keeps after :=
  fun i old hold => hsecond i old (hfirst i old hold)

theorem Keeps.frame (hkeeps : before.Keeps after) : Frame scope targets before after :=
  ⟨fun i old _ hold => hkeeps i old hold,
    fun old hold => ⟨old, hkeeps scope old hold, rfl, .refl old.bindings⟩⟩

theorem Frame.trans (hfirst : Frame scope targets before middle)
    (hsecond : Frame scope targets middle after) : Frame scope targets before after := by
  refine ⟨?_, ?_⟩
  · intro i old hne hold
    exact hsecond.others i old hne (hfirst.others i old hne hold)
  · intro old hold
    obtain ⟨between, hbetween, houter, hbindings⟩ := hfirst.own old hold
    obtain ⟨new, hnew, houter', hbindings'⟩ := hsecond.own between hbetween
    exact ⟨new, hnew, houter'.trans houter, hbindings.trans hbindings'⟩

theorem Frame.define (heap : Heap) {name : String} (htarget : targets name) (value : Value) :
    Frame scope targets heap (heap.define scope name value) := by
  refine ⟨?_, ?_⟩
  · intro i old hne hold
    rw [Heap.define, Array.getElem?_modify, if_neg (Ne.symm hne), hold]
  · intro old hold
    rw [Heap.define, Array.getElem?_modify, if_pos rfl, hold]
    exact ⟨_, rfl, rfl, .insert old.bindings htarget value⟩

/-- Whatever happens in a new scope, those from before it are as they were. -/
theorem Frame.keeps_of_newScope {heap : Heap} {outer : Option Nat}
    (hframe : Frame (heap.newScope outer).1 targets (heap.newScope outer).2 after) :
    heap.Keeps after := by
  intro i old hold
  obtain ⟨hi, -⟩ := Array.getElem?_eq_some_iff.mp hold
  refine hframe.others i old (Nat.ne_of_lt hi) ?_
  rw [newScope, Array.getElem?_push, if_neg (Nat.ne_of_lt hi), hold]

end Heap

open Heap

theorem keeps_composable : Composable fun _ effect => effect.Along Keeps :=
  .of_preorder (fun _ => Keeps.of_scopes_eq rfl) Keeps.trans (fun _ _ => Keeps.of_scopes_eq rfl)
    (fun _ _ => Keeps.of_scopes_eq rfl) fun _ _ => Keeps.of_scopes_eq rfl

theorem frame_composable (scope : Nat) (targets : String → Prop) :
    Composable fun _ effect => effect.Along (Frame scope targets) := by
  have hsame {before after : Heap} (hscopes : after.scopes = before.scopes) :
      Frame scope targets before after := (Keeps.of_scopes_eq hscopes).frame
  exact .of_preorder (fun _ => hsame rfl) Frame.trans (fun _ _ => hsame rfl) (fun _ _ => hsame rfl)
    fun _ _ => hsame rfl

theorem after_catchReturn (body : Eval Value) (state : State) :
    (catchReturn body).after state = body.after state := by
  simp only [Effect.after, catchReturn]
  cases body state with
  | ok value after => rfl
  | error signal after => cases signal <;> rfl

theorem heap_after_putLine (arg : Value) (state : State) :
    ((ofEffect (Builtin.putLine arg)).after state).heap = state.heap := by
  simp only [Builtin.putLine, ofEffect, EStateM.adaptExcept, Effect.after, bind, EStateM.bind,
    Effect.heap, Effect.print]
  cases state.heap.printLine arg state.output <;> rfl

/-- Whatever a call does happens in a scope that is not there before, so it changes none of the
scopes that are: not that of the caller, nor that of the closure, nor those of earlier calls. -/
theorem apply_keeps {run : Nat → Block → Eval Value}
    (hrun : ∀ scope body, (run scope body).Along (Frame scope fun _ => True)) (callee : Value)
    (args : List Value) : (apply run callee args).Along Keeps := by
  refine keeps_composable.apply ?_ ?_ callee args
  · refine keeps_composable.call ?_ ?_
    · intro id key entry state
      exact Keeps.of_scopes_eq rfl
    · intro arg state
      exact Keeps.of_scopes_eq (by rw [heap_after_putLine])
  · intro outer bindings body state
    -- The parameters and the body bind names, but all of them in the scope of the call.
    have hinside (scope : Nat) :
        (do bindAll scope bindings; catchReturn (run scope body)).Along
          (Frame scope fun _ => True) := by
      have hbindAll := (frame_composable scope fun _ => True).bindAll
        (fun _ value state => Frame.define state.heap trivial value) bindings
      refine (frame_composable scope _).bind hbindAll fun _ state => ?_
      rw [after_catchReturn]
      exact hrun scope body state
    exact (hinside _ ⟨(state.heap.newScope (some outer)).2, state.output⟩).keeps_of_newScope

private theorem apply_frame {run : Nat → Block → Eval Value}
    (hrun : ∀ scope body, (run scope body).Along (Frame scope fun _ => True)) (scope : Nat)
    (targets : String → Prop) (callee : Value) (args : List Value) :
    (apply run callee args).Along (Frame scope targets) :=
  fun state => (apply_keeps hrun callee args state).frame

private theorem allows_frame {scope : Nat} {targets : String → Prop} {stmt : Stmt}
    (htargets : ∀ name value, stmt = .bind name value → targets name) :
    stmt.Allows (fun _ effect => effect.Along (Frame scope targets)) scope := by
  cases stmt with
  | bind name value =>
    exact fun found state => Frame.define state.heap (htargets name value rfl) found
  | ret value => exact fun _ state => (Keeps.of_scopes_eq rfl).frame
  | expr value => trivial

theorem runBody_frame (depth scope : Nat) (body : Block) :
    (runBody depth scope body).Along (Frame scope fun _ => True) := by
  induction depth generalizing scope body with
  | zero => exact fun state => (Keeps.of_scopes_eq rfl).frame
  | succ depth ih =>
    have hP := frame_composable scope fun _ => True
    have hstmts := hP.evalStmts (apply_frame ih scope _) none body fun _ _ =>
      allows_frame fun _ _ _ => trivial
    exact hP.bind hstmts fun _ => hP.pure _

/-- The names that the `let` statements among some statements bind. -/
def LetTarget (stmts : List Stmt) (name : String) : Prop := ∃ value, Stmt.bind name value ∈ stmts

private theorem allows_letTarget {stmts : List Stmt} {scope : Nat} :
    ∀ stmt ∈ stmts,
      stmt.Allows (fun _ effect => effect.Along (Frame scope (LetTarget stmts))) scope := by
  intro stmt hmem
  refine allows_frame fun name value hstmt => ⟨value, ?_⟩
  rw [← hstmt]
  exact hmem

/-- Evaluation touches no scope but the one it happens in, and there it only binds the targets of
its own `let` statements. A call touches no scope that is there already. -/
theorem evaluation_is_framed (depth scope : Nat) :
    (∀ expr : Expr, (evalExpr (runBody depth) scope expr).Along
      (Frame scope (LetTarget expr.ownStmts))) ∧
    (∀ stmt : Stmt, (evalStmt (runBody depth) scope stmt).Along
      (Frame scope (LetTarget stmt.ownStmts))) ∧
    (∀ block : Block, (evalBlock (runBody depth) scope block).Along
      (Frame scope (LetTarget (ownStmts block)))) ∧
    ∀ callee args, (apply (runBody depth) callee args).Along Keeps := by
  have happly := apply_frame (runBody_frame depth) scope
  refine ⟨fun expr => ?_, fun stmt => ?_, fun block => ?_, apply_keeps (runBody_frame depth)⟩
  · exact (frame_composable scope _).evalExpr (happly _) expr allows_letTarget
  · exact (frame_composable scope _).evalStmt (happly _) stmt allows_letTarget
  · have hP := frame_composable scope (LetTarget (ownStmts block))
    exact hP.bind (hP.evalStmts (happly _) none block allows_letTarget) fun _ => hP.pure _

end MonkeyLang
