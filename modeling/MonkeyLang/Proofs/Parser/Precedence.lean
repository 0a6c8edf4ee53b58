import MonkeyLang.Parser.Step
import MonkeyLang.Proofs.Grammar

namespace MonkeyLang

/-- How tightly a token holds on to the expression before it. Calls and subscripts hold
tightest, and a token that carries nothing on does not hold at all. -/
def Kind.grip (kind : Kind) : Nat :=
  match kind with
  | lparen | lbracket => 6
  | question => 1
  | kind => ((BinaryOp.ofKind? kind).map BinaryOp.level).getD 0

theorem Kind.grip_eq_zero_iff (kind : Kind) : kind.grip = 0 ↔ kind.continues = false := by
  cases kind <;> decide

namespace BinaryOp

theorem kind_of_ofKind?_eq_some {kind : Kind} {op : BinaryOp} (hop : ofKind? kind = some op) :
    kind = op.kind := by
  cases kind <;> simp_all [ofKind?] <;> subst hop <;> rfl

theorem level_pos (op : BinaryOp) : 0 < op.level := by cases op <;> decide

theorem level_le_four (op : BinaryOp) : op.level ≤ 4 := by cases op <;> decide

theorem grip_kind (op : BinaryOp) : op.kind.grip = op.level := by cases op <;> rfl

end BinaryOp

namespace Parser

/-- The level of the expression that the innermost frame is waiting for. -/
def due : List Frame → Nat
  | .unary _ :: _ => 5
  | .binary _ op :: _ => op.level + 1
  | _ => 0

/-- The level of the expression that a frame becomes once it is complete. -/
def Frame.level : Frame → Nat
  | unary _ => 5
  | binary _ op => op.level
  | ternaryYes _ | ternaryNo _ _ => 0
  | _ => 6

theorem due_le_five (frames : List Frame) : due frames ≤ 5 := by
  unfold due
  split
  · exact Nat.le_refl 5
  · rename_i op _
    have hop := op.level_le_four
    omega
  · exact Nat.zero_le 5

theorem due_eq_zero_of_le_one {frames : List Frame} (hdue : due frames ≤ 1) : due frames = 0 := by
  unfold due at hdue ⊢
  split at hdue
  · omega
  · rename_i op _
    have hop := op.level_pos
    omega
  · rfl

/-- Nothing is complete while the innermost frame waits for something looser. -/
theorem reduce_eq_self {level : Nat} {frames : List Frame} (hdue : due frames ≤ level)
    (hlevel : level ≤ 4) (expr : Expr) : reduce level expr frames = (expr, frames) := by
  unfold due at hdue
  unfold reduce
  split
  · simp only at hdue
    omega
  · simp only at hdue
    rw [if_neg (by omega)]
  · rfl

theorem readAfter_operator (op : BinaryOp) (symbol : String) (expr : Expr) (pending : Pending)
    (outer : List OpenBlock) :
    readAfter expr pending outer ⟨op.kind, symbol⟩ =
      .ok (.shift (.inside .operand
        ⟨pending.goal, .binary (reduce op.level expr pending.frames).1 op ::
          (reduce op.level expr pending.frames).2⟩ outer)) := by
  cases op <;> rfl

end Parser

end MonkeyLang
