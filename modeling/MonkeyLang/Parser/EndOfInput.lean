import MonkeyLang.Parser.Step

namespace MonkeyLang.Parser

private theorem settle_of_eof (goal : Goal) (outer : List OpenBlock) (text : String) (expr : Expr)
    (frames : List Frame) :
    settle goal outer ⟨.eof, text⟩ expr frames = settle goal outer .eof expr frames := by
  induction frames generalizing expr with
  | nil => cases outer <;> rfl
  | cons frame frames ih =>
    cases frame with
    | unary op => exact ih (.unary op expr)
    | binary left op => exact ih (.binary left op expr)
    | ternaryNo test yes => exact ih (.ternary test yes expr)
    | _ => rfl

/-- One end of the input is as good as another. -/
theorem Config.step_of_eof (config : Config) (text : String) :
    config.step ⟨.eof, text⟩ = config.step .eof := by
  cases config with
  | between => rfl
  | head part outer =>
    cases part with
    | retValue => cases outer <;> rfl
    | _ => rfl
  | inside focus pending outer =>
    cases focus with
    | after expr => exact settle_of_eof pending.goal outer text expr pending.frames
    | mayElse test yes =>
      exact settle_of_eof pending.goal outer text (.cond test yes none) pending.frames
    | _ => rfl

variable {token : Token} (heof : token.kind = .eof) (next : Config)

include heof

private theorem endStmt_eof (stmt : Stmt) (outer : List OpenBlock) :
    endStmt stmt outer token ≠ .ok (.shift next) := by
  cases outer <;> simp [endStmt, readBetween, heof, Except.map]

private theorem settle_eof (goal : Goal) (outer : List OpenBlock) (expr : Expr)
    (frames : List Frame) : settle goal outer token expr frames ≠ .ok (.shift next) := by
  fun_induction settle goal outer token expr frames with
  | case1 expr => exact endStmt_eof heof next (goal.stmt expr) outer
  | case2 expr op frames ih => exact ih
  | case3 expr left op frames ih => exact ih
  | case4 expr test yes frames ih => exact ih
  | case8 expr head done frames hcomma =>
    cases head <;> simp [ListHead.closing, demand, heof]
  | _ => simp_all [demand]

private theorem readAfter_eof (expr : Expr) (pending : Pending) (outer : List OpenBlock) :
    readAfter expr pending outer token ≠ .ok (.shift next) := by
  simp only [readAfter, heof, BinaryOp.ofKind?]
  exact settle_eof heof next pending.goal outer expr pending.frames

/-- The end of the input is never taken, so a list of tokens that runs out and one that
says so are read alike. -/
theorem Config.step_eof (config : Config) : config.step token ≠ .ok (.shift next) := by
  cases config with
  | between block outer => simp [Config.step, readBetween, heof, Except.map]
  | head part outer =>
    cases part with
    | retValue =>
      simp only [Config.step, readHead, heof]
      exact endStmt_eof heof next (.ret none) outer
    | _ => simp [Config.step, readHead, readStart, readOperand, demand, heof, Except.map]
  | inside focus pending outer =>
    cases focus with
    | after expr => exact readAfter_eof heof next expr pending outer
    | mayElse test yes =>
      simp only [Config.step, readInside, heof]
      exact readAfter_eof heof next (.cond test yes none) pending outer
    | firstItem head =>
      cases head <;>
        simp [Config.step, readInside, readOperand, ListHead.closing, heof, Except.map]
    | _ => simp [Config.step, readInside, readOperand, demand, heof, Except.map]

end MonkeyLang.Parser
