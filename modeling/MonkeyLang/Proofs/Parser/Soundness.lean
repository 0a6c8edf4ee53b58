import MonkeyLang.Parser.EndOfInput
import MonkeyLang.Program
import MonkeyLang.Proofs.Parser.History

namespace MonkeyLang.Parser

open Grammar

/-- What a step makes of the tokens read so far and one more. A statement is complete before
that token and leaves it in place. -/
def Step.Read (step : Step) (tokens : List Token) (token : Token) : Prop :=
  match step with
  | .shift next => next.Read (tokens ++ [token])
  | .accept stmt => Statement stmt tokens token.kind

theorem demand_eq_ok {wanted : Kind} {token : Token} {next : Config} {step : Step}
    (hstep : demand wanted token next = .ok step) :
    ∃ text, token = ⟨wanted, text⟩ ∧ step = .shift next := by
  unfold demand at hstep
  split at hstep
  · rename_i hkind
    obtain ⟨kind, text⟩ := token
    cases hkind
    cases hstep
    exact ⟨text, rfl, rfl⟩
  · cases hstep

theorem demand_comma_eq_ok {wanted : Kind} {token : Token} {more next : Config} {step : Step}
    (hstep : (if token.kind = .comma then .ok (.shift more) else demand wanted token next) =
      .ok step) :
    ∃ text, token = ⟨.comma, text⟩ ∧ step = .shift more ∨
      token = ⟨wanted, text⟩ ∧ step = .shift next := by
  split at hstep
  · rename_i hkind
    obtain ⟨kind, text⟩ := token
    cases hkind
    cases hstep
    exact ⟨text, .inl ⟨rfl, rfl⟩⟩
  · obtain ⟨text, htoken, hnext⟩ := demand_eq_ok hstep
    exact ⟨text, .inr ⟨htoken, hnext⟩⟩

theorem map_shift_eq_ok {result : Except SyntaxError Config} {step : Step}
    (hstep : result.map Step.shift = .ok step) :
    ∃ next, result = .ok next ∧ step = .shift next := by
  cases result with
  | error error => cases hstep
  | ok next =>
    cases hstep
    exact ⟨next, rfl, rfl⟩

section

variable {outer : List OpenBlock} {os : List Token} {first : Kind}
  (houter : OuterRead outer os first)

include houter

private theorem read_push {pending : Pending} {frame : Frame} {ps fs tokens : List Token}
    (hfirst : BeginsWith tokens first) (hpending : PendingRead pending ps)
    (hframe : FrameRead frame fs) (hlevel : due pending.frames ≤ frame.level)
    (htokens : tokens = ps ++ fs) :
    (Config.inside .operand (pending.push frame) outer).Read (os ++ tokens) :=
  .inside houter hfirst (hpending.push hframe hlevel) .operand (by simp [htokens])

private theorem readOperand_read {pending : Pending} {token : Token} {next : Config}
    {ps : List Token} (hfirst : BeginsWith (ps ++ [token]) first)
    (hpending : PendingRead pending ps) (hread : readOperand pending outer token = .ok next) :
    next.Read (os ++ (ps ++ [token])) := by
  have hdue := due_le_five pending.frames
  obtain ⟨kind, text⟩ := token
  cases kind with
  | ident =>
    cases hread
    exact .inside houter hfirst hpending (.after (.ident text)) rfl
  | int =>
    simp only [readOperand] at hread
    split at hread
    · rename_i value hvalue
      cases hread
      exact .inside houter hfirst hpending (.after (.int hvalue)) rfl
    · cases hread
  | string =>
    cases hread
    exact .inside houter hfirst hpending (.after (.string text)) rfl
  | kwTrue =>
    cases hread
    exact .inside houter hfirst hpending (.after (.yes text)) rfl
  | kwFalse =>
    cases hread
    exact .inside houter hfirst hpending (.after (.no text)) rfl
  | kwNull =>
    cases hread
    exact .inside houter hfirst hpending (.after (.null text)) rfl
  | bang =>
    cases hread
    exact read_push houter hfirst hpending (@FrameRead.unary .not text) hdue rfl
  | minus =>
    cases hread
    exact read_push houter hfirst hpending (@FrameRead.unary .negate text) hdue rfl
  | lparen =>
    cases hread
    exact read_push houter hfirst hpending .group (Nat.le_succ_of_le hdue) rfl
  | lbracket =>
    cases hread
    exact .inside houter hfirst hpending (.firstItem .array) rfl
  | lbrace =>
    cases hread
    exact .inside houter hfirst hpending .firstPair rfl
  | kwIf =>
    cases hread
    exact .inside houter hfirst hpending .ifParen rfl
  | kwFn =>
    cases hread
    exact .inside houter hfirst hpending .fnParen rfl
  | _ => cases hread

end

private theorem readStart_read {outer : List OpenBlock} {os : List Token} {token : Token}
    {next : Config} (houter : OuterRead outer os token.kind)
    (hread : readStart outer token = .ok next) : next.Read (os ++ [token]) := by
  obtain ⟨kind, text⟩ := token
  unfold readStart at hread
  split at hread
  · rename_i hkind
    cases hkind
    cases hread
    exact .letName houter
  · rename_i hkind
    cases hkind
    cases hread
    exact .retValue houter
  · exact readOperand_read houter ⟨text, [], rfl⟩ (.goal .expr) hread

/-- What follows a block accounts for the tokens of the block. -/
theorem close_read {block : OpenBlock} {hs bs : List Token} (hhead : BlockHeadRead block.head hs)
    (hbody : Braced block.done bs) : FocusRead block.close (hs ++ bs) := by
  obtain ⟨head, done, pending⟩ := block
  cases hhead with
  | yes htest =>
    simp only [List.cons_append, List.append_assoc, List.nil_append]
    exact .mayElse htest hbody
  | no htest hyes =>
    simp only [List.cons_append, List.append_assoc, List.nil_append]
    exact .after (.condElse htest hyes hbody)
  | body hparams =>
    simp only [List.cons_append, List.append_assoc, List.nil_append]
    exact .after (.function hparams hbody)

private theorem readBetween_read {block : OpenBlock} {outer : List OpenBlock} {tokens : List Token}
    {token : Token} {next : Config} (houter : OuterRead (block :: outer) tokens token.kind)
    (hread : readBetween block outer token = .ok next) : next.Read (tokens ++ [token]) := by
  obtain ⟨kind, text⟩ := token
  unfold readBetween at hread
  split at hread
  · rename_i hkind
    cases hkind
    cases hread
    obtain - | ⟨houter, hfirst, hpending, hhead, hdone⟩ := houter
    have hbody := (hdone.append (.nil [⟨.rbrace, text⟩]) rfl)
    rw [List.append_nil] at hbody
    simp only [List.append_assoc, List.cons_append]
    refine .inside houter ?_ hpending (close_read hhead (.braces hbody)) rfl
    rw [← List.append_assoc]
    exact hfirst.append _
  · rename_i hkind
    cases hkind
    cases hread
    obtain - | ⟨houter, hfirst, hpending, hhead, hdone⟩ := houter
    simp only [List.append_assoc, List.cons_append]
    exact .between fun _ => .cons houter hfirst hpending hhead hdone.semicolon
  · cases hread
  · exact readStart_read houter hread

private theorem endStmt_read {stmt : Stmt} {outer : List OpenBlock} {os tokens : List Token}
    {token : Token} {step : Step} (houter : OuterRead outer os (nextKind tokens))
    (hstmt : Statement stmt tokens token.kind) (hstep : endStmt stmt outer token = .ok step) :
    step.Read (os ++ tokens) token := by
  cases houter with
  | nil =>
    cases hstep
    exact hstmt
  | cons houter hfirst hpending hhead hdone =>
    obtain ⟨next, hread, rfl⟩ := map_shift_eq_ok hstep
    refine readBetween_read ?_ hread
    simp only [List.append_assoc, List.cons_append]
    exact .cons houter hfirst hpending hhead (hdone.stmt hstmt)

theorem GoalRead.statement {goal : Goal} {gs es : List Token} {expr : Expr} {next : Kind}
    (hgoal : GoalRead goal gs) (hexpr : Expression 0 expr es) (hnext : next.continues = false) :
    Statement (goal.stmt expr) (gs ++ es) next := by
  cases hgoal with
  | expr => exact .expr hexpr hnext
  | bind => exact .bind hexpr hnext
  | ret => exact .ret hexpr hnext

/-- The tokens of an expression of some level and of the frames that wait for it. -/
def Waiting (level : Nat) (goal : Goal) (result : Expr × List Frame) (tokens : List Token) : Prop :=
  ∃ ps es, tokens = ps ++ es ∧ PendingRead ⟨goal, result.2⟩ ps ∧
    Expression level result.1 es ∧ due result.2 ≤ level

/-- The operators that a token finds complete make one expression of its level. -/
theorem reduce_read {level high : Nat} {goal : Goal} {expr : Expr} {frames : List Frame}
    {ps es : List Token} (hpending : PendingRead ⟨goal, frames⟩ ps)
    (hexpr : Expression high expr es) (hdue : due frames ≤ high) (hhigh : level ≤ high)
    (hlevel : level ≤ 4) : Waiting level goal (reduce level expr frames) (ps ++ es) := by
  induction frames generalizing expr ps es high with
  | nil => exact ⟨ps, es, rfl, hpending, hexpr.of_le hhigh, Nat.zero_le level⟩
  | cons frame frames ih =>
    have hstop (hwaits : due (frame :: frames) ≤ level) :
        Waiting level goal (expr, frame :: frames) (ps ++ es) :=
      ⟨ps, es, rfl, hpending, hexpr.of_le hhigh, hwaits⟩
    cases frame with
    | unary op =>
      cases hpending with
      | push hpending hframe hfits =>
        cases hframe
        rw [List.append_assoc]
        exact ih hpending (.unary (hexpr.of_le hdue)) hfits (by omega)
    | binary left op =>
      rw [reduce]
      split
      · rename_i hop
        cases hpending with
        | push hpending hframe hfits =>
          cases hframe with
          | binary hleft =>
            simp only [List.append_assoc, List.singleton_append]
            exact ih hpending (.binary hleft (hexpr.of_le hdue)) hfits hop
      · exact hstop (by simp only [due]; omega)
    | _ => exact hstop (Nat.zero_le level)

/-- A token that carries no expression on completes every operator before it, and then the
construct around the expression takes it. -/
theorem settle_read {level : Nat} {goal : Goal} {outer : List OpenBlock} {token : Token}
    {expr : Expr} {frames : List Frame} {os ps es : List Token} {first : Kind} {step : Step}
    (houter : OuterRead outer os first) (hfirst : BeginsWith (ps ++ es) first)
    (hpending : PendingRead ⟨goal, frames⟩ ps) (hexpr : Expression level expr es)
    (hdue : due frames ≤ level) (hnext : token.kind.continues = false)
    (hstep : settle goal outer token expr frames = .ok step) :
    step.Read (os ++ (ps ++ es)) token := by
  induction frames generalizing level expr ps es with
  | nil =>
    cases hpending with
    | goal hgoal =>
      have hstmt := hgoal.statement (hexpr.of_le hdue) hnext
      rw [← hfirst.nextKind_eq] at houter
      exact endStmt_read houter hstmt hstep
  | cons frame frames ih =>
    have hbase := hexpr.of_le (Nat.zero_le level)
    have hlast := hfirst.append [token]
    cases hpending with
    | push hpending hframe hfits =>
      cases hframe with
      | unary =>
        rw [List.append_assoc] at hfirst ⊢
        exact ih hfirst hpending (.unary (hexpr.of_le hdue)) hfits hstep
      | binary hleft =>
        simp only [List.append_assoc, List.singleton_append] at hfirst ⊢
        exact ih hfirst hpending (.binary hleft (hexpr.of_le hdue)) hfits hstep
      | ternaryNo htest hyes =>
        simp only [List.append_assoc, List.cons_append] at hfirst ⊢
        exact ih hfirst hpending (.ternary htest hyes hbase) hfits hstep
      | ternaryYes htest =>
        obtain ⟨text, rfl, rfl⟩ := demand_eq_ok hstep
        simp only [Step.Read, List.append_assoc, List.cons_append, List.nil_append] at hlast ⊢
        exact read_push houter hlast hpending (.ternaryNo htest hbase) hfits rfl
      | group =>
        obtain ⟨text, rfl, rfl⟩ := demand_eq_ok hstep
        simp only [Step.Read, List.append_assoc, List.cons_append, List.nil_append] at hlast ⊢
        exact .inside houter hlast hpending (.after (.group hbase)) rfl
      | item hhead hdone =>
        obtain ⟨text, ⟨rfl, rfl⟩ | ⟨rfl, rfl⟩⟩ := demand_comma_eq_ok hstep
        · simp only [Step.Read, List.append_assoc] at hlast ⊢
          exact read_push houter hlast hpending (.item hhead (hdone.append hbase text)) hfits rfl
        · have hbuilt := hhead.build (hdone.close hbase) text
          simp only [Step.Read, List.append_assoc] at hlast hbuilt ⊢
          exact .inside houter hlast hpending (.after hbuilt) rfl
      | key hdone =>
        obtain ⟨text, rfl, rfl⟩ := demand_eq_ok hstep
        simp only [Step.Read, List.append_assoc, List.cons_append] at hlast ⊢
        exact read_push houter hlast hpending (.value hdone hbase) hfits rfl
      | @value done key ds ks lbrace colon hdone hkey =>
        have hpair : Pair (key, expr) (ks ++ ⟨.colon, colon⟩ :: es) := .pair hkey hbase
        obtain ⟨text, ⟨rfl, rfl⟩ | ⟨rfl, rfl⟩⟩ := demand_comma_eq_ok hstep
        · have hpairs := hdone.append hpair text
          simp only [Step.Read, List.append_assoc, List.cons_append, List.nil_append]
            at hlast hpairs ⊢
          exact read_push houter hlast hpending (.key hpairs) hfits rfl
        · have hhash := @Expression.hash _ _ lbrace text (hdone.close hpair)
          simp only [Step.Read, List.append_assoc, List.cons_append, List.nil_append]
            at hlast hhash ⊢
          exact .inside houter hlast hpending (.after hhash) rfl
      | index hleft =>
        obtain ⟨text, rfl, rfl⟩ := demand_eq_ok hstep
        simp only [Step.Read, List.append_assoc, List.cons_append, List.nil_append] at hlast ⊢
        exact .inside houter hlast hpending (.after (.index hleft hbase)) rfl
      | test =>
        obtain ⟨text, rfl, rfl⟩ := demand_eq_ok hstep
        simp only [Step.Read, List.append_assoc, List.cons_append, List.nil_append] at hlast ⊢
        exact .inside houter hlast hpending (.openBlock (.yes hbase)) rfl

private theorem readAfter_read {pending : Pending} {outer : List OpenBlock} {token : Token}
    {expr : Expr} {os ps es : List Token} {first : Kind} {step : Step}
    (houter : OuterRead outer os first) (hfirst : BeginsWith (ps ++ es) first)
    (hpending : PendingRead pending ps)
    (hexpr : Expression 6 expr es) (hstep : readAfter expr pending outer token = .ok step) :
    step.Read (os ++ (ps ++ es)) token := by
  obtain ⟨goal, frames⟩ := pending
  obtain ⟨kind, text⟩ := token
  have hdue := due_le_five frames
  have hlast := hfirst.append [⟨kind, text⟩]
  unfold readAfter at hstep
  split at hstep
  · rename_i hkind
    cases hkind
    cases hstep
    simp only [Step.Read, List.append_assoc] at hlast ⊢
    exact .inside houter hlast hpending (.firstItem (.args hexpr)) rfl
  · rename_i hkind
    cases hkind
    cases hstep
    simp only [Step.Read, List.append_assoc] at hlast ⊢
    exact read_push houter hlast hpending (.index hexpr) (by simp only [Frame.level]; omega) rfl
  · rename_i hkind
    cases hkind
    cases hstep
    obtain ⟨qs, ts, htokens, hpending, htest, hfits⟩ :=
      reduce_read hpending hexpr (by omega) (by omega : 1 ≤ 6) (by omega)
    simp only [Step.Read, List.append_assoc, htokens] at hlast ⊢
    exact read_push houter hlast hpending (.ternaryYes htest)
      (Nat.le_of_eq (due_eq_zero_of_le_one hfits)) rfl
  · split at hstep
    · rename_i op hop
      have hlevel := op.level_le_four
      cases BinaryOp.kind_of_ofKind?_eq_some hop
      cases hstep
      obtain ⟨qs, ls, htokens, hpending, hleft, hfits⟩ :=
        reduce_read hpending hexpr (by omega) (by omega : op.level ≤ 6) hlevel
      simp only [Step.Read, List.append_assoc, htokens] at hlast ⊢
      exact read_push houter hlast hpending (.binary hleft) hfits rfl
    · rename_i hop
      have hnext : kind.continues = false := by
        cases kind <;> simp_all [BinaryOp.ofKind?, Kind.continues]
      exact settle_read houter hfirst hpending hexpr (by omega) hnext hstep

private theorem readInside_read {focus : Focus} {pending : Pending} {outer : List OpenBlock}
    {token : Token} {os ps fs : List Token} {first : Kind} {step : Step}
    (houter : OuterRead outer os first) (hfirst : BeginsWith (ps ++ fs) first)
    (hpending : PendingRead pending ps)
    (hfocus : FocusRead focus fs) (hstep : readInside focus pending outer token = .ok step) :
    step.Read (os ++ (ps ++ fs)) token := by
  have hdue := Nat.le_succ_of_le (due_le_five pending.frames)
  have hlast := hfirst.append [token]
  cases hfocus with
  | operand =>
    obtain ⟨next, hread, rfl⟩ := map_shift_eq_ok hstep
    rw [List.append_nil] at hlast ⊢
    rw [Step.Read, List.append_assoc]
    exact readOperand_read houter hlast hpending hread
  | @firstItem head _ hhead =>
    simp only [readInside] at hstep
    split at hstep
    · rename_i hkind
      obtain ⟨kind, text⟩ := token
      cases hkind
      cases hstep
      simp only [Step.Read, List.append_assoc] at hlast ⊢
      exact .inside houter hlast hpending (.after (hhead.build .nil text)) rfl
    · obtain ⟨next, hread, rfl⟩ := map_shift_eq_ok hstep
      have hframe : FrameRead (.item head []) fs := by simpa using FrameRead.item hhead .nil
      rw [Step.Read, List.append_assoc]
      exact readOperand_read houter hlast (hpending.push hframe hdue) hread
  | firstPair =>
    simp only [readInside] at hstep
    split at hstep
    · rename_i hkind
      obtain ⟨kind, text⟩ := token
      cases hkind
      cases hstep
      simp only [Step.Read, List.append_assoc] at hlast ⊢
      exact .inside houter hlast hpending (.after (.hash .nil)) rfl
    · obtain ⟨next, hread, rfl⟩ := map_shift_eq_ok hstep
      rw [Step.Read, List.append_assoc]
      exact readOperand_read houter hlast (hpending.push (.key .nil) hdue) hread
  | after hexpr => exact readAfter_read houter hfirst hpending hexpr hstep
  | ifParen =>
    obtain ⟨text, rfl, rfl⟩ := demand_eq_ok hstep
    simp only [Step.Read, List.append_assoc, List.cons_append, List.nil_append] at hlast ⊢
    exact read_push houter hlast hpending .test hdue rfl
  | mayElse htest hyes =>
    simp only [readInside] at hstep
    split at hstep
    · rename_i hkind
      obtain ⟨kind, text⟩ := token
      cases hkind
      cases hstep
      simp only [Step.Read, List.append_assoc, List.cons_append] at hlast ⊢
      exact .inside houter hlast hpending (.openBlock (.no htest hyes)) rfl
    · exact readAfter_read houter hfirst hpending (.cond htest hyes) hstep
  | fnParen =>
    obtain ⟨text, rfl, rfl⟩ := demand_eq_ok hstep
    simp only [Step.Read, List.append_assoc, List.cons_append, List.nil_append] at hlast ⊢
    exact .inside houter hlast hpending .firstParam rfl
  | firstParam =>
    simp only [readInside] at hstep
    split at hstep
    · rename_i hkind
      obtain ⟨kind, text⟩ := token
      cases hkind
      cases hstep
      simp only [Step.Read, List.append_assoc, List.cons_append] at hlast ⊢
      exact .inside houter hlast hpending (.openBlock (.body .nil)) rfl
    · obtain ⟨text, rfl, rfl⟩ := demand_eq_ok hstep
      simp only [Step.Read, List.append_assoc, List.cons_append] at hlast ⊢
      exact .inside houter hlast hpending (.afterParam .nil rfl) rfl
  | param hdone =>
    obtain ⟨text, rfl, rfl⟩ := demand_eq_ok hstep
    simp only [Step.Read, List.append_assoc, List.cons_append] at hlast ⊢
    exact .inside houter hlast hpending (.afterParam hdone rfl) rfl
  | @afterParam done name ds ns word lparen hdone hname =>
    obtain ⟨text, ⟨rfl, rfl⟩ | ⟨rfl, rfl⟩⟩ := demand_comma_eq_ok hstep
    · simp only [Step.Read, List.append_assoc, List.cons_append] at hlast ⊢
      exact .inside houter hlast hpending (.param (hdone.append hname text)) rfl
    · have hhead := @BlockHeadRead.body _ _ word lparen text (hdone.close hname)
      simp only [Step.Read, List.append_assoc, List.cons_append] at hlast hhead ⊢
      exact .inside houter hlast hpending (.openBlock hhead) rfl
  | openBlock hhead =>
    obtain ⟨text, rfl, rfl⟩ := demand_eq_ok hstep
    simp only [Step.Read, List.append_assoc]
    exact .between fun _ => .cons houter hfirst hpending hhead .nil

/-- One step accounts for the token it takes. -/
theorem Config.Read.step {config : Config} {tokens : List Token} {token : Token} {step : Step}
    (hread : config.Read tokens) (hstep : config.step token = .ok step) :
    step.Read tokens token := by
  cases hread with
  | start =>
    obtain ⟨next, hnext, rfl⟩ := map_shift_eq_ok hstep
    exact readStart_read .nil hnext
  | between houter =>
    obtain ⟨next, hnext, rfl⟩ := map_shift_eq_ok hstep
    exact readBetween_read (houter token.kind) hnext
  | letName houter =>
    obtain ⟨text, rfl, rfl⟩ := demand_eq_ok hstep
    rw [Step.Read, List.append_assoc]
    exact .letAssign houter
  | letAssign houter =>
    obtain ⟨text, rfl, rfl⟩ := demand_eq_ok hstep
    rw [Step.Read, List.append_assoc]
    exact .inside houter ⟨_, _, rfl⟩ (.goal .bind) .operand rfl
  | retValue houter =>
    simp only [Config.step, readHead] at hstep
    split at hstep
    iterate 3
      rename_i hkind
      exact endStmt_read houter (.retNothing (hkind ▸ rfl)) hstep
    obtain ⟨next, hnext, rfl⟩ := map_shift_eq_ok hstep
    rw [Step.Read, List.append_assoc]
    exact readOperand_read houter ⟨_, _, rfl⟩ (.goal .ret) hnext
  | inside houter hfirst hpending hfocus htokens =>
    subst htokens
    exact readInside_read houter hfirst hpending hfocus hstep

/-- A whole run accounts for every token it takes, and none of them ends the input. -/
theorem Config.Read.run {config : Config} {before tokens rest : List Token} {stmt : Stmt}
    (hread : config.Read before) (hrun : config.run tokens = .ok (stmt, rest)) :
    ∃ taken, tokens = taken ++ rest ∧ Statement stmt (before ++ taken) (nextKind rest) ∧
      ∀ token ∈ taken, token.kind ≠ .eof := by
  induction tokens generalizing config before with
  | nil =>
    simp only [Config.run] at hrun
    split at hrun
    · cases hrun
    · rename_i hstep
      cases hrun
      exact ⟨[], rfl, by rw [List.append_nil]; exact hread.step hstep, by simp⟩
    · cases hrun
  | cons token tokens ih =>
    simp only [Config.run] at hrun
    split at hrun
    · cases hrun
    · rename_i hstep
      cases hrun
      exact ⟨[], rfl, by rw [List.append_nil]; exact hread.step hstep, by simp⟩
    · rename_i next hstep
      obtain ⟨taken, rfl, hstmt, htaken⟩ := ih (hread.step hstep) hrun
      have htoken : token.kind ≠ .eof := fun heof => Config.step_eof heof next config hstep
      rw [List.append_assoc] at hstmt
      exact ⟨token :: taken, rfl, hstmt, by simpa [htoken] using htaken⟩

end MonkeyLang.Parser

namespace MonkeyLang

open MonkeyLang.Grammar MonkeyLang.Parser

/-- Reading a statement takes exactly the tokens that spell it, and then at most one
semicolon. -/
theorem statement_eq_ok {tokens rest : List Token} {stmt : Stmt}
    (hread : statement tokens = .ok (stmt, rest)) :
    ∃ taken after, tokens = taken ++ after ∧ rest = dropSemicolon after ∧
      Statement stmt taken (nextKind after) ∧ ∀ token ∈ taken, token.kind ≠ .eof := by
  unfold statement at hread
  cases hrun : Config.start.run tokens with
  | error error => simp [hrun, Except.map] at hread
  | ok result =>
    obtain ⟨found, after⟩ := result
    simp only [hrun, Except.map, Except.ok.injEq, Prod.mk.injEq] at hread
    obtain ⟨rfl, rfl⟩ := hread
    obtain ⟨taken, htokens, hstmt, htaken⟩ := Config.Read.start.run hrun
    exact ⟨taken, after, htokens, rfl, hstmt, htaken⟩

/-- Passing over a broken statement leaves the tokens behind it as they are. -/
theorem skipFrom_suffix (depth : Int) (tokens : List Token) : skipFrom depth tokens <:+ tokens := by
  fun_induction skipFrom depth tokens with
  | case1 => exact List.suffix_rfl
  | case2 _ token rest _ ih | case3 _ token rest _ _ ih | case6 _ token rest _ _ _ _ ih =>
    exact ih.trans (List.suffix_cons token rest)
  | case4 _ token rest => exact List.suffix_cons token rest
  | case5 => exact List.suffix_rfl

theorem skipStatement_suffix (tokens : List Token) : skipStatement tokens <:+ tokens :=
  skipFrom_suffix 0 tokens

theorem dropSemicolon_suffix (tokens : List Token) : dropSemicolon tokens <:+ tokens := by
  fun_cases dropSemicolon tokens with
  | case1 => exact List.suffix_rfl
  | case2 token rest => exact List.suffix_cons token rest
  | case3 => exact List.suffix_rfl

theorem statement_suffix {tokens rest : List Token} {stmt : Stmt}
    (hread : statement tokens = .ok (stmt, rest)) : rest <:+ tokens := by
  obtain ⟨taken, after, rfl, rfl, -, -⟩ := statement_eq_ok hread
  exact (dropSemicolon_suffix after).trans (List.suffix_append taken after)

/-- The tokens that belong to a text, which are those before its end. -/
def beforeEnd (tokens : List Token) : List Token := tokens.takeWhile fun token => token.kind ≠ .eof

theorem beforeEnd_append {taken : List Token} (htaken : ∀ token ∈ taken, token.kind ≠ .eof)
    (rest : List Token) : beforeEnd (taken ++ rest) = taken ++ beforeEnd rest := by
  rw [beforeEnd, List.takeWhile_append_of_pos (by simpa using htaken)]
  rfl

theorem beforeEnd_cons {token : Token} (heof : token.kind ≠ .eof) (tokens : List Token) :
    beforeEnd (token :: tokens) = token :: beforeEnd tokens :=
  List.takeWhile_cons_of_pos (by simpa using heof)

private theorem nextKind_beforeEnd (tokens : List Token) :
    nextKind (beforeEnd tokens) = nextKind tokens := by
  cases tokens with
  | nil => rfl
  | cons token tokens =>
    by_cases heof : token.kind = .eof
    · simp [beforeEnd, nextKind, heof]
    · simp [beforeEnd, nextKind, heof]

private theorem statements_of_dropSemicolon {stmts : List Stmt} {tokens : List Token}
    (hstmts : Statements [] stmts (beforeEnd (dropSemicolon tokens))) :
    Statements [] stmts (beforeEnd tokens) := by
  cases tokens with
  | nil => exact hstmts
  | cons token tokens =>
    obtain ⟨kind, text⟩ := token
    by_cases hkind : kind = .semicolon
    · subst hkind
      exact hstmts.semicolon
    · rw [dropSemicolon, if_neg hkind] at hstmts
      exact hstmts

/-- A text in which nothing is found wrong spells its program. -/
theorem statements_of_ofTokens {tokens : List Token}
    (herrors : (Program.ofTokens tokens).errors = []) :
    Statements [] (Program.ofTokens tokens).stmts (beforeEnd tokens) := by
  fun_induction Program.ofTokens tokens with
  | case1 => exact .nil []
  | case2 token rest heof =>
    rw [beforeEnd, List.takeWhile_cons_of_neg (by simpa using heof)]
    exact .nil []
  | case3 token rest heof hkind ih =>
    obtain ⟨kind, text⟩ := token
    cases hkind
    exact (ih herrors).semicolon
  | case4 token rest heof hkind stmt left hread ih =>
    obtain ⟨taken, after, htokens, rfl, hstmt, htaken⟩ := statement_eq_ok hread
    rw [htokens, beforeEnd_append htaken]
    rw [← nextKind_beforeEnd] at hstmt
    exact .cons hstmt (statements_of_dropSemicolon (ih herrors))
  | case5 => simp [Program.addError] at herrors

/-- Whatever is read as a statement is a derivation of it: its tokens are those that were given,
in their order, and its expression goes on as far as it can. If nothing is found wrong in a text,
all its tokens are a derivation of its program. -/
theorem reading_is_derivation :
    (∀ (tokens rest : List Token) (stmt : Stmt), statement tokens = .ok (stmt, rest) →
      ∃ taken after, tokens = taken ++ after ∧ rest = dropSemicolon after ∧
        Statement stmt taken (nextKind after) ∧ (nextKind after).continues = false) ∧
    ∀ tokens : List Token, (Program.ofTokens tokens).errors = [] →
      Statements [] (Program.ofTokens tokens).stmts (beforeEnd tokens) := by
  refine ⟨fun tokens rest stmt hread => ?_, fun tokens => statements_of_ofTokens⟩
  obtain ⟨taken, after, htokens, hrest, hstmt, -⟩ := statement_eq_ok hread
  exact ⟨taken, after, htokens, hrest, hstmt, hstmt.not_continues⟩

/-- Subtractions group to the left, and the semicolon behind them belongs to no expression. -/
theorem reading_is_derivation_chain :
    let minus : Token := ⟨.minus, "-"⟩
    ∃ taken after,
      [⟨.ident, "a"⟩, minus, ⟨.ident, "b"⟩, minus, ⟨.ident, "c"⟩, ⟨.semicolon, ";"⟩,
        ⟨.ident, "d"⟩] = taken ++ after ∧
      [⟨.ident, "d"⟩] = dropSemicolon after ∧
      Statement
        (.expr (.binary (.binary (.ident "a") .sub (.ident "b")) .sub (.ident "c"))) taken
        (nextKind after) ∧
      (nextKind after).continues = false :=
  reading_is_derivation.1 _ _ _ rfl

end MonkeyLang
