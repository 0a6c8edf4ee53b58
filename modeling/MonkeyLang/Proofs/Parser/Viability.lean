import MonkeyLang.Proofs.Decimal
import MonkeyLang.Proofs.Parser.Agreement
import MonkeyLang.Proofs.Parser.Soundness

namespace MonkeyLang

/-- An error is about a token. It names the class of that token, which is not the one that was
wanted or none that begins an expression, or the text of a number that cannot be read. -/
def SyntaxError.Blames (error : SyntaxError) (token : Token) : Prop :=
  match error with
  | .expected wanted found => found = token.kind ∧ wanted ≠ found
  | .noOperand found => found = token.kind ∧ found.begins = false
  | .integer literal => token = ⟨.int, literal⟩ ∧
      ∀ n, Decimal.Denotes literal.toList n →
        ¬ (Int64.minValue.toInt ≤ n ∧ n ≤ Int64.maxValue.toInt)

namespace Parser

section

variable {token : Token} {error : SyntaxError}

private theorem demand_blames {wanted : Kind} {next : Config}
    (herror : demand wanted token next = .error error) : error.Blames token := by
  unfold demand at herror
  split at herror
  · cases herror
  · rename_i hkind
    cases herror
    exact ⟨rfl, Ne.symm hkind⟩

private theorem map_shift_eq_error {result : Except SyntaxError Config}
    (herror : result.map Step.shift = .error error) : result = .error error := by
  cases result with
  | error => exact congrArg Except.error (Except.error.inj herror)
  | ok => cases herror

private theorem readOperand_blames {pending : Pending} {outer : List OpenBlock}
    (herror : readOperand pending outer token = .error error) : error.Blames token := by
  obtain ⟨kind, text⟩ := token
  cases kind with
  | int =>
    simp only [readOperand] at herror
    split at herror
    · cases herror
    · rename_i hread
      cases herror
      exact ⟨rfl, (Decimal.read?_eq_none_iff text).mp hread⟩
  | ident | string | kwTrue | kwFalse | kwNull | bang | minus | lparen | lbracket | lbrace | kwIf
  | kwFn => cases herror
  | _ =>
    cases herror
    exact ⟨rfl, rfl⟩

private theorem readStart_blames {outer : List OpenBlock}
    (herror : readStart outer token = .error error) : error.Blames token := by
  unfold readStart at herror
  split at herror
  · cases herror
  · cases herror
  · exact readOperand_blames herror

private theorem readBetween_blames {block : OpenBlock} {outer : List OpenBlock}
    (herror : readBetween block outer token = .error error) : error.Blames token := by
  unfold readBetween at herror
  split at herror
  · cases herror
  · cases herror
  · rename_i hkind
    cases herror
    exact ⟨hkind.symm, by decide⟩
  · exact readStart_blames herror

private theorem endStmt_blames {stmt : Stmt} {outer : List OpenBlock}
    (herror : endStmt stmt outer token = .error error) : error.Blames token := by
  cases outer with
  | nil => cases herror
  | cons block outer => exact readBetween_blames (map_shift_eq_error herror)

private theorem demand_comma_blames {wanted : Kind} {more next : Config}
    (herror : (if token.kind = .comma then .ok (.shift more) else demand wanted token next) =
      .error error) : error.Blames token := by
  split at herror
  · cases herror
  · exact demand_blames herror

private theorem settle_blames {goal : Goal} {outer : List OpenBlock} {expr : Expr}
    {frames : List Frame} (herror : settle goal outer token expr frames = .error error) :
    error.Blames token := by
  induction frames generalizing expr with
  | nil => exact endStmt_blames herror
  | cons frame frames ih =>
    cases frame with
    | unary | binary | ternaryNo => exact ih herror
    | ternaryYes | group | key | index | test => exact demand_blames herror
    | item | value => exact demand_comma_blames herror

private theorem readAfter_blames {expr : Expr} {pending : Pending} {outer : List OpenBlock}
    (herror : readAfter expr pending outer token = .error error) : error.Blames token := by
  unfold readAfter at herror
  split at herror
  iterate 3 cases herror
  split at herror
  · cases herror
  · exact settle_blames herror

private theorem readInside_blames {focus : Focus} {pending : Pending} {outer : List OpenBlock}
    (herror : readInside focus pending outer token = .error error) : error.Blames token := by
  cases focus with
  | operand => exact readOperand_blames (map_shift_eq_error herror)
  | after expr => exact readAfter_blames herror
  | firstItem | firstPair =>
    simp only [readInside] at herror
    split at herror
    · cases herror
    · exact readOperand_blames (map_shift_eq_error herror)
  | mayElse test yes =>
    simp only [readInside] at herror
    split at herror
    · cases herror
    · exact readAfter_blames herror
  | firstParam =>
    simp only [readInside] at herror
    split at herror
    · cases herror
    · exact demand_blames herror
  | afterParam => exact demand_comma_blames herror
  | ifParen | fnParen | param | openBlock => exact demand_blames herror

/-- Whatever has been read, a token that cannot be taken is the one that the error is about. -/
theorem Config.step_blames {config : Config} (herror : config.step token = .error error) :
    error.Blames token := by
  cases config with
  | between block outer => exact readBetween_blames (map_shift_eq_error herror)
  | inside focus pending outer => exact readInside_blames herror
  | head part outer =>
    cases part with
    | start => exact readStart_blames (map_shift_eq_error herror)
    | letName | letAssign => exact demand_blames herror
    | retValue =>
      simp only [Config.step, readHead] at herror
      split at herror
      iterate 3 exact endStmt_blames herror
      exact readOperand_blames (map_shift_eq_error herror)

end

/-- Tokens with which reading comes to the end of a statement and of the input. They neither carry
on an expression before them nor begin with an `else`. -/
structure Ends (read : List Token → Reading) (more : List Token) :
    Prop where
  grip : (nextKind more).grip = 0
  ne_else : nextKind more ≠ .kwElse
  read_all : ∃ stmt, read more = .ok (stmt, [])

theorem Ends.congr {read other : List Token → Reading}
    {more : List Token} (hmore : Ends read more)
    (hread : (nextKind more).grip = 0 → nextKind more ≠ .kwElse → other more = read more) :
    Ends other more := by
  refine ⟨hmore.grip, hmore.ne_else, ?_⟩
  rw [hread hmore.grip hmore.ne_else]
  exact hmore.read_all

theorem Ends.cons {read other : List Token → Reading}
    {more : List Token} (hmore : Ends read more) {token : Token} (hgrip : token.kind.grip = 0)
    (helse : token.kind ≠ .kwElse) (tokens : List Token)
    (hread : ∀ rest, other (token :: (tokens ++ rest)) = read rest) :
    Ends other (token :: (tokens ++ more)) := by
  refine ⟨hgrip, helse, ?_⟩
  rw [hread]
  exact hmore.read_all

/-- A block that has been closed stands for an expression, unless an `else` follows. -/
theorem exists_ends_close {pending : Pending} {outer : List OpenBlock}
    (hafter : ∀ expr, ∃ more, Ends (Config.inside (.after expr) pending outer).run more)
    (block : OpenBlock) :
    ∃ more, Ends (Config.inside block.close pending outer).run more := by
  obtain ⟨head, done, inside⟩ := block
  cases head with
  | yes test =>
    obtain ⟨more, hmore⟩ := hafter (.cond test done none)
    refine ⟨more, hmore.congr fun _ helse => Config.run_congr fun token htoken => ?_⟩
    rw [← htoken] at helse
    simp only [OpenBlock.close, Config.step, readInside, if_neg helse]
  | no test yes => exact hafter (.cond test yes (some done))
  | body params => exact hafter (.function params done)

/-- Behind an expression every bracket that is open can be closed, and every operator that still
lacks an operand can be given one. The induction is on the frames inside the innermost block, for
any way to end what is around it. -/
theorem exists_ends_after {outer : List OpenBlock}
    (houter : ∀ stmt, ∃ more, Ends (resume stmt outer) more) (goal : Goal) (frames : List Frame)
    (expr : Expr) : ∃ more, Ends (Config.inside (.after expr) ⟨goal, frames⟩ outer).run more := by
  induction frames generalizing expr with
  | nil =>
    obtain ⟨more, hmore⟩ := houter (goal.stmt expr)
    exact ⟨more, hmore.congr fun hgrip _ => run_after_eq_resume hgrip expr goal outer⟩
  | cons frame frames ih =>
    have hcomplete {frame : Frame} {part whole : Expr} (hwhole : Completes part frame whole) :
        ∃ more, Ends (Config.inside (.after part) ⟨goal, frame :: frames⟩ outer).run more := by
      obtain ⟨more, hmore⟩ := ih whole
      refine ⟨more, hmore.congr fun hgrip _ => run_after_complete hwhole ?_ goal frames outer⟩
      rw [hgrip]
      exact Nat.zero_le _
    cases frame with
    | unary op => exact hcomplete (.unary op)
    | binary left op => exact hcomplete (.binary left op)
    | ternaryNo test yes => exact hcomplete (.ternary test yes)
    | ternaryYes test =>
      obtain ⟨more, hmore⟩ := @hcomplete _ (.ident "x") _ (.ternary test expr)
      exact ⟨⟨.colon, ":"⟩ :: ([⟨.ident, "x"⟩] ++ more), hmore.cons rfl (by decide) _ fun _ => rfl⟩
    | group =>
      obtain ⟨more, hmore⟩ := ih expr
      exact ⟨⟨.rparen, ")"⟩ :: more, hmore.cons rfl (by decide) [] fun _ => rfl⟩
    | item head done =>
      obtain ⟨more, hmore⟩ := ih (head.build (done ++ [expr]))
      cases head with
      | array => exact ⟨⟨.rbracket, "]"⟩ :: more, hmore.cons rfl (by decide) [] fun _ => rfl⟩
      | args callee => exact ⟨⟨.rparen, ")"⟩ :: more, hmore.cons rfl (by decide) [] fun _ => rfl⟩
    | key done =>
      obtain ⟨more, hmore⟩ := ih (.hash (done ++ [(expr, .ident "x")]))
      exact ⟨⟨.colon, ":"⟩ :: ([⟨.ident, "x"⟩, ⟨.rbrace, "\x7d"⟩] ++ more),
        hmore.cons rfl (by decide) _ fun _ => rfl⟩
    | value done key =>
      obtain ⟨more, hmore⟩ := ih (.hash (done ++ [(key, expr)]))
      exact ⟨⟨.rbrace, "\x7d"⟩ :: more, hmore.cons rfl (by decide) [] fun _ => rfl⟩
    | index left =>
      obtain ⟨more, hmore⟩ := ih (.index left expr)
      exact ⟨⟨.rbracket, "]"⟩ :: more, hmore.cons rfl (by decide) [] fun _ => rfl⟩
    | test =>
      obtain ⟨more, hmore⟩ := exists_ends_close ih ⟨.yes expr, [], ⟨goal, frames⟩⟩
      exact ⟨⟨.rparen, ")"⟩ :: ([⟨.lbrace, "\x7b"⟩, ⟨.rbrace, "\x7d"⟩] ++ more),
        hmore.cons rfl (by decide) _ fun _ => rfl⟩

/-- The blocks around a statement can be closed one after another. -/
theorem exists_ends_resume (outer : List OpenBlock) (stmt : Stmt) :
    ∃ more, Ends (resume stmt outer) more := by
  induction outer generalizing stmt with
  | nil => exact ⟨[], rfl, by decide, stmt, rfl⟩
  | cons block outer ih =>
    obtain ⟨more, hmore⟩ := exists_ends_close
      (exists_ends_after ih block.inside.goal block.inside.frames)
      { block with done := block.done ++ [stmt] }
    exact ⟨⟨.rbrace, "\x7d"⟩ :: more, hmore.cons rfl (by decide) [] fun _ => rfl⟩

/-- What has been read can be read on to the end of a statement and of the input. -/
def Config.Viable (config : Config) : Prop := ∃ more stmt, config.run more = .ok (stmt, [])

namespace Config.Viable

theorem of_run {config next : Config} (hnext : next.Viable) (tokens : List Token)
    (hrun : ∀ rest, config.run (tokens ++ rest) = next.run rest) : config.Viable := by
  obtain ⟨more, stmt, hmore⟩ := hnext
  exact ⟨tokens ++ more, stmt, (hrun more).trans hmore⟩

variable (pending : Pending) (outer : List OpenBlock)

theorem after (expr : Expr) : (Config.inside (.after expr) pending outer).Viable := by
  obtain ⟨more, hmore⟩ :=
    exists_ends_after (exists_ends_resume outer) pending.goal pending.frames expr
  exact ⟨more, hmore.read_all⟩

theorem close (block : OpenBlock) : (Config.inside block.close pending outer).Viable := by
  obtain ⟨more, hmore⟩ := exists_ends_close
    (exists_ends_after (exists_ends_resume outer) pending.goal pending.frames) block
  exact ⟨more, hmore.read_all⟩

theorem operand : (Config.inside .operand pending outer).Viable :=
  (after pending outer (.ident "x")).of_run [⟨.ident, "x"⟩] fun _ => rfl

theorem openBlock (head : BlockHead) : (Config.inside (.openBlock head) pending outer).Viable :=
  (close pending outer ⟨head, [], pending⟩).of_run [⟨.lbrace, "\x7b"⟩, ⟨.rbrace, "\x7d"⟩] fun _ => rfl

theorem afterParam (done : List String) :
    (Config.inside (.afterParam done) pending outer).Viable :=
  (openBlock pending outer (.body done)).of_run [⟨.rparen, ")"⟩] fun _ => rfl

theorem inside (focus : Focus) : (Config.inside focus pending outer).Viable := by
  cases focus with
  | operand => exact operand pending outer
  | after expr => exact after pending outer expr
  | openBlock head => exact openBlock pending outer head
  | afterParam done => exact afterParam pending outer done
  | mayElse test yes => exact close pending outer ⟨.yes test, yes, pending⟩
  | firstItem head =>
    cases head with
    | array => exact (after pending outer (.array [])).of_run [⟨.rbracket, "]"⟩] fun _ => rfl
    | args callee =>
      exact (after pending outer (.call callee [])).of_run [⟨.rparen, ")"⟩] fun _ => rfl
  | firstPair => exact (after pending outer (.hash [])).of_run [⟨.rbrace, "\x7d"⟩] fun _ => rfl
  | ifParen => exact (operand (pending.push .test) outer).of_run [⟨.lparen, "("⟩] fun _ => rfl
  | fnParen =>
    exact (openBlock pending outer (.body [])).of_run [⟨.lparen, "("⟩, ⟨.rparen, ")"⟩] fun _ => rfl
  | firstParam => exact (openBlock pending outer (.body [])).of_run [⟨.rparen, ")"⟩] fun _ => rfl
  | param done =>
    exact (afterParam pending outer (done ++ ["x"])).of_run [⟨.ident, "x"⟩] fun _ => rfl

end Config.Viable

/-- Nothing that is taken leads into a dead end. -/
theorem Config.viable (config : Config) : config.Viable := by
  cases config with
  | between block outer =>
    exact (Viable.close block.inside outer block).of_run [⟨.rbrace, "\x7d"⟩] fun _ => rfl
  | inside focus pending outer => exact .inside pending outer focus
  | head part outer =>
    cases part with
    | start => exact (Viable.after ⟨.expr, []⟩ outer (.ident "x")).of_run [⟨.ident, "x"⟩] fun _ => rfl
    | letName =>
      exact (Viable.operand ⟨.bind "x", []⟩ outer).of_run [⟨.ident, "x"⟩, ⟨.assign, "="⟩] fun _ => rfl
    | letAssign name =>
      exact (Viable.operand ⟨.bind name, []⟩ outer).of_run [⟨.assign, "="⟩] fun _ => rfl
    | retValue =>
      exact (Viable.after ⟨.ret, []⟩ outer (.ident "x")).of_run [⟨.ident, "x"⟩] fun _ => rfl

end Parser

open MonkeyLang.Parser

/-- The token at a position. A list that has run out has the end of the input there. -/
def tokenAt (tokens : List Token) (n : Nat) : Token := tokens.getD n .eof

/-- Lists of tokens have the same tokens up to a position and at it. One end of the input is as good
as another. -/
def AgreeUpTo (n : Nat) (tokens others : List Token) : Prop :=
  ∀ i ≤ n, tokenAt others i = tokenAt tokens i ∨
    (tokenAt others i).kind = .eof ∧ (tokenAt tokens i).kind = .eof

namespace Parser.Config

variable {config : Config} {tokens : List Token} {error : SyntaxError}

private theorem run_of_step_tokenAt (hstep : config.step (tokenAt tokens 0) = .error error) :
    config.run tokens = .error error := by
  cases tokens with
  | nil =>
    have hend : config.step .eof = .error error := hstep
    rw [Config.run, hend]
  | cons token rest =>
    have htoken : config.step token = .error error := hstep
    rw [Config.run, htoken]

/-- What a step makes of the first token is the same for lists that agree on it. -/
theorem step_of_agreeUpTo {others : List Token} (hagree : AgreeUpTo 0 tokens others) :
    config.step (tokenAt others 0) = config.step (tokenAt tokens 0) := by
  rcases hagree 0 (Nat.le_refl 0) with hsame | ⟨hother, htoken⟩
  · rw [hsame]
  · rcases hfirst : tokenAt others 0 with ⟨kind, text⟩
    rcases hsecond : tokenAt tokens 0 with ⟨kind', text'⟩
    rw [hfirst] at hother
    rw [hsecond] at htoken
    obtain rfl := hother
    obtain rfl := htoken
    rw [step_of_eof, step_of_eof]

/-- The place at which reading stops with an error. -/
def StopsAt (config : Config) (tokens : List Token) (error : SyntaxError) (n : Nat) : Prop :=
  n ≤ (beforeEnd tokens).length ∧ error.Blames (tokenAt tokens n) ∧
    (∀ others, AgreeUpTo n tokens others → config.run others = .error error) ∧
    ∃ more stmt, config.run (tokens.take n ++ more) = .ok (stmt, [])

private theorem stopsAt_zero (hstep : config.step (tokenAt tokens 0) = .error error) :
    config.StopsAt tokens error 0 := by
  refine ⟨Nat.zero_le _, step_blames hstep, fun others hagree => ?_, config.viable⟩
  exact run_of_step_tokenAt ((step_of_agreeUpTo hagree).trans hstep)

theorem StopsAt.cons {next : Config} {token : Token} {n : Nat}
    (hstep : config.step token = .ok (.shift next)) (hstops : next.StopsAt tokens error n) :
    config.StopsAt (token :: tokens) error (n + 1) := by
  obtain ⟨hn, hblames, hagrees, more, stmt, hmore⟩ := hstops
  have heof : token.kind ≠ .eof := fun heof => step_eof heof next config hstep
  refine ⟨?_, hblames, fun others hagree => ?_, more, stmt, ?_⟩
  · rw [beforeEnd_cons heof]
    exact Nat.succ_le_succ hn
  · have hfirst : tokenAt others 0 = token := by
      rcases hagree 0 (Nat.zero_le _) with hsame | ⟨-, hend⟩
      · exact hsame
      · exact absurd hend heof
    cases others with
    | nil =>
      subst hfirst
      exact absurd rfl heof
    | cons first others =>
      obtain rfl : first = token := hfirst
      rw [run_cons_of_step hstep]
      exact hagrees others fun i hi => hagree (i + 1) (Nat.succ_le_succ hi)
  · rw [List.take_succ_cons, List.cons_append, run_cons_of_step hstep, hmore]

/-- Every error has its place. The induction follows the reading, one token taken after another. -/
theorem exists_stopsAt (herror : config.run tokens = .error error) :
    ∃ n, config.StopsAt tokens error n := by
  induction tokens generalizing config with
  | nil =>
    cases hstep : config.step .eof with
    | error found =>
      simp only [Config.run, hstep, Except.error.injEq] at herror
      exact ⟨0, stopsAt_zero (herror ▸ hstep)⟩
    | ok step =>
      cases step with
      | accept stmt => simp [Config.run, hstep] at herror
      | shift next => exact absurd hstep (step_eof rfl next config)
  | cons token rest ih =>
    cases hstep : config.step token with
    | error found =>
      simp only [Config.run, hstep, Except.error.injEq] at herror
      exact ⟨0, stopsAt_zero (herror ▸ hstep)⟩
    | ok step =>
      cases step with
      | accept stmt => simp [Config.run, hstep] at herror
      | shift next =>
        rw [run_cons_of_step hstep] at herror
        obtain ⟨n, hstops⟩ := ih herror
        exact ⟨n + 1, hstops.cons hstep⟩

end Parser.Config

theorem statement_eq_error_iff (tokens : List Token) (error : SyntaxError) :
    statement tokens = .error error ↔ Config.start.run tokens = .error error := by
  rw [statement]
  cases Config.start.run tokens <;> simp [Except.map]

/-- An error points at the first token that is wrong. It names that token, which is not behind the
end of the input. Whatever follows, a list with the same tokens up to there fails in the same way,
and the tokens before it can be completed to a statement. -/
theorem errors_point_at_the_offender {tokens : List Token} {error : SyntaxError}
    (herror : statement tokens = .error error) :
    ∃ n ≤ (beforeEnd tokens).length, error.Blames (tokenAt tokens n) ∧
      (∀ others, AgreeUpTo n tokens others → statement others = .error error) ∧
      ∃ more stmt, statement (tokens.take n ++ more) = .ok (stmt, []) := by
  obtain ⟨n, hn, hblames, hagrees, more, stmt, hmore⟩ :=
    Config.exists_stopsAt ((statement_eq_error_iff tokens error).mp herror)
  refine ⟨n, hn, hblames, fun others hagree => ?_, more, stmt, ?_⟩
  · exact (statement_eq_error_iff others error).mpr (hagrees others hagree)
  · rw [statement, hmore]
    rfl

/-- A number stands in the place of a parameter, behind a comma and inside a block. -/
theorem errors_point_at_the_offender_param :
    let tokens : List Token := [⟨.kwIf, "if"⟩, ⟨.lparen, "("⟩, ⟨.ident, "a"⟩, ⟨.rparen, ")"⟩,
      ⟨.lbrace, "\x7b"⟩, ⟨.kwFn, "fn"⟩, ⟨.lparen, "("⟩, ⟨.ident, "b"⟩, ⟨.comma, ","⟩, ⟨.int, "1"⟩,
      ⟨.rparen, ")"⟩, .eof]
    statement tokens = .error (.expected .ident .int) ∧
      ∃ n ≤ 11, (tokenAt tokens n).kind = .int ∧
        (∀ others, AgreeUpTo n tokens others → statement others = .error (.expected .ident .int)) ∧
        ∃ more stmt, statement (tokens.take n ++ more) = .ok (stmt, []) := by
  intro tokens
  have herror : statement tokens = .error (.expected .ident .int) := rfl
  obtain ⟨n, hn, hblames, hagrees⟩ := errors_point_at_the_offender herror
  exact ⟨herror, n, hn, hblames.1.symm, hagrees⟩

end MonkeyLang
