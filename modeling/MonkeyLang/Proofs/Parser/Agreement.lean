import MonkeyLang.Proofs.Parser.Following

namespace MonkeyLang

open MonkeyLang.Parser

/-- How tightly a token holds on to the expression before it, as the rules see it. An operator
belongs to the rule of its own level and is left over by those above it. -/
def Kind.hold (kind : Kind) : Nat :=
  match kind with
  | lparen | lbracket => 7
  | question => 1
  | kind => ((BinaryOp.ofKind? kind).map fun op => op.level + 1).getD 0

namespace Kind

theorem hold_eq_zero_iff (kind : Kind) : kind.hold = 0 ↔ kind.continues = false := by
  cases kind <;> decide

theorem grip_le_hold (kind : Kind) : kind.grip ≤ kind.hold := by
  cases kind <;> decide

theorem hold_le_five {kind : Kind} (hhold : kind.hold ≤ 6) : kind.hold ≤ 5 := by
  cases kind <;> revert hhold <;> decide

theorem hold_le_six {kind : Kind} (hparen : kind ≠ .lparen) (hbracket : kind ≠ .lbracket) :
    kind.hold ≤ 6 := by
  cases kind <;> simp_all [hold, BinaryOp.ofKind?, BinaryOp.level]

theorem hold_le_zero {kind : Kind} (hhold : kind.hold ≤ 1) (hquestion : kind ≠ .question) :
    kind.hold ≤ 0 := by
  cases kind <;> simp_all [hold, BinaryOp.ofKind?, BinaryOp.level]

theorem grip_le_of_hold_le {kind : Kind} {level : Nat} (hpos : 0 < level)
    (hhold : kind.hold ≤ level + 1) : kind.grip ≤ level := by
  cases kind <;>
    simp only [hold, grip, BinaryOp.ofKind?, Option.map_some, Option.map_none, Option.getD_some,
      Option.getD_none, BinaryOp.level] at hhold ⊢ <;> omega

/-- What is left over by the rule of the next level is an operator of this level or is left over by
this one, too. -/
private theorem hold_le_of_ne {kind : Kind} {level : Nat} (hpos : 0 < level) (hlevel : level ≤ 4)
    (hhold : kind.hold ≤ level + 1) (hother : ∀ op : BinaryOp, op.level = level → kind ≠ op.kind) :
    kind.hold ≤ level := by
  cases hop : BinaryOp.ofKind? kind with
  | none => cases kind <;> simp_all [hold, BinaryOp.ofKind?] <;> omega
  | some op =>
    have hkind := BinaryOp.kind_of_ofKind?_eq_some hop
    have hne : op.level ≠ level := fun hsame => hother op hsame hkind
    have hsame : kind.hold = op.level + 1 := by
      rw [hkind]
      cases op <;> rfl
    omega

end Kind

namespace Parser

variable {config next final other : Config} {tokens : List Token} {close : Kind}

theorem run_cons_of_step {token : Token} (hstep : config.step token = .ok (.shift next))
    (rest : List Token) : config.run (token :: rest) = next.run rest := by
  rw [Config.run, hstep]

private theorem run_of_step_eq_error {error : SyntaxError}
    (hstep : ∀ token : Token, token.kind = nextKind tokens → config.step token = .error error) :
    config.run tokens = .error error := by
  cases tokens with
  | nil => rw [Config.run, hstep .eof rfl]
  | cons token rest => rw [Config.run, hstep token rfl]

/-- Where a token is demanded any other one ends the reading. -/
theorem run_demand_of_ne {next : Token → Config}
    (hstep : ∀ token : Token, token.kind = nextKind tokens →
      config.step token = demand close token (next token)) (hne : nextKind tokens ≠ close) :
    config.run tokens = .error (.expected close (nextKind tokens)) := by
  apply run_of_step_eq_error
  intro token htoken
  rw [hstep token htoken, demand, htoken, if_neg hne]

private theorem run_closing (hclose : close ≠ .eof)
    (hstep : ∀ token : Token, config.step token =
      if token.kind = close then .ok (.shift final) else other.step token) :
    config.run tokens =
      if nextKind tokens = close then final.run tokens.tail else other.run tokens := by
  split
  · rename_i hkind
    cases tokens with
    | nil => exact absurd hkind.symm hclose
    | cons token rest =>
      have htoken : token.kind = close := hkind
      exact run_cons_of_step (by rw [hstep token, if_pos htoken]) rest
  · rename_i hkind
    apply Config.run_congr
    intro token htoken
    rw [hstep token, if_neg (htoken ▸ hkind)]

/-- Behind an item of a list stands a comma or the token that closes the list. -/
theorem run_separator (hclose : close ≠ .eof)
    (hstep : ∀ token : Token, token.kind = nextKind tokens → config.step token =
      if token.kind = .comma then .ok (.shift next) else demand close token final) :
    config.run tokens =
      if nextKind tokens = .comma then next.run tokens.tail
      else if nextKind tokens = close then final.run tokens.tail
      else .error (.expected close (nextKind tokens)) := by
  by_cases hcomma : nextKind tokens = .comma
  · rw [if_pos hcomma]
    cases tokens with
    | nil => cases hcomma
    | cons token rest =>
      have htoken : token.kind = .comma := hcomma
      exact run_cons_of_step (by rw [hstep token rfl, if_pos htoken]) rest
  · have hdemand (token : Token) (htoken : token.kind = nextKind tokens) :
        config.step token = demand close token final := by
      rw [hstep token htoken, if_neg (htoken ▸ hcomma)]
    rw [if_neg hcomma]
    split
    · rename_i hkind
      cases tokens with
      | nil => exact absurd hkind.symm hclose
      | cons token rest =>
        have htoken : token.kind = close := hkind
        exact run_cons_of_step (by rw [hdemand token rfl, demand, if_pos htoken]) rest
    · rename_i hkind
      exact run_demand_of_ne hdemand hkind

private theorem run_operand_of_not_begins {pending : Pending} {outer : List OpenBlock}
    (hbegins : (nextKind tokens).begins = false) :
    (Config.inside .operand pending outer).run tokens = .error (.noOperand (nextKind tokens)) := by
  apply run_of_step_eq_error
  rintro ⟨kind, text⟩ htoken
  rw [← htoken] at hbegins ⊢
  cases kind <;> first | rfl | cases hbegins

end Parser

namespace Follows

variable {config : Config} {tokens : List Token} {kind : Kind} (next : Token → Config)

/-- A rule that begins with a token of one class does not apply to others. -/
theorem led (hkind : kind ≠ .eof)
    (hstep : ∀ token : Token, token.kind = kind → config.step token = .ok (.shift (next token))) :
    Follows (config.run tokens) (fun token => (next token).run)
      (fun token rest => tokens = token :: rest ∧ token.kind = kind) (nextKind tokens ≠ kind)
      (Rule.token kind tokens) := by
  refine token hkind fun token rest htokens htoken => ?_
  rw [htokens, run_cons_of_step (hstep token htoken)]

theorem demand (hkind : kind ≠ .eof)
    (hstep : ∀ token : Token, token.kind = nextKind tokens →
      config.step token = Parser.demand kind token (next token)) :
    Follows (config.run tokens) (fun token => (next token).run)
      (fun token rest => tokens = token :: rest ∧ token.kind = kind) False
      (Rule.expect kind (Rule.token kind) tokens) := by
  refine orFail (token hkind fun token rest htokens htoken => ?_) (run_demand_of_ne hstep)
  subst htokens
  exact run_cons_of_step (by rw [hstep token rfl, Parser.demand, if_pos htoken]) rest

end Follows

/-- Reading on where an operand is due. -/
abbrev atOperand (goal : Goal) (frames : List Frame) (outer : List OpenBlock) :
    List Token → Reading :=
  (Config.inside .operand ⟨goal, frames⟩ outer).run

/-- Reading on behind an operand. -/
abbrev behind (goal : Goal) (frames : List Frame) (outer : List OpenBlock) (expr : Expr) :
    List Token → Reading :=
  (Config.inside (.after expr) ⟨goal, frames⟩ outer).run

/-- Wherever an operand of a level is due, a rule for expressions of that level agrees with reading
the statement around it. It leaves no token that would carry on such an expression, and it does not
apply only where no expression begins. -/
def ReadsBy (level : Nat) (rule : Rule Expr) (tokens : List Token) : Prop :=
  ∀ goal frames outer, due frames ≤ level →
    Follows (atOperand goal frames outer tokens) (behind goal frames outer)
      (fun _ rest => rest.length < tokens.length ∧ (nextKind rest).hold ≤ level)
      ((nextKind tokens).begins = false) (rule tokens)

theorem ReadsBy.required {level : Nat} {rule : Rule Expr} {tokens : List Token}
    (hrule : ReadsBy level rule tokens) (goal : Goal) (frames : List Frame)
    (outer : List OpenBlock) (hdue : due frames ≤ level) :
    Follows (atOperand goal frames outer tokens) (behind goal frames outer)
      (fun _ rest => rest.length < tokens.length ∧ (nextKind rest).hold ≤ level) False
      (Rule.required rule tokens) :=
  (hrule goal frames outer hdue).orFail run_operand_of_not_begins

/-- The expression of a statement is the last of what it reads. -/
theorem ReadsBy.value {rule : Rule Expr} {tokens : List Token} (hrule : ReadsBy 0 rule tokens)
    (goal : Goal) (outer : List OpenBlock) :
    Follows (atOperand goal [] outer tokens) (fun value => resume (goal.stmt value) outer)
      (fun _ rest => rest.length < tokens.length) False (Rule.required rule tokens) := by
  refine (hrule.required goal [] outer (Nat.le_refl 0)).imp (fun expr rest hrest => ?_) id
  have hgrip := Nat.le_trans (Kind.grip_le_hold _) hrest.2
  exact ⟨hrest.1, run_after_eq_resume (Nat.le_zero.mp hgrip) expr goal outer⟩

/-- Behind a whole expression the construct around it decides. -/
theorem step_after_of_hold {rest : List Token} (hhold : (nextKind rest).hold ≤ 0) {token : Token}
    (htoken : token.kind = nextKind rest) (goal : Goal) (frames : List Frame)
    (outer : List OpenBlock) (expr : Expr) :
    (Config.inside (.after expr) ⟨goal, frames⟩ outer).step token =
      settle goal outer token expr frames := by
  rw [← htoken] at hhold
  exact readAfter_eq_settle ((Kind.hold_eq_zero_iff _).mp (Nat.le_zero.mp hhold)) expr _ outer

/-- Wherever an operand is due, a rule for operands agrees with reading the statement around it.
Calls and subscripts may still follow. -/
def ReadsOperand (refuses : Prop) (rule : Rule Expr) (tokens : List Token) : Prop :=
  ∀ goal frames outer,
    Follows (atOperand goal frames outer tokens) (behind goal frames outer)
      (fun _ rest => rest.length < tokens.length) refuses (rule tokens)

namespace ReadsOperand

variable {tokens : List Token}

theorem alternative {refuses declines : Prop} {first second : Rule Expr}
    (hfirst : ReadsOperand refuses first tokens)
    (hsecond : refuses → ReadsOperand declines second tokens) :
    ReadsOperand declines (Rule.alternative first second) tokens :=
  fun goal frames outer => (hfirst goal frames outer).alternative fun hrefuses =>
    hsecond hrefuses goal frames outer

theorem imp {refuses declines : Prop} {rule : Rule Expr} (hrule : ReadsOperand refuses rule tokens)
    (hrefuses : refuses → declines) : ReadsOperand declines rule tokens :=
  fun goal frames outer => (hrule goal frames outer).imp (fun _ _ hends => ⟨hends, rfl⟩) hrefuses

theorem leaf {kind : Kind} (hkind : kind ≠ .eof) {build : String → Expr}
    (hread : ∀ text pending outer, readOperand pending outer ⟨kind, text⟩ =
      .ok (.inside (.after (build text)) pending outer)) :
    ReadsOperand (nextKind tokens ≠ kind) (Rules.leaf kind build) tokens := by
  intro goal frames outer
  refine .bind (.led (fun token => .inside (.after (build token.text)) ⟨goal, frames⟩ outer)
    hkind ?_) ?_
  · rintro ⟨_, text⟩ rfl
    simp only [Config.step, readInside, hread, Except.map]
  · rintro token rest ⟨rfl, -⟩
    exact .pure (Nat.lt_succ_self _) rfl

/-- Behind a literal, reading goes on with its value or ends because it has none. -/
def behindInteger (goal : Goal) (frames : List Frame) (outer : List OpenBlock) (literal : Token)
    (rest : List Token) : Reading :=
  match Decimal.read? literal.text with
  | some value => behind goal frames outer (.int value) rest
  | none => .error (.integer literal.text)

theorem integer : ReadsOperand (nextKind tokens ≠ .int) Rules.integer tokens := by
  intro goal frames outer
  have hliteral : ∀ token rest, tokens = token :: rest → token.kind = .int →
      atOperand goal frames outer tokens = behindInteger goal frames outer token rest := by
    rintro ⟨_, text⟩ rest rfl rfl
    simp only [Config.run, Config.step, readInside, readOperand, behindInteger]
    cases Decimal.read? text <;> rfl
  refine .bind (.token (by decide) hliteral) ?_
  rintro ⟨kind, text⟩ rest ⟨rfl, -⟩
  rw [behindInteger]
  cases Decimal.read? text with
  | some value => exact .pure (Nat.lt_succ_self _) rfl
  | none => rfl

theorem atomic : ReadsOperand (nextKind tokens ≠ .ident ∧ nextKind tokens ≠ .int ∧
    nextKind tokens ≠ .string ∧ nextKind tokens ≠ .kwTrue ∧ nextKind tokens ≠ .kwFalse ∧
    nextKind tokens ≠ .kwNull) Rules.atomic tokens :=
  .alternative (.leaf (by decide) fun _ _ _ => rfl) fun hident =>
  .alternative .integer fun hint =>
  .alternative (.leaf (by decide) fun _ _ _ => rfl) fun hstring =>
  .alternative (.leaf (by decide) fun _ _ _ => rfl) fun htrue =>
  .alternative (.leaf (by decide) fun _ _ _ => rfl) fun hfalse =>
  (leaf (by decide) fun _ _ _ => rfl).imp fun hnull => ⟨hident, hint, hstring, htrue, hfalse, hnull⟩

end ReadsOperand

/-- Reading a statement with the semicolon that may close it. Inside a block that is one of those
that mean nothing. -/
def atStart (outer : List OpenBlock) (tokens : List Token) : Reading :=
  match outer with
  | [] => statement tokens
  | _ :: _ => (Config.head .start outer).run tokens

private theorem dropSemicolon_eq_self {tokens : List Token} (hkind : nextKind tokens ≠ .semicolon) :
    dropSemicolon tokens = tokens := by
  cases tokens with
  | nil => rfl
  | cons token rest => exact if_neg hkind

private theorem resume_dropSemicolon (stmt : Stmt) (block : OpenBlock) (outer : List OpenBlock)
    (rest : List Token) :
    resume stmt (block :: outer) (dropSemicolon rest) = resume stmt (block :: outer) rest := by
  by_cases hkind : nextKind rest = .semicolon
  · cases rest with
    | nil => rfl
    | cons token rest =>
      obtain ⟨kind, text⟩ := token
      cases hkind
      rfl
  · rw [dropSemicolon_eq_self hkind]

/-- The semicolon that closes a statement is read with it, or else before the next one. -/
theorem Follows.atStart {outer : List OpenBlock} {tokens : List Token}
    {ends : Stmt → List Token → Prop} {refuses : Prop} {outcome : Except Stop (Stmt × List Token)}
    (hfollows : Follows ((Config.head .start outer).run tokens) (fun stmt => resume stmt outer) ends
      refuses outcome) :
    Follows (atStart outer tokens) (fun stmt rest => resume stmt outer (dropSemicolon rest)) ends
      refuses outcome := by
  cases outer with
  | nil =>
    match outcome, hfollows with
    | .ok (stmt, rest), hok =>
      refine ⟨hok.1, ?_⟩
      rw [MonkeyLang.atStart, statement, Config.start, hok.2]
      rfl
    | .error (.refused _), hrefused => exact hrefused
    | .error (.failed (.named error)), hfailed =>
      change statement tokens = .error error
      rw [statement, Config.start, hfailed]
      rfl
  | cons block outer =>
    exact hfollows.imp
      (fun stmt rest hends => ⟨hends, (resume_dropSemicolon stmt block outer rest).symm⟩) id

theorem Follows.name {config : Config} {tokens : List Token} (next : String → Config)
    (hstep : ∀ token : Token, config.step token = Parser.demand .ident token (next token.text)) :
    Follows (config.run tokens) (fun name => (next name).run)
      (fun _ rest => rest.length < tokens.length) False
      (Rule.expect .ident Rules.param tokens) := by
  refine orFail (.bind (.led (fun token => next token.text) (by decide) ?_) ?_)
    (run_demand_of_ne fun token _ => hstep token)
  · intro token htoken
    rw [hstep token, Parser.demand, if_pos htoken]
  · rintro token rest ⟨rfl, -⟩
    exact .pure (Nat.lt_succ_self _) rfl

/-- The parameters of a function, with the parentheses around them. -/
theorem Follows.params (pending : Pending) (outer : List OpenBlock) {tokens : List Token} :
    Follows ((Config.inside .fnParen pending outer).run tokens)
      (fun names => (Config.inside (.openBlock (.body names)) pending outer).run)
      (fun _ rest => rest.length < tokens.length) False
      (Rule.expect .lparen
        (Rule.separated .lparen .rparen (Rule.expect .ident Rules.param)) tokens) := by
  have hstep (token : Token) : (Config.inside .fnParen pending outer).step token =
      Parser.demand .lparen token (.inside .firstParam pending outer) := rfl
  have hopen : ∀ token rest, tokens = token :: rest → token.kind = .lparen →
      (Config.inside .fnParen pending outer).run tokens =
        (Config.inside .firstParam pending outer).run rest := by
    rintro token rest rfl htoken
    exact run_cons_of_step (by rw [hstep, Parser.demand, if_pos htoken]) rest
  have hname (done : List String) (others : List Token) (_ : others.length < tokens.length) :
      Follows ((Config.inside (.param done) pending outer).run others)
        (fun name => (Config.inside (.afterParam (done ++ [name])) pending outer).run)
        (fun _ rest => rest.length < others.length ∧ True) False
        (Rule.expect .ident Rules.param others) :=
    (name (fun name => .inside (.afterParam (done ++ [name])) pending outer) fun _ => rfl).imp
      (fun _ _ hrest => ⟨⟨hrest, trivial⟩, rfl⟩) id
  refine orFail (.separated (by decide) hopen (fun rest => run_closing (by decide) fun token => ?_)
    hname ?_ (Nat.le_refl _)) (run_demand_of_ne fun token _ => hstep token)
  · rfl
  · intro done value rest _
    exact run_separator (by decide) fun token _ => rfl

/-- The rules agree with reading on all lists of tokens that are shorter than a bound. -/
structure Rules.Agrees (bound : Nat) (inner : Rules) : Prop where
  expression : ∀ tokens, tokens.length < bound → ReadsBy 0 inner.expression tokens
  prefixed : ∀ tokens, tokens.length < bound → ReadsBy 5 inner.prefixed tokens
  statement : ∀ tokens outer, tokens.length < bound →
    Follows (atStart outer tokens) (fun stmt => resume stmt outer)
      (fun _ rest => rest.length < tokens.length) False (inner.statement tokens)

namespace Rules.Agrees

variable {inner : Rules} {bound : Nat} (hinner : inner.Agrees bound) {tokens : List Token}

include hinner

theorem upTo {close : Kind} (hclose : close ≠ .eof) (next : Expr → Config) {goal : Goal}
    {frame : Frame} {frames : List Frame} {outer : List OpenBlock}
    (hdue : due (frame :: frames) = 0)
    (hsettle : ∀ expr token, settle goal outer token expr (frame :: frames) =
      demand close token (next expr)) (hbound : tokens.length < bound) :
    Follows (atOperand goal (frame :: frames) outer tokens) (fun expr => (next expr).run)
      (fun _ rest => rest.length < tokens.length) False
      (Rule.upTo close inner.expression tokens) := by
  have hexpr := (hinner.expression tokens hbound).required goal _ outer (Nat.le_of_eq hdue)
  refine .bind hexpr fun expr rest ⟨hrest, hhold⟩ => ?_
  refine .bind (.demand (fun _ => next expr) hclose fun token htoken => ?_) ?_
  · rw [step_after_of_hold hhold htoken, hsettle]
  · rintro token left ⟨rfl, -⟩
    rw [List.length_cons] at hrest
    exact .pure (by omega) rfl

/-- The members of an array or the arguments of a call. -/
theorem items (head : ListHead) {opening : Kind} (hopening : opening ≠ .eof) {whole : Reading}
    {goal : Goal} {frames : List Frame} {outer : List OpenBlock}
    (hwhole : ∀ token rest, tokens = token :: rest → token.kind = opening →
      whole = (Config.inside (.firstItem head) ⟨goal, frames⟩ outer).run rest)
    (hbound : tokens.length ≤ bound) :
    Follows whole (fun items => behind goal frames outer (head.build items))
      (fun _ rest => rest.length < tokens.length) (nextKind tokens ≠ opening)
      (Rule.separated opening head.closing (Rule.required inner.expression) tokens) := by
  have hclose : head.closing ≠ .eof := by cases head <;> simp [ListHead.closing]
  have hitem (done : List Expr) (others : List Token) (hshort : others.length < bound) :=
    (hinner.expression others hshort).required goal (.item head done :: frames) outer
      (Nat.le_refl 0)
  refine .separated hopening hwhole (fun rest => run_closing hclose fun token => ?_) hitem ?_ hbound
  · rfl
  · intro done value rest hhold
    refine run_separator hclose fun token htoken => ?_
    rw [step_after_of_hold hhold htoken, settle]

theorem block (head : BlockHead) (pending : Pending) (outer : List OpenBlock)
    (hbound : tokens.length ≤ bound) :
    Follows ((Config.inside (.openBlock head) pending outer).run tokens)
      (fun stmts => (Config.inside (OpenBlock.close ⟨head, stmts, pending⟩) pending outer).run)
      (fun _ rest => rest.length < tokens.length) False
      (Rule.expect .lbrace (Rules.block inner) tokens) := by
  have hstep (token : Token) : (Config.inside (.openBlock head) pending outer).step token =
      demand .lbrace token (.between ⟨head, [], pending⟩ outer) := rfl
  refine .orFail (.bind (.led (fun _ => .between ⟨head, [], pending⟩ outer) (by decide) ?_) ?_)
    (run_demand_of_ne fun token _ => hstep token)
  · intro token htoken
    rw [hstep, demand, if_pos htoken]
  · rintro token rest ⟨rfl, -⟩
    rw [List.length_cons] at hbound ⊢
    refine (Follows.stmtsFrom (fun done => (Config.between ⟨head, done, pending⟩ outer).run)
      (fun done => (Config.inside (OpenBlock.close ⟨head, done, pending⟩) pending outer).run)
      ?_ ?_ ?_ ?_ [] rest hbound).imp (fun _ left hleft => ⟨Nat.lt_succ_of_lt hleft, rfl⟩) id
    · intro done others hshort hclosing hsemicolon heof
      have hstmt := hinner.statement others (⟨head, done, pending⟩ :: outer) hshort
      have hsame : (Config.between ⟨head, done, pending⟩ outer).run others =
          atStart (⟨head, done, pending⟩ :: outer) others := by
        apply Config.run_congr
        rintro ⟨kind, text⟩ htoken
        rw [← htoken] at hclosing hsemicolon heof
        cases kind <;> first | rfl | contradiction
      rw [hsame]
      exact hstmt
    · rintro done ⟨kind, text⟩ rest rfl
      rfl
    · rintro done ⟨kind, text⟩ rest rfl
      rfl
    · intro done others heof
      apply run_of_step_eq_error
      rintro ⟨kind, text⟩ htoken
      cases htoken.trans heof
      rfl

theorem group (hbound : tokens.length ≤ bound) :
    ReadsOperand (nextKind tokens ≠ .lparen) (Rules.group inner) tokens := by
  intro goal frames outer
  refine .bind (.led (fun _ => .inside .operand ⟨goal, .group :: frames⟩ outer) (by decide) ?_) ?_
  · rintro ⟨_, text⟩ rfl
    rfl
  · rintro token rest ⟨rfl, -⟩
    rw [List.length_cons] at hbound ⊢
    refine (hinner.upTo (by decide) (fun expr => .inside (.after expr) ⟨goal, frames⟩ outer) rfl
      (fun _ _ => rfl) hbound).imp (fun _ left hleft => ?_) id
    exact ⟨Nat.lt_succ_of_lt hleft, rfl⟩

theorem array (hbound : tokens.length ≤ bound) :
    ReadsOperand (nextKind tokens ≠ .lbracket) (Rules.array inner) tokens := by
  intro goal frames outer
  refine .bind (hinner.items .array (by decide) ?_ hbound) fun _ _ hrest => .pure hrest rfl
  rintro ⟨_, text⟩ rest rfl rfl
  rfl

theorem pair (done : List (Expr × Expr)) (goal : Goal) (frames : List Frame)
    (outer : List OpenBlock) (hbound : tokens.length < bound) :
    Follows (atOperand goal (.key done :: frames) outer tokens)
      (fun entry => behind goal (.value done entry.1 :: frames) outer entry.2)
      (fun _ rest => rest.length < tokens.length ∧ (nextKind rest).hold ≤ 0) False
      (Rules.pair inner tokens) := by
  refine .bind (hinner.upTo (by decide)
    (fun key => .inside .operand ⟨goal, .value done key :: frames⟩ outer) rfl
    (fun _ _ => rfl) hbound) fun key rest hrest => ?_
  have hvalue := (hinner.expression rest (Nat.lt_trans hrest hbound)).required goal
    (.value done key :: frames) outer (Nat.le_refl 0)
  exact .bind hvalue fun _ left hleft => .pure ⟨Nat.lt_trans hleft.1 hrest, hleft.2⟩ rfl

theorem hash (hbound : tokens.length ≤ bound) :
    ReadsOperand (nextKind tokens ≠ .lbrace) (Rules.hash inner) tokens := by
  intro goal frames outer
  have hopen : ∀ token rest, tokens = token :: rest → token.kind = .lbrace →
      atOperand goal frames outer tokens =
        (Config.inside .firstPair ⟨goal, frames⟩ outer).run rest := by
    rintro ⟨_, text⟩ rest rfl rfl
    rfl
  refine .bind (.separated (by decide) hopen (fun rest => run_closing (by decide) fun token => ?_)
    (fun done others hshort => hinner.pair done goal frames outer hshort) ?_ hbound)
    fun _ _ hrest => .pure hrest rfl
  · rfl
  · rintro done ⟨key, value⟩ rest hhold
    refine run_separator (by decide) fun token htoken => ?_
    rw [step_after_of_hold hhold htoken, settle]

theorem function (hbound : tokens.length ≤ bound) :
    ReadsOperand (nextKind tokens ≠ .kwFn) (Rules.function inner) tokens := by
  intro goal frames outer
  refine .bind (.led (fun _ => .inside .fnParen ⟨goal, frames⟩ outer) (by decide) ?_) ?_
  · rintro ⟨_, text⟩ rfl
    rfl
  · rintro token rest ⟨rfl, -⟩
    rw [List.length_cons] at hbound ⊢
    refine .bind (.params ⟨goal, frames⟩ outer) fun names left hleft => ?_
    refine .bind (hinner.block (.body names) ⟨goal, frames⟩ outer (by omega))
      fun body last hlast => .pure (by omega) rfl

theorem branch (hbound : tokens.length ≤ bound) :
    ReadsOperand (nextKind tokens ≠ .kwIf) (Rules.branch inner) tokens := by
  intro goal frames outer
  refine .bind (.led (fun _ => .inside .ifParen ⟨goal, frames⟩ outer) (by decide) ?_) ?_
  · rintro ⟨_, text⟩ rfl
    rfl
  rintro word rest ⟨rfl, -⟩
  rw [List.length_cons] at hbound ⊢
  refine .bind (.demand (fun _ => .inside .operand ⟨goal, .test :: frames⟩ outer) (by decide)
    fun _ _ => rfl) ?_
  rintro lparen tests ⟨rfl, -⟩
  rw [List.length_cons] at hbound ⊢
  refine .bind (hinner.upTo (by decide)
    (fun test => .inside (.openBlock (.yes test)) ⟨goal, frames⟩ outer) rfl (fun _ _ => rfl)
    (by omega)) fun test yes hyes => ?_
  refine .bind (hinner.block (.yes test) ⟨goal, frames⟩ outer (by omega))
    fun block others hothers => ?_
  have helse : Follows ((Config.inside (.mayElse test block) ⟨goal, frames⟩ outer).run others)
      (fun no => behind goal frames outer (.cond test block no))
      (fun _ last => last.length ≤ others.length) False
      (Rule.opt (otherwise inner) others) := by
    refine .opt (.bind (.led
      (fun _ => .inside (.openBlock (.no test block)) ⟨goal, frames⟩ outer) (by decide) ?_) ?_) ?_
    · rintro ⟨_, text⟩ rfl
      rfl
    · rintro word last ⟨rfl, -⟩
      rw [List.length_cons] at hothers ⊢
      refine (hinner.block (.no test block) ⟨goal, frames⟩ outer (by omega)).imp
        (fun _ final hfinal => ⟨by omega, rfl⟩) id
    · intro hkind
      refine ⟨Nat.le_refl _, Config.run_congr fun token htoken => ?_⟩
      simp only [Config.step, readInside, htoken, if_neg hkind]
  exact .bind helse fun no last hlast => .pure (by omega) rfl

/-- The rule for operands applies wherever an expression begins, unless it is with a unary
operator. -/
theorem operand (hbound : tokens.length ≤ bound) (hbang : nextKind tokens ≠ .bang)
    (hminus : nextKind tokens ≠ .minus) :
    ReadsOperand ((nextKind tokens).begins = false) (Rules.operand inner) tokens := by
  refine .alternative .atomic fun hatomic => ?_
  refine .alternative (hinner.group hbound) fun hgroup => ?_
  refine .alternative (hinner.array hbound) fun harray => ?_
  refine .alternative (hinner.hash hbound) fun hhash => ?_
  refine .alternative (hinner.branch hbound) fun hbranch => ?_
  refine (hinner.function hbound).imp fun hfunction => ?_
  generalize nextKind tokens = kind at *
  cases kind <;> simp_all [Kind.begins]

/-- A call or a subscript is read on top of the operand before it. -/
theorem postfixPart (hbound : tokens.length ≤ bound) (goal : Goal) (frames : List Frame)
    (outer : List OpenBlock) (expr : Expr) :
    Follows (behind goal frames outer expr tokens)
      (fun part => behind goal frames outer (Postfix.apply expr part))
      (fun _ rest => rest.length < tokens.length)
      (nextKind tokens ≠ .lparen ∧ nextKind tokens ≠ .lbracket)
      (Rule.alternative (callPart inner) (indexPart inner) tokens) := by
  refine .alternative (.bind (hinner.items (.args expr) (by decide) ?_ hbound)
    fun _ _ hrest => .pure hrest rfl) fun hparen => ?_
  · rintro ⟨_, text⟩ rest rfl rfl
    rfl
  · refine (Follows.bind (.led (fun _ => .inside .operand ⟨goal, .index expr :: frames⟩ outer)
      (by decide) ?_) ?_).imp (fun _ _ hends => ⟨hends, rfl⟩) fun hbracket => ⟨hparen, hbracket⟩
    · rintro ⟨_, text⟩ rfl
      rfl
    · rintro token rest ⟨rfl, -⟩
      rw [List.length_cons] at hbound ⊢
      refine .bind (hinner.upTo (by decide)
        (fun index => .inside (.after (.index expr index)) ⟨goal, frames⟩ outer) rfl
        (fun _ _ => rfl) hbound) fun index left hleft => .pure (by omega) rfl

theorem postfixed (hbound : tokens.length ≤ bound) (hbang : nextKind tokens ≠ .bang)
    (hminus : nextKind tokens ≠ .minus) : ReadsBy 6 (Rules.postfixed inner) tokens := by
  intro goal frames outer _
  refine .bind (hinner.operand hbound hbang hminus goal frames outer) fun expr rest hrest => ?_
  have hpart (expr : Expr) (others : List Token) (hshort : others.length < bound) (_ : True) :
      Follows (behind goal frames outer expr others)
        (fun part => behind goal frames outer (Postfix.apply expr part))
        (fun _ left => left.length < others.length ∧ True)
        (nextKind others ≠ .lparen ∧ nextKind others ≠ .lbracket)
        (Rule.alternative (callPart inner) (indexPart inner) others) :=
    (hinner.postfixPart (Nat.le_of_lt hshort) goal frames outer expr).imp
      (fun _ _ hleft => ⟨⟨hleft, trivial⟩, rfl⟩) id
  refine .bind (.many hpart expr rest (Nat.lt_of_lt_of_le hrest hbound) trivial) ?_
  rintro parts left ⟨hleft, -, hparen, hbracket⟩
  exact .pure ⟨by omega, Kind.hold_le_six hparen hbracket⟩ rfl

theorem prefixedRule (hbound : tokens.length ≤ bound) :
    ReadsBy 5 (Rules.prefixedRule inner) tokens := by
  intro goal frames outer hdue
  have hop (op : UnaryOp) : Follows (atOperand goal frames outer tokens)
      (fun found => atOperand goal (.unary found :: frames) outer)
      (fun _ rest => rest.length < tokens.length) (nextKind tokens ≠ op.kind)
      (unaryOp op tokens) := by
    refine .bind (.led (fun _ => .inside .operand ⟨goal, .unary op :: frames⟩ outer) ?_ ?_) ?_
    · cases op <;> decide
    · rintro ⟨_, text⟩ rfl
      cases op <;> rfl
    · rintro token rest ⟨rfl, -⟩
      exact .pure (Nat.lt_succ_self _) rfl
  have hops : Follows (atOperand goal frames outer tokens)
      (fun op => atOperand goal (.unary op :: frames) outer)
      (fun _ rest => rest.length < tokens.length)
      (nextKind tokens ≠ .bang ∧ nextKind tokens ≠ .minus)
      (Rule.alternative (unaryOp .not) (unaryOp .negate) tokens) :=
    (hop .not).alternative fun hbang => (hop .negate).imp (fun _ _ hrest => ⟨hrest, rfl⟩)
      fun hminus => ⟨hbang, hminus⟩
  refine .alternative (.bind hops fun op rest hrest => ?_) ?_
  · have hoperand := (hinner.prefixed rest (by omega)).required goal (.unary op :: frames) outer
      (Nat.le_refl 5)
    refine .bind hoperand fun operand left hleft => ?_
    refine .pure ⟨Nat.lt_trans hleft.1 hrest, hleft.2⟩ ?_
    exact run_after_complete (.unary op) (Nat.le_trans (Kind.grip_le_hold _) hleft.2) goal frames
      outer
  · rintro ⟨hbang, hminus⟩
    refine (hinner.postfixed hbound hbang hminus goal frames outer (by omega)).imp
      (fun _ rest hrest => ?_) id
    exact ⟨⟨hrest.1, Kind.hold_le_five hrest.2⟩, rfl⟩

end Rules.Agrees

/-- An operator is taken behind its left operand, for which nothing tighter is waiting. -/
theorem Follows.binaryOp {op : BinaryOp} {frames : List Frame} (hdue : due frames ≤ op.level)
    (goal : Goal) (outer : List OpenBlock) (left : Expr) (tokens : List Token) :
    Follows (behind goal frames outer left tokens)
      (fun found => atOperand goal (.binary left found :: frames) outer)
      (fun found rest => found.level = op.level ∧ rest.length < tokens.length)
      (nextKind tokens ≠ op.kind) (Rules.binaryOp op tokens) := by
  refine .bind (.led (fun _ => .inside .operand ⟨goal, .binary left op :: frames⟩ outer) ?_ ?_) ?_
  · cases op <;> decide
  · rintro ⟨_, text⟩ rfl
    simp only [Config.step, readInside, readAfter_operator, reduce_eq_self hdue op.level_le_four]
  · rintro token rest ⟨rfl, -⟩
    exact .pure ⟨rfl, Nat.lt_succ_self _⟩ rfl

/-- Operators of one level are read on top of the operands before them. -/
theorem ReadsBy.binaryLevel {level bound : Nat} (first second : BinaryOp) {operands : Rule Expr}
    (hfirst : first.level = level) (hsecond : second.level = level)
    (hall : ∀ op : BinaryOp, op.level = level → op = first ∨ op = second)
    (hoperands : ∀ tokens, tokens.length ≤ bound → ReadsBy (level + 1) operands tokens)
    {tokens : List Token} (hbound : tokens.length ≤ bound) :
    ReadsBy level (Rules.binaryLevel first second operands) tokens := by
  intro goal frames outer hdue
  have hops (left : Expr) (others : List Token) :
      Follows (behind goal frames outer left others)
        (fun op => atOperand goal (.binary left op :: frames) outer)
        (fun op rest => op.level = level ∧ rest.length < others.length)
        (nextKind others ≠ first.kind ∧ nextKind others ≠ second.kind)
        (Rule.alternative (Rules.binaryOp first) (Rules.binaryOp second) others) := by
    refine .alternative ((Follows.binaryOp (hfirst ▸ hdue) goal outer left others).imp
      (fun _ _ hends => ⟨hfirst ▸ hends, rfl⟩) id) fun hone => ?_
    exact (Follows.binaryOp (hsecond ▸ hdue) goal outer left others).imp
      (fun _ _ hends => ⟨hsecond ▸ hends, rfl⟩) fun htwo => ⟨hone, htwo⟩
  have hpart (left : Expr) (others : List Token) (hshort : others.length < bound + 1)
      (_ : (nextKind others).hold ≤ level + 1) :
      Follows (behind goal frames outer left others)
        (fun part => behind goal frames outer (.binary left part.1 part.2))
        (fun _ rest => rest.length < others.length ∧ (nextKind rest).hold ≤ level + 1)
        (nextKind others ≠ first.kind ∧ nextKind others ≠ second.kind)
        (Rules.binaryPart first second operands others) := by
    refine .bind (hops left others) fun op rest hrest => ?_
    have hright := (hoperands rest (by omega)).required goal (.binary left op :: frames) outer
      (Nat.le_of_eq (congrArg (· + 1) hrest.1))
    refine .bind hright fun right last hlast => ?_
    refine .pure ⟨Nat.lt_trans hlast.1 hrest.2, hlast.2⟩ ?_
    have hgrip := Kind.grip_le_of_hold_le op.level_pos (hrest.1 ▸ hlast.2)
    exact run_after_complete (.binary left op) hgrip goal frames outer
  refine .bind (hoperands tokens hbound goal frames outer (by omega)) fun left rest hrest => ?_
  refine .bind (.many hpart left rest (by omega) hrest.2) ?_
  rintro others last ⟨hlast, hhold, hone, htwo⟩
  refine .pure ⟨by omega, ?_⟩ ?_
  · refine Kind.hold_le_of_ne (hfirst ▸ first.level_pos) (hfirst ▸ first.level_le_four) hhold ?_
    intro op hop
    rcases hall op hop with rfl | rfl
    · exact hone
    · exact htwo
  · rfl

namespace Rules.Agrees

variable {inner : Rules} {bound : Nat} (hinner : inner.Agrees bound) {tokens : List Token}

include hinner

theorem equality (hbound : tokens.length ≤ bound) : ReadsBy 1 (Rules.equality inner) tokens := by
  have hall : ∀ op : BinaryOp, (op.level = 4 → op = .mul ∨ op = .div) ∧
      (op.level = 3 → op = .add ∨ op = .sub) ∧ (op.level = 2 → op = .less ∨ op = .greater) ∧
      (op.level = 1 → op = .equal ∨ op = .notEqual) := by
    intro op
    cases op <;> decide
  have hproduct (tokens : List Token) (hbound : tokens.length ≤ bound) :
      ReadsBy 4 (Rules.product inner) tokens :=
    .binaryLevel .mul .div rfl rfl (fun op => (hall op).1)
      (fun _ hshort => hinner.prefixedRule hshort) hbound
  have hsum (tokens : List Token) (hbound : tokens.length ≤ bound) :
      ReadsBy 3 (Rules.sum inner) tokens :=
    .binaryLevel .add .sub rfl rfl (fun op => (hall op).2.1) hproduct hbound
  have hinequality (tokens : List Token) (hbound : tokens.length ≤ bound) :
      ReadsBy 2 (Rules.inequality inner) tokens :=
    .binaryLevel .less .greater rfl rfl (fun op => (hall op).2.2.1) hsum hbound
  exact .binaryLevel .equal .notEqual rfl rfl (fun op => (hall op).2.2.2) hinequality hbound

theorem expressionRule (hbound : tokens.length ≤ bound) :
    ReadsBy 0 (Rules.expressionRule inner) tokens := by
  intro goal frames outer hdue
  refine .bind (hinner.equality hbound goal frames outer (by omega)) fun test rest hrest => ?_
  have hbranches : Follows (behind goal frames outer test rest)
      (fun found => behind goal frames outer
        (found.elim test fun branches => .ternary test branches.1 branches.2))
      (fun _ last => last.length ≤ rest.length ∧ (nextKind last).hold ≤ 0) False
      (Rule.opt (branches inner) rest) := by
    refine .opt (.bind (.led (fun _ => .inside .operand ⟨goal, .ternaryYes test :: frames⟩ outer)
      (by decide) ?_) ?_) ?_
    · rintro ⟨_, text⟩ rfl
      have hsame := reduce_eq_self (Nat.le_trans hdue (Nat.zero_le 1)) (by omega) test
      simp only [Config.step, readInside, readAfter, hsame]
    · rintro token others ⟨rfl, -⟩
      rw [List.length_cons] at hrest ⊢
      refine .bind (hinner.upTo (by decide)
        (fun yes => .inside .operand ⟨goal, .ternaryNo test yes :: frames⟩ outer) rfl
        (fun _ _ => rfl) (by omega)) fun yes left hleft => ?_
      have hno := (hinner.expression left (by omega)).required goal (.ternaryNo test yes :: frames)
        outer (Nat.le_refl 0)
      refine .bind hno fun no last hlast => .pure ⟨by omega, hlast.2⟩ ?_
      exact run_after_complete (.ternary test yes) (Nat.le_trans (Kind.grip_le_hold _) hlast.2)
        goal frames outer
    · exact fun hquestion => ⟨⟨Nat.le_refl _, Kind.hold_le_zero hrest.2 hquestion⟩, rfl⟩
  exact .bind hbranches fun _ last hlast => .pure ⟨by omega, hlast.2⟩ rfl

theorem letStatement (hbound : tokens.length ≤ bound) (outer : List OpenBlock) :
    Follows ((Config.head .start outer).run tokens) (fun stmt => resume stmt outer)
      (fun _ rest => rest.length < tokens.length) (nextKind tokens ≠ .kwLet)
      (Rules.letStatement inner tokens) := by
  refine .bind (.led (fun _ => .head .letName outer) (by decide) ?_) ?_
  · rintro ⟨_, text⟩ rfl
    rfl
  rintro word rest ⟨rfl, -⟩
  rw [List.length_cons] at hbound ⊢
  refine .bind (.name (fun name => .head (.letAssign name) outer) fun _ => rfl)
    fun name others hothers => ?_
  refine .bind (.demand (fun _ => .inside .operand ⟨.bind name, []⟩ outer) (by decide)
    fun _ _ => rfl) ?_
  rintro assign values ⟨rfl, -⟩
  rw [List.length_cons] at hothers
  exact .bind ((hinner.expression values (by omega)).value (.bind name) outer)
    fun _ last hlast => .pure (by omega) rfl

theorem returnStatement (hbound : tokens.length ≤ bound) (outer : List OpenBlock) :
    Follows ((Config.head .start outer).run tokens) (fun stmt => resume stmt outer)
      (fun _ rest => rest.length < tokens.length) (nextKind tokens ≠ .kwReturn)
      (Rules.returnStatement inner tokens) := by
  refine .bind (.led (fun _ => .head .retValue outer) (by decide) ?_) ?_
  · rintro ⟨_, text⟩ rfl
    rfl
  rintro word rest ⟨rfl, -⟩
  rw [List.length_cons] at hbound ⊢
  split
  · rename_i hends
    refine ⟨Nat.lt_succ_self _, run_eq_resume ?_⟩
    rintro ⟨kind, text⟩ htoken
    rw [← htoken] at hends
    cases kind <;> simp_all [Kind.endsReturn, Config.step, readHead]
  · rename_i hends
    have hsame : (Config.head .retValue outer).run rest = atOperand .ret [] outer rest := by
      apply Config.run_congr
      rintro ⟨kind, text⟩ htoken
      rw [← htoken] at hends
      cases kind <;> first | rfl | exact absurd rfl hends
    rw [hsame]
    exact .bind ((hinner.expression rest hbound).value .ret outer)
      fun _ last hlast => .pure (by omega) rfl

/-- A statement before the semicolon that may close it. -/
theorem unclosed (hbound : tokens.length ≤ bound) (outer : List OpenBlock) :
    Follows ((Config.head .start outer).run tokens) (fun stmt => resume stmt outer)
      (fun _ rest => rest.length < tokens.length) False
      (Rule.alternative (Rules.letStatement inner) (Rule.alternative (Rules.returnStatement inner)
        do return .expr (← Rule.required (Rules.expressionRule inner))) tokens) := by
  refine .alternative (hinner.letStatement hbound outer) fun hlet => ?_
  refine .alternative (hinner.returnStatement hbound outer) fun hreturn => ?_
  have hsame : (Config.head .start outer).run tokens = atOperand .expr [] outer tokens := by
    apply Config.run_congr
    rintro ⟨kind, text⟩ htoken
    rw [← htoken] at hlet hreturn
    cases kind <;> first | rfl | contradiction
  rw [hsame]
  exact .bind ((hinner.expressionRule hbound).value .expr outer) fun _ last hlast => .pure hlast rfl

theorem statementRule (hbound : tokens.length ≤ bound) (outer : List OpenBlock) :
    Follows (atStart outer tokens) (fun stmt => resume stmt outer)
      (fun _ rest => rest.length < tokens.length) False (Rules.statementRule inner tokens) := by
  refine .bind (.atStart (hinner.unclosed hbound outer)) fun stmt rest hrest => ?_
  have hclosed : Follows (resume stmt outer (dropSemicolon rest)) (fun _ => resume stmt outer)
      (fun _ last => last.length ≤ rest.length) False
      (Rule.opt (Rule.token .semicolon) rest) := by
    have hsemicolon : ∀ token last, rest = token :: last → token.kind = .semicolon →
        resume stmt outer (dropSemicolon rest) = resume stmt outer last := by
      rintro ⟨_, text⟩ last rfl rfl
      rfl
    refine .opt ((Follows.token (by decide) hsemicolon).imp ?_ id) fun hkind => ?_
    · rintro token last ⟨rfl, -⟩
      exact ⟨Nat.le_succ _, rfl⟩
    · exact ⟨Nat.le_refl _, congrArg _ (dropSemicolon_eq_self hkind)⟩
  exact .bind hclosed fun _ last hlast => .pure (by omega) rfl

end Rules.Agrees

/-- Rules that have been unfolded often enough agree with reading. -/
theorem Rules.agrees_unfolded (depth : Nat) : (Rules.unfolded depth).Agrees depth := by
  induction depth with
  | zero => exact ⟨nofun, nofun, nofun⟩
  | succ depth ih =>
    refine ⟨fun tokens hbound => ?_, fun tokens hbound => ?_, fun tokens outer hbound => ?_⟩
    · exact ih.expressionRule (Nat.le_of_lt_succ hbound)
    · exact ih.prefixedRule (Nat.le_of_lt_succ hbound)
    · exact ih.statementRule (Nat.le_of_lt_succ hbound) outer

end MonkeyLang
