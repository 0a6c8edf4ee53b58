import MonkeyLang.Program
import MonkeyLang.Proofs.Parser.Precedence

namespace MonkeyLang.Parser

open Grammar

/-- Configurations that treat the next token alike read alike. -/
theorem Config.run_congr {config other : Config} {tokens : List Token}
    (hstep : ∀ token : Token, token.kind = nextKind tokens → config.step token = other.step token) :
    config.run tokens = other.run tokens := by
  cases tokens with
  | nil => rw [Config.run, Config.run, hstep .eof rfl]
  | cons token rest => rw [Config.run, Config.run, hstep token rfl]

/-- What an operator that waits for its last operand becomes with it. -/
inductive Completes (expr : Expr) : Frame → Expr → Prop where
  | unary (op : UnaryOp) : Completes expr (.unary op) (.unary op expr)
  | binary (left : Expr) (op : BinaryOp) : Completes expr (.binary left op) (.binary left op expr)
  | ternary (test yes : Expr) : Completes expr (.ternaryNo test yes) (.ternary test yes expr)

section

variable {expr whole : Expr} {frame : Frame}

theorem Completes.level_le_five (hwhole : Completes expr frame whole) : frame.level ≤ 5 := by
  cases hwhole with
  | unary op => exact Nat.le_refl 5
  | binary left op =>
    have hop := op.level_le_four
    simp only [Frame.level]
    omega
  | ternary test yes => exact Nat.zero_le 5

private theorem reduce_complete {level : Nat} (hwhole : Completes expr frame whole)
    (hpos : 0 < level) (hlevel : level ≤ frame.level) (frames : List Frame) :
    reduce level expr (frame :: frames) = reduce level whole frames := by
  cases hwhole with
  | unary op => rfl
  | binary left op =>
    simp only [Frame.level] at hlevel
    rw [reduce, if_pos hlevel]
  | ternary test yes =>
    simp only [Frame.level] at hlevel
    omega

private theorem settle_complete (hwhole : Completes expr frame whole) (goal : Goal)
    (outer : List OpenBlock) (token : Token) (frames : List Frame) :
    settle goal outer token expr (frame :: frames) = settle goal outer token whole frames := by
  cases hwhole <;> rfl

/-- A token that holds no tighter than an operator finds that operator complete, although it
has been left waiting so far. -/
theorem readAfter_complete {token : Token} (hwhole : Completes expr frame whole)
    (hgrip : token.kind.grip ≤ frame.level) (goal : Goal) (frames : List Frame)
    (outer : List OpenBlock) :
    readAfter expr ⟨goal, frame :: frames⟩ outer token =
      readAfter whole ⟨goal, frames⟩ outer token := by
  have hlevel := hwhole.level_le_five
  unfold readAfter
  split
  · simp_all only [Kind.grip]
    omega
  · simp_all only [Kind.grip]
    omega
  · simp_all only [Kind.grip]
    rw [reduce_complete hwhole Nat.one_pos hgrip]
  · split
    · rename_i op hop
      rw [BinaryOp.kind_of_ofKind?_eq_some hop, BinaryOp.grip_kind] at hgrip
      rw [reduce_complete hwhole op.level_pos hgrip]
    · exact settle_complete hwhole goal outer token frames

theorem run_after_complete {rest : List Token} (hwhole : Completes expr frame whole)
    (hgrip : (nextKind rest).grip ≤ frame.level) (goal : Goal) (frames : List Frame)
    (outer : List OpenBlock) :
    (Config.inside (.after expr) ⟨goal, frame :: frames⟩ outer).run rest =
      (Config.inside (.after whole) ⟨goal, frames⟩ outer).run rest := by
  apply Config.run_congr
  intro token htoken
  rw [← htoken] at hgrip
  exact readAfter_complete hwhole hgrip goal frames outer

end

/-- A token that carries no expression on leaves the decision to what surrounds the
expression. -/
theorem readAfter_eq_settle {token : Token} (htoken : token.kind.continues = false) (expr : Expr)
    (pending : Pending) (outer : List OpenBlock) :
    readAfter expr pending outer token = settle pending.goal outer token expr pending.frames := by
  obtain ⟨kind, text⟩ := token
  cases kind <;> simp_all [Kind.continues, readAfter, BinaryOp.ofKind?]

/-- What is left to read once a statement has been. Outside all blocks that is nothing. -/
def resume (stmt : Stmt) (outer : List OpenBlock) (rest : List Token) :
    Except SyntaxError (Stmt × List Token) :=
  match outer with
  | [] => .ok (stmt, rest)
  | block :: outer => (Config.between { block with done := block.done ++ [stmt] } outer).run rest

theorem run_eq_resume {config : Config} {stmt : Stmt} {outer : List OpenBlock} {rest : List Token}
    (hstep : ∀ token : Token, token.kind = nextKind rest →
      config.step token = endStmt stmt outer token) : config.run rest = resume stmt outer rest := by
  cases outer with
  | nil =>
    cases rest with
    | nil => rw [Config.run, hstep .eof rfl]; rfl
    | cons token rest => rw [Config.run, hstep token rfl]; rfl
  | cons block outer =>
    apply Config.run_congr
    intro token htoken
    rw [hstep token htoken]
    rfl

theorem run_after_eq_resume {rest : List Token} (hgrip : (nextKind rest).grip = 0) (expr : Expr)
    (goal : Goal) (outer : List OpenBlock) :
    (Config.inside (.after expr) ⟨goal, []⟩ outer).run rest =
      resume (goal.stmt expr) outer rest := by
  apply run_eq_resume
  intro token htoken
  rw [← htoken, Kind.grip_eq_zero_iff] at hgrip
  exact readAfter_eq_settle hgrip expr ⟨goal, []⟩ outer

section

variable {tokens : List Token} (hbegins : (nextKind tokens).begins = true)

include hbegins

theorem Config.run_congr_of_begins {config other : Config}
    (hstep : ∀ token : Token, token.kind.begins = true → config.step token = other.step token) :
    config.run tokens = other.run tokens :=
  Config.run_congr fun token htoken => hstep token (htoken ▸ hbegins)

private theorem run_firstItem_eq_run_operand (head : ListHead) (goal : Goal) (frames : List Frame)
    (outer : List OpenBlock) :
    (Config.inside (.firstItem head) ⟨goal, frames⟩ outer).run tokens =
      (Config.inside .operand ⟨goal, .item head [] :: frames⟩ outer).run tokens := by
  apply Config.run_congr_of_begins hbegins
  intro token htoken
  have hopen : token.kind ≠ head.closing := by
    intro hclosing
    rw [hclosing] at htoken
    cases head <;> cases htoken
  simp only [Config.step, readInside, if_neg hopen, Pending.push]

private theorem run_firstPair_eq_run_operand (goal : Goal) (frames : List Frame)
    (outer : List OpenBlock) : (Config.inside .firstPair ⟨goal, frames⟩ outer).run tokens =
      (Config.inside .operand ⟨goal, .key [] :: frames⟩ outer).run tokens := by
  apply Config.run_congr_of_begins hbegins
  intro token htoken
  have hopen : token.kind ≠ .rbrace := by
    intro hclosing
    rw [hclosing] at htoken
    cases htoken
  simp only [Config.step, readInside, if_neg hopen, Pending.push]

private theorem run_start_eq_run_operand (outer : List OpenBlock) :
    (Config.head .start outer).run tokens =
      (Config.inside .operand ⟨.expr, []⟩ outer).run tokens := by
  apply Config.run_congr_of_begins hbegins
  rintro ⟨kind, text⟩ htoken
  cases kind <;> simp_all [Kind.begins, Config.step, readHead, readStart, readInside]

private theorem run_retValue_eq_run_operand (outer : List OpenBlock) :
    (Config.head .retValue outer).run tokens =
      (Config.inside .operand ⟨.ret, []⟩ outer).run tokens := by
  apply Config.run_congr_of_begins hbegins
  rintro ⟨kind, text⟩ htoken
  cases kind <;> simp_all [Kind.begins, Config.step, readHead, readInside]

end

private theorem run_between_eq_run_start {stmt : Stmt} {tokens : List Token} {next : Kind}
    (hstmt : Statement stmt tokens next) (rest : List Token) (block : OpenBlock)
    (outer : List OpenBlock) :
    (Config.between block outer).run (tokens ++ rest) =
      (Config.head .start (block :: outer)).run (tokens ++ rest) := by
  apply Config.run_congr
  rintro ⟨kind, text⟩ htoken
  have hbegins := hstmt.begins
  rw [← nextKind_append hstmt.ne_nil rest, ← htoken] at hbegins
  cases kind <;> simp_all [Kind.beginsStmt, Kind.begins, Config.step, readBetween, readHead]

private theorem nextKind_statements_ne_else {last tokens : List Token} {stmts : List Stmt}
    (hstmts : Statements last stmts tokens) (hlast : nextKind last ≠ .kwElse) :
    nextKind tokens ≠ .kwElse := by
  cases hstmts with
  | nil => exact hlast
  | semicolon => simp [nextKind]
  | cons hstmt hstmts =>
    rw [nextKind_append hstmt.ne_nil]
    exact hstmt.nextKind_ne rfl

private theorem run_param {params : List String} {tokens : List Token} {rparen : String}
    (hparams : CommaList Param params tokens) (hfilled : params ≠ []) (done : List String)
    (pending : Pending) (outer : List OpenBlock) (rest : List Token) :
    (Config.inside (.param done) pending outer).run (tokens ++ ⟨.rparen, rparen⟩ :: rest) =
      (Config.inside (.openBlock (.body (done ++ params))) pending outer).run rest := by
  induction hparams generalizing done with
  | nil => contradiction
  | one hparam =>
    cases hparam
    rfl
  | @more name names _ _ _ hparam _ hmore ih =>
    cases hparam
    have hnames := ih hmore (done ++ [name])
    rw [List.append_assoc, List.singleton_append] at hnames
    simp only [List.append_assoc, List.cons_append]
    exact hnames

private theorem run_firstParam {params : List String} {tokens : List Token} {rparen : String}
    (hparams : CommaList Param params tokens) (pending : Pending) (outer : List OpenBlock)
    (rest : List Token) :
    (Config.inside .firstParam pending outer).run (tokens ++ ⟨.rparen, rparen⟩ :: rest) =
      (Config.inside (.openBlock (.body params)) pending outer).run rest := by
  have hsame := fun hfilled => @run_param params tokens rparen hparams hfilled [] pending outer rest
  cases hparams with
  | nil => rfl
  | one hparam =>
    cases hparam
    exact hsame (by simp)
  | more hparam =>
    cases hparam
    exact hsame (by simp)

/-- Where an operand of some level is due, the tokens are read as the expression, in front of
anything that would not belong to it. -/
def ReadsExpr (level : Nat) (expr : Expr) (tokens : List Token) : Prop :=
  ∀ (goal : Goal) (frames : List Frame) (outer : List OpenBlock) (rest : List Token),
    due frames ≤ level → (nextKind rest).grip ≤ level → nextKind rest ≠ .kwElse →
    (Config.inside .operand ⟨goal, frames⟩ outer).run (tokens ++ rest) =
      (Config.inside (.after expr) ⟨goal, frames⟩ outer).run rest

/-- Behind the bracket that opens a list, the tokens are read as its members. -/
def ReadsList (items : List Expr) (tokens : List Token) : Prop :=
  ∀ (head : ListHead) (goal : Goal) (frames : List Frame) (outer : List OpenBlock)
    (closing : String) (rest : List Token),
    (Config.inside (.firstItem head) ⟨goal, frames⟩ outer).run
        (tokens ++ ⟨head.closing, closing⟩ :: rest) =
      (Config.inside (.after (head.build items)) ⟨goal, frames⟩ outer).run rest

/-- Behind the brace that opens a hash, the tokens are read as its pairs. -/
def ReadsHash (pairs : List (Expr × Expr)) (tokens : List Token) : Prop :=
  ∀ (goal : Goal) (frames : List Frame) (outer : List OpenBlock) (rbrace : String)
    (rest : List Token),
    (Config.inside .firstPair ⟨goal, frames⟩ outer).run (tokens ++ ⟨.rbrace, rbrace⟩ :: rest) =
      (Config.inside (.after (.hash pairs)) ⟨goal, frames⟩ outer).run rest

/-- Where a statement is due, the tokens are read as the statement. -/
def ReadsStmt (stmt : Stmt) (tokens : List Token) (next : Kind) : Prop :=
  ∀ (outer : List OpenBlock) (rest : List Token), nextKind rest = next → next ≠ .kwElse →
    (Config.head .start outer).run (tokens ++ rest) = resume stmt outer rest

/-- Where a block is due, the tokens are read as the block. -/
def ReadsBlock (block : Block) (tokens : List Token) : Prop :=
  ∀ (head : BlockHead) (pending : Pending) (outer : List OpenBlock) (rest : List Token),
    (Config.inside (.openBlock head) pending outer).run (tokens ++ rest) =
      (Config.inside (OpenBlock.close ⟨head, block, pending⟩) pending outer).run rest

namespace ReadsExpr

/-- An expression is read whole in front of a token that neither carries it on nor is an
`else`, if nothing but such a token ends what waits for it. -/
theorem run_before {expr : Expr} {tokens : List Token} (hexpr : ReadsExpr 0 expr tokens)
    {frames : List Frame} (hdue : due frames = 0) {kind : Kind} (hgrip : kind.grip = 0)
    (helse : kind ≠ .kwElse) (goal : Goal) (outer : List OpenBlock) (text : String)
    (rest : List Token) :
    (Config.inside .operand ⟨goal, frames⟩ outer).run (tokens ++ ⟨kind, text⟩ :: rest) =
      (Config.inside (.after expr) ⟨goal, frames⟩ outer).run (⟨kind, text⟩ :: rest) :=
  hexpr goal frames outer (⟨kind, text⟩ :: rest) (Nat.le_of_eq hdue) (Nat.le_of_eq hgrip) helse

theorem ternary {test yes no : Expr} {ts ys ns : List Token} {question colon : String}
    (htest : ReadsExpr 1 test ts) (hyes : ReadsExpr 0 yes ys) (hno : ReadsExpr 0 no ns) :
    ReadsExpr 0 (.ternary test yes no)
      (ts ++ ⟨.question, question⟩ :: (ys ++ ⟨.colon, colon⟩ :: ns)) := by
  intro goal frames outer rest hdue hgrip helse
  have hsame := reduce_eq_self (Nat.le_trans hdue (Nat.zero_le 1)) (by omega) test
  simp only [List.append_assoc, List.cons_append]
  calc _ = (Config.inside (.after test) ⟨goal, frames⟩ outer).run
          (⟨.question, question⟩ :: (ys ++ ⟨.colon, colon⟩ :: (ns ++ rest))) :=
        htest goal frames outer _ (by omega) (Nat.le_refl 1) (by simp [nextKind])
    _ = (Config.inside .operand ⟨goal, .ternaryYes test :: frames⟩ outer).run
          (ys ++ ⟨.colon, colon⟩ :: (ns ++ rest)) := by
        simp only [Config.run, Config.step, readInside, readAfter, hsame]
    _ = (Config.inside (.after yes) ⟨goal, .ternaryYes test :: frames⟩ outer).run
          (⟨.colon, colon⟩ :: (ns ++ rest)) :=
        hyes.run_before rfl rfl (by decide) goal outer colon (ns ++ rest)
    _ = (Config.inside .operand ⟨goal, .ternaryNo test yes :: frames⟩ outer).run (ns ++ rest) := rfl
    _ = (Config.inside (.after no) ⟨goal, .ternaryNo test yes :: frames⟩ outer).run rest :=
        hno goal _ outer rest (Nat.le_refl 0) hgrip helse
    _ = _ := run_after_complete (.ternary test yes) hgrip goal frames outer

theorem binary {left right : Expr} {op : BinaryOp} {ls rs : List Token} {symbol : String}
    (hleft : ReadsExpr op.level left ls) (hright : ReadsExpr (op.level + 1) right rs) :
    ReadsExpr op.level (.binary left op right) (ls ++ ⟨op.kind, symbol⟩ :: rs) := by
  intro goal frames outer rest hdue hgrip helse
  have hsame := reduce_eq_self hdue op.level_le_four left
  have hkind : op.kind ≠ .kwElse := by cases op <;> decide
  simp only [List.append_assoc, List.cons_append]
  calc _ = (Config.inside (.after left) ⟨goal, frames⟩ outer).run
          (⟨op.kind, symbol⟩ :: (rs ++ rest)) :=
        hleft goal frames outer _ hdue (Nat.le_of_eq op.grip_kind) hkind
    _ = (Config.inside .operand ⟨goal, .binary left op :: frames⟩ outer).run (rs ++ rest) := by
        simp only [Config.run, Config.step, readInside, readAfter_operator, hsame]
    _ = (Config.inside (.after right) ⟨goal, .binary left op :: frames⟩ outer).run rest :=
        hright goal _ outer rest (Nat.le_refl _) (by omega) helse
    _ = _ := run_after_complete (.binary left op) hgrip goal frames outer

theorem unary {op : UnaryOp} {operand : Expr} {tokens : List Token} {symbol : String}
    (hoperand : ReadsExpr 5 operand tokens) :
    ReadsExpr 5 (.unary op operand) (⟨op.kind, symbol⟩ :: tokens) := by
  intro goal frames outer rest hdue hgrip helse
  calc _ = (Config.inside .operand ⟨goal, .unary op :: frames⟩ outer).run (tokens ++ rest) := by
        cases op <;> rfl
    _ = (Config.inside (.after operand) ⟨goal, .unary op :: frames⟩ outer).run rest :=
        hoperand goal _ outer rest (Nat.le_refl 5) hgrip helse
    _ = _ := run_after_complete (.unary op) hgrip goal frames outer

theorem call {callee : Expr} {args : List Expr} {cs as : List Token} {lparen rparen : String}
    (hcallee : ReadsExpr 6 callee cs) (hargs : ReadsList args as) :
    ReadsExpr 6 (.call callee args) (cs ++ ⟨.lparen, lparen⟩ :: (as ++ [⟨.rparen, rparen⟩])) := by
  intro goal frames outer rest hdue hgrip helse
  simp only [List.append_assoc, List.cons_append, List.nil_append]
  calc _ = (Config.inside (.after callee) ⟨goal, frames⟩ outer).run
          (⟨.lparen, lparen⟩ :: (as ++ ⟨.rparen, rparen⟩ :: rest)) :=
        hcallee goal frames outer _ hdue (Nat.le_refl 6) (by simp [nextKind])
    _ = _ := hargs (.args callee) goal frames outer rparen rest

theorem index {left index : Expr} {ls is : List Token} {lbracket rbracket : String}
    (hleft : ReadsExpr 6 left ls) (hindex : ReadsExpr 0 index is) :
    ReadsExpr 6 (.index left index)
      (ls ++ ⟨.lbracket, lbracket⟩ :: (is ++ [⟨.rbracket, rbracket⟩])) := by
  intro goal frames outer rest hdue hgrip helse
  simp only [List.append_assoc, List.cons_append, List.nil_append]
  calc _ = (Config.inside (.after left) ⟨goal, frames⟩ outer).run
          (⟨.lbracket, lbracket⟩ :: (is ++ ⟨.rbracket, rbracket⟩ :: rest)) :=
        hleft goal frames outer _ hdue (Nat.le_refl 6) (by simp [nextKind])
    _ = (Config.inside .operand ⟨goal, .index left :: frames⟩ outer).run
          (is ++ ⟨.rbracket, rbracket⟩ :: rest) := rfl
    _ = (Config.inside (.after index) ⟨goal, .index left :: frames⟩ outer).run
          (⟨.rbracket, rbracket⟩ :: rest) :=
        hindex.run_before rfl rfl (by decide) goal outer rbracket rest
    _ = _ := rfl

theorem group {expr : Expr} {tokens : List Token} {lparen rparen : String}
    (hexpr : ReadsExpr 0 expr tokens) :
    ReadsExpr 6 expr (⟨.lparen, lparen⟩ :: (tokens ++ [⟨.rparen, rparen⟩])) := by
  intro goal frames outer rest hdue hgrip helse
  simp only [List.append_assoc, List.cons_append, List.nil_append]
  calc _ = (Config.inside .operand ⟨goal, .group :: frames⟩ outer).run
          (tokens ++ ⟨.rparen, rparen⟩ :: rest) := rfl
    _ = (Config.inside (.after expr) ⟨goal, .group :: frames⟩ outer).run
          (⟨.rparen, rparen⟩ :: rest) :=
        hexpr.run_before rfl rfl (by decide) goal outer rparen rest
    _ = _ := rfl

theorem int {literal : String} {value : Int64} (hvalue : Decimal.read? literal = some value) :
    ReadsExpr 6 (.int value) [⟨.int, literal⟩] := by
  intro goal frames outer rest hdue hgrip helse
  simp only [List.singleton_append, Config.run, Config.step, readInside, readOperand, hvalue,
    Except.map]

theorem array {items : List Expr} {tokens : List Token} {lbracket rbracket : String}
    (hitems : ReadsList items tokens) :
    ReadsExpr 6 (.array items) (⟨.lbracket, lbracket⟩ :: (tokens ++ [⟨.rbracket, rbracket⟩])) := by
  intro goal frames outer rest hdue hgrip helse
  simp only [List.append_assoc, List.cons_append, List.nil_append]
  exact hitems .array goal frames outer rbracket rest

theorem hash {pairs : List (Expr × Expr)} {tokens : List Token} {lbrace rbrace : String}
    (hpairs : ReadsHash pairs tokens) :
    ReadsExpr 6 (.hash pairs) (⟨.lbrace, lbrace⟩ :: (tokens ++ [⟨.rbrace, rbrace⟩])) := by
  intro goal frames outer rest hdue hgrip helse
  simp only [List.append_assoc, List.cons_append, List.nil_append]
  exact hpairs goal frames outer rbrace rest

/-- Both forms of a conditional begin alike. -/
theorem run_cond {test : Expr} {yes : Block} {ts ys : List Token} {word lparen rparen : String}
    (htest : ReadsExpr 0 test ts) (hyes : ReadsBlock yes ys) (goal : Goal) (frames : List Frame)
    (outer : List OpenBlock) (rest : List Token) :
    (Config.inside .operand ⟨goal, frames⟩ outer).run
        (⟨.kwIf, word⟩ :: ⟨.lparen, lparen⟩ :: (ts ++ ⟨.rparen, rparen⟩ :: (ys ++ rest))) =
      (Config.inside (.mayElse test yes) ⟨goal, frames⟩ outer).run rest := by
  calc _ = (Config.inside .operand ⟨goal, .test :: frames⟩ outer).run
          (ts ++ ⟨.rparen, rparen⟩ :: (ys ++ rest)) := rfl
    _ = (Config.inside (.after test) ⟨goal, .test :: frames⟩ outer).run
          (⟨.rparen, rparen⟩ :: (ys ++ rest)) :=
        htest.run_before rfl rfl (by decide) goal outer rparen (ys ++ rest)
    _ = (Config.inside (.openBlock (.yes test)) ⟨goal, frames⟩ outer).run (ys ++ rest) := rfl
    _ = _ := hyes (.yes test) ⟨goal, frames⟩ outer rest

theorem cond {test : Expr} {yes : Block} {ts ys : List Token} {word lparen rparen : String}
    (htest : ReadsExpr 0 test ts) (hyes : ReadsBlock yes ys) :
    ReadsExpr 6 (.cond test yes none)
      (⟨.kwIf, word⟩ :: ⟨.lparen, lparen⟩ :: (ts ++ ⟨.rparen, rparen⟩ :: ys)) := by
  intro goal frames outer rest hdue hgrip helse
  simp only [List.append_assoc, List.cons_append]
  rw [run_cond htest hyes]
  apply Config.run_congr
  intro token htoken
  simp only [Config.step, readInside, htoken, if_neg helse]

theorem condElse {test : Expr} {yes no : Block} {ts ys ns : List Token}
    {word lparen rparen other : String} (htest : ReadsExpr 0 test ts) (hyes : ReadsBlock yes ys)
    (hno : ReadsBlock no ns) :
    ReadsExpr 6 (.cond test yes (some no))
      (⟨.kwIf, word⟩ :: ⟨.lparen, lparen⟩ ::
        (ts ++ ⟨.rparen, rparen⟩ :: (ys ++ ⟨.kwElse, other⟩ :: ns))) := by
  intro goal frames outer rest hdue hgrip helse
  simp only [List.append_assoc, List.cons_append]
  rw [run_cond htest hyes]
  exact hno (.no test yes) ⟨goal, frames⟩ outer rest

theorem function {params : List String} {body : Block} {ps bs : List Token}
    {word lparen rparen : String} (hparams : CommaList Param params ps)
    (hbody : ReadsBlock body bs) :
    ReadsExpr 6 (.function params body)
      (⟨.kwFn, word⟩ :: ⟨.lparen, lparen⟩ :: (ps ++ ⟨.rparen, rparen⟩ :: bs)) := by
  intro goal frames outer rest hdue hgrip helse
  simp only [List.append_assoc, List.cons_append]
  calc _ = (Config.inside .firstParam ⟨goal, frames⟩ outer).run
          (ps ++ ⟨.rparen, rparen⟩ :: (bs ++ rest)) := rfl
    _ = (Config.inside (.openBlock (.body params)) ⟨goal, frames⟩ outer).run (bs ++ rest) :=
        run_firstParam hparams ⟨goal, frames⟩ outer (bs ++ rest)
    _ = _ := hbody (.body params) ⟨goal, frames⟩ outer rest

end ReadsExpr

/-- An expression of a list, which is read as such. -/
def ReadsItem (item : Expr) (tokens : List Token) : Prop :=
  Expression 0 item tokens ∧ ReadsExpr 0 item tokens

/-- A pair of a hash, whose parts are read as such. -/
inductive ReadsPair : Expr × Expr → List Token → Prop where
  | pair {key value : Expr} {ks vs : List Token} {colon : String} (hkey : ReadsItem key ks)
      (hvalue : ReadsExpr 0 value vs) : ReadsPair (key, value) (ks ++ ⟨.colon, colon⟩ :: vs)

private theorem run_item {items : List Expr} {tokens : List Token}
    (hitems : CommaList ReadsItem items tokens) (hfilled : items ≠ []) (head : ListHead)
    (done : List Expr) (goal : Goal) (frames : List Frame) (outer : List OpenBlock)
    (closing : String) (rest : List Token) :
    (Config.inside .operand ⟨goal, .item head done :: frames⟩ outer).run
        (tokens ++ ⟨head.closing, closing⟩ :: rest) =
      (Config.inside (.after (head.build (done ++ items))) ⟨goal, frames⟩ outer).run rest := by
  have hgrip : head.closing.grip = 0 := by cases head <;> rfl
  have helse : head.closing ≠ .kwElse := by cases head <;> simp [ListHead.closing]
  induction hitems generalizing done with
  | nil => contradiction
  | one hitem =>
    rw [hitem.2.run_before rfl hgrip helse]
    cases head <;> rfl
  | @more item items ts us comma hitem _ hmore ih =>
    have hrest := ih hmore (done ++ [item])
    rw [List.append_assoc, List.singleton_append] at hrest
    simp only [List.append_assoc, List.cons_append]
    rw [hitem.2.run_before rfl rfl (by decide)]
    exact hrest

private theorem readsList_of_items {items : List Expr} {tokens : List Token}
    (hitems : CommaList ReadsItem items tokens) : ReadsList items tokens := by
  intro head goal frames outer closing rest
  by_cases hfilled : items = []
  · subst hfilled
    cases hitems
    simp only [List.nil_append, Config.run, Config.step, readInside, if_true]
  · have hbegins := hitems.begins (fun hitem => hitem.1.begins) hfilled
    rw [← nextKind_append (ne_nil_of_begins hbegins)] at hbegins
    rw [run_firstItem_eq_run_operand hbegins, run_item hitems hfilled]
    rfl

private theorem run_pair {pairs : List (Expr × Expr)} {tokens : List Token}
    (hpairs : CommaList ReadsPair pairs tokens) (hfilled : pairs ≠ [])
    (done : List (Expr × Expr)) (goal : Goal) (frames : List Frame) (outer : List OpenBlock)
    (rbrace : String) (rest : List Token) :
    (Config.inside .operand ⟨goal, .key done :: frames⟩ outer).run
        (tokens ++ ⟨.rbrace, rbrace⟩ :: rest) =
      (Config.inside (.after (.hash (done ++ pairs))) ⟨goal, frames⟩ outer).run rest := by
  induction hpairs generalizing done with
  | nil => contradiction
  | one hpair =>
    obtain ⟨hkey, hvalue⟩ := hpair
    rename_i key value ks vs colon
    simp only [List.append_assoc, List.cons_append]
    calc _ = (Config.inside .operand ⟨goal, .value done key :: frames⟩ outer).run
            (vs ++ ⟨.rbrace, rbrace⟩ :: rest) :=
          hkey.2.run_before rfl rfl (by decide) goal outer _ _
      _ = _ := hvalue.run_before rfl rfl (by decide) goal outer rbrace rest
  | @more pair pairs _ us comma hpair _ hmore ih =>
    obtain ⟨hkey, hvalue⟩ := hpair
    rename_i key value ks vs colon
    have hrest := ih hmore (done ++ [(key, value)])
    rw [List.append_assoc, List.singleton_append] at hrest
    simp only [List.append_assoc, List.cons_append]
    calc _ = (Config.inside .operand ⟨goal, .value done key :: frames⟩ outer).run
            (vs ++ ⟨.comma, comma⟩ :: (us ++ ⟨.rbrace, rbrace⟩ :: rest)) :=
          hkey.2.run_before rfl rfl (by decide) goal outer _ _
      _ = (Config.inside .operand ⟨goal, .key (done ++ [(key, value)]) :: frames⟩ outer).run
            (us ++ ⟨.rbrace, rbrace⟩ :: rest) :=
          hvalue.run_before rfl rfl (by decide) goal outer comma _
      _ = _ := hrest

theorem ReadsPair.begins {pair : Expr × Expr} {tokens : List Token}
    (hpair : ReadsPair pair tokens) : (nextKind tokens).begins = true := by
  obtain ⟨hkey, -⟩ := hpair
  rw [nextKind_append hkey.1.ne_nil]
  exact hkey.1.begins

private theorem readsHash_of_pairs {pairs : List (Expr × Expr)} {tokens : List Token}
    (hpairs : CommaList ReadsPair pairs tokens) : ReadsHash pairs tokens := by
  intro goal frames outer rbrace rest
  by_cases hfilled : pairs = []
  · subst hfilled
    cases hpairs
    rfl
  · have hbegins := hpairs.begins ReadsPair.begins hfilled
    rw [← nextKind_append (ne_nil_of_begins hbegins)] at hbegins
    rw [run_firstPair_eq_run_operand hbegins, run_pair hpairs hfilled]
    rfl

/-- Behind the brace that opens a block, the tokens are read as the rest of it. -/
def ReadsBody (stmts : List Stmt) (tokens : List Token) : Prop :=
  ∀ (head : BlockHead) (done : List Stmt) (pending : Pending) (outer : List OpenBlock)
    (rest : List Token),
    (Config.between ⟨head, done, pending⟩ outer).run (tokens ++ rest) =
      (Config.inside (OpenBlock.close ⟨head, done ++ stmts, pending⟩) pending outer).run rest

namespace ReadsBody

theorem nil (rbrace : String) : ReadsBody [] [⟨.rbrace, rbrace⟩] := by
  intro head done pending outer rest
  rw [List.append_nil]
  rfl

theorem semicolon {stmts : List Stmt} {tokens : List Token} {symbol : String}
    (hstmts : ReadsBody stmts tokens) : ReadsBody stmts (⟨.semicolon, symbol⟩ :: tokens) :=
  fun head done pending outer rest => hstmts head done pending outer rest

theorem cons {stmt : Stmt} {stmts : List Stmt} {tokens others : List Token}
    (hspelled : Statement stmt tokens (nextKind others))
    (hstmt : ReadsStmt stmt tokens (nextKind others)) (hfilled : others ≠ [])
    (helse : nextKind others ≠ .kwElse) (hstmts : ReadsBody stmts others) :
    ReadsBody (stmt :: stmts) (tokens ++ others) := by
  intro head done pending outer rest
  have hnext := nextKind_append hfilled rest
  have hrest := hstmts head (done ++ [stmt]) pending outer rest
  rw [List.append_assoc, List.singleton_append] at hrest
  rw [List.append_assoc, run_between_eq_run_start hspelled, hstmt _ _ hnext helse]
  exact hrest

end ReadsBody

namespace ReadsStmt

theorem expr {value : Expr} {tokens : List Token} {next : Kind}
    (hbegins : (nextKind tokens).begins = true) (hvalue : ReadsExpr 0 value tokens)
    (hnext : next.continues = false) :
    ReadsStmt (.expr value) tokens next := by
  rintro outer rest rfl helse
  rw [← Kind.grip_eq_zero_iff] at hnext
  rw [← nextKind_append (ne_nil_of_begins hbegins) rest] at hbegins
  rw [run_start_eq_run_operand hbegins,
    hvalue .expr [] outer rest (Nat.le_refl 0) (Nat.le_of_eq hnext) helse]
  exact run_after_eq_resume hnext value .expr outer

theorem ret {value : Expr} {tokens : List Token} {next : Kind} {word : String}
    (hbegins : (nextKind tokens).begins = true)
    (hvalue : ReadsExpr 0 value tokens) (hnext : next.continues = false) :
    ReadsStmt (.ret (some value)) (⟨.kwReturn, word⟩ :: tokens) next := by
  rintro outer rest rfl helse
  rw [← Kind.grip_eq_zero_iff] at hnext
  rw [← nextKind_append (ne_nil_of_begins hbegins) rest] at hbegins
  calc _ = (Config.head .retValue outer).run (tokens ++ rest) := rfl
    _ = (Config.inside .operand ⟨.ret, []⟩ outer).run (tokens ++ rest) :=
        run_retValue_eq_run_operand hbegins outer
    _ = (Config.inside (.after value) ⟨.ret, []⟩ outer).run rest :=
        hvalue .ret [] outer rest (Nat.le_refl 0) (Nat.le_of_eq hnext) helse
    _ = _ := run_after_eq_resume hnext value .ret outer

theorem retNothing {next : Kind} {word : String} (hnext : next.endsReturn = true) :
    ReadsStmt (.ret none) [⟨.kwReturn, word⟩] next := by
  rintro outer rest rfl helse
  calc _ = (Config.head .retValue outer).run rest := rfl
    _ = _ := by
      apply run_eq_resume
      rintro ⟨kind, text⟩ htoken
      rw [← htoken] at hnext
      cases kind <;> simp_all [Kind.endsReturn, Config.step, readHead]

theorem bind {name : String} {value : Expr} {tokens : List Token} {next : Kind}
    {word assign : String} (hvalue : ReadsExpr 0 value tokens) (hnext : next.continues = false) :
    ReadsStmt (.bind name value)
      (⟨.kwLet, word⟩ :: ⟨.ident, name⟩ :: ⟨.assign, assign⟩ :: tokens) next := by
  rintro outer rest rfl helse
  rw [← Kind.grip_eq_zero_iff] at hnext
  calc _ = (Config.inside .operand ⟨.bind name, []⟩ outer).run (tokens ++ rest) := rfl
    _ = (Config.inside (.after value) ⟨.bind name, []⟩ outer).run rest :=
        hvalue (.bind name) [] outer rest (Nat.le_refl 0) (Nat.le_of_eq hnext) helse
    _ = _ := run_after_eq_resume hnext value (.bind name) outer

end ReadsStmt

mutual

/-- A derivation is read as what it derives. The recursion is that of the derivation, and an
operator waits on the stack until the token behind its last operand completes it. -/
theorem readsExpr {level : Nat} {expr : Expr} {tokens : List Token} :
    Expression level expr tokens → ReadsExpr level expr tokens
  | .tighter hexpr => fun goal frames outer rest hdue hgrip =>
    readsExpr hexpr goal frames outer rest (Nat.le_succ_of_le hdue) (Nat.le_succ_of_le hgrip)
  | .ternary htest hyes hno => .ternary (readsExpr htest) (readsExpr hyes) (readsExpr hno)
  | .binary hleft hright => .binary (readsExpr hleft) (readsExpr hright)
  | .unary hoperand => .unary (readsExpr hoperand)
  | .call hcallee hargs => .call (readsExpr hcallee) (readsList_of_items (readsItems hargs))
  | .index hleft hindex => .index (readsExpr hleft) (readsExpr hindex)
  | .int hvalue => .int hvalue
  | .ident _ | .string _ | .yes _ | .no _ | .null _ => fun _ _ _ _ _ _ _ => rfl
  | .group hexpr => .group (readsExpr hexpr)
  | .array hitems => .array (readsList_of_items (readsItems hitems))
  | .hash hpairs => .hash (readsHash_of_pairs (readsPairs hpairs))
  | .cond htest hyes => .cond (readsExpr htest) (readsBlock hyes)
  | .condElse htest hyes hno => .condElse (readsExpr htest) (readsBlock hyes) (readsBlock hno)
  | .function hparams hbody => .function hparams (readsBlock hbody)

private theorem readsItems {items : List Expr} {tokens : List Token} :
    CommaList (Expression 0) items tokens → CommaList ReadsItem items tokens
  | .nil => .nil
  | .one hitem => .one ⟨hitem, readsExpr hitem⟩
  | .more hitem hitems hmore => .more ⟨hitem, readsExpr hitem⟩ (readsItems hitems) hmore

private theorem readsPair {pair : Expr × Expr} {tokens : List Token} :
    Pair pair tokens → ReadsPair pair tokens
  | .pair hkey hvalue => .pair ⟨hkey, readsExpr hkey⟩ (readsExpr hvalue)

private theorem readsPairs {pairs : List (Expr × Expr)} {tokens : List Token} :
    CommaList Pair pairs tokens → CommaList ReadsPair pairs tokens
  | .nil => .nil
  | .one hpair => .one (readsPair hpair)
  | .more hpair hpairs hmore => .more (readsPair hpair) (readsPairs hpairs) hmore

private theorem readsBlock {block : Block} {tokens : List Token} :
    Braced block tokens → ReadsBlock block tokens
  | .braces hblock => fun head pending outer rest =>
    readsBody hblock rfl head [] pending outer rest

private theorem readsStmt {stmt : Stmt} {tokens : List Token} {next : Kind} :
    Statement stmt tokens next → ReadsStmt stmt tokens next
  | .bind hvalue hnext => .bind (readsExpr hvalue) hnext
  | .ret hvalue hnext => .ret hvalue.begins (readsExpr hvalue) hnext
  | .retNothing hnext => .retNothing hnext
  | .expr hvalue hnext => .expr hvalue.begins (readsExpr hvalue) hnext

private theorem readsBody {last tokens : List Token} {stmts : List Stmt} {rbrace : String} :
    Statements last stmts tokens → last = [⟨.rbrace, rbrace⟩] → ReadsBody stmts tokens
  | .nil _, hlast => hlast ▸ .nil rbrace
  | .semicolon hstmts, hlast => .semicolon (readsBody hstmts hlast)
  | .cons hstmt hstmts, hlast =>
    have helse := nextKind_statements_ne_else hstmts (hlast ▸ by simp [nextKind])
    .cons hstmt (readsStmt hstmt) (hstmts.ne_nil (by simp [hlast])) helse (readsBody hstmts hlast)

end

end MonkeyLang.Parser

namespace MonkeyLang

open MonkeyLang.Grammar MonkeyLang.Parser

/-- A statement is read to its end wherever it stands. -/
theorem statement_append_of_statement {stmt : Stmt} {tokens rest : List Token}
    (hstmt : Statement stmt tokens (nextKind rest)) (helse : nextKind rest ≠ .kwElse) :
    statement (tokens ++ rest) = .ok (stmt, dropSemicolon rest) := by
  rw [statement, Config.start, readsStmt hstmt [] rest rfl helse]
  rfl

namespace Program

theorem ofTokens_of_eof {tokens : List Token} (heof : nextKind tokens = .eof) :
    ofTokens tokens = {} := by
  cases tokens with
  | nil => rw [ofTokens]
  | cons token rest =>
    simp only [nextKind] at heof
    rw [ofTokens, dif_pos heof]

theorem ofTokens_cons_semicolon (symbol : String) (rest : List Token) :
    ofTokens (⟨.semicolon, symbol⟩ :: rest) = ofTokens rest := by
  rw [ofTokens, dif_neg (by simp), if_pos rfl]

theorem ofTokens_dropSemicolon (tokens : List Token) :
    ofTokens (dropSemicolon tokens) = ofTokens tokens := by
  cases tokens with
  | nil => rfl
  | cons token rest =>
    obtain ⟨kind, text⟩ := token
    by_cases hkind : kind = .semicolon
    · subst hkind
      exact (ofTokens_cons_semicolon text rest).symm
    · rw [dropSemicolon, if_neg hkind]

theorem ofTokens_of_statement_eq_ok {tokens rest : List Token} {stmt : Stmt}
    (hstmt : statement tokens = .ok (stmt, rest)) (heof : nextKind tokens ≠ .eof)
    (hsemicolon : nextKind tokens ≠ .semicolon) :
    ofTokens tokens = (ofTokens rest).addStmt stmt := by
  cases tokens with
  | nil => contradiction
  | cons token tokens =>
    simp only [nextKind] at heof hsemicolon
    rw [ofTokens, dif_neg heof, if_neg hsemicolon]
    split <;> simp_all

/-- Two programs one after the other, each with its own errors. -/
instance : Append Program where
  append first second := ⟨first.stmts ++ second.stmts, first.errors ++ second.errors⟩

theorem addStmt_append (stmt : Stmt) (first second : Program) :
    first.addStmt stmt ++ second = (first ++ second).addStmt stmt := rfl

theorem append_empty (program : Program) : program ++ ({} : Program) = program := by
  change Program.mk (program.stmts ++ []) (program.errors ++ []) = program
  rw [List.append_nil, List.append_nil]

/-- Statements are read as such up to where they end, and nothing is found wrong so far. -/
theorem ofTokens_of_statements {last tokens : List Token} {stmts : List Stmt} :
    Statements last stmts tokens → nextKind last ≠ .kwElse →
      ofTokens tokens = { stmts } ++ ofTokens last
  | .nil _, _ => rfl
  | .semicolon hstmts, hlast => by
    rw [ofTokens_cons_semicolon, ofTokens_of_statements hstmts hlast]
  | @Statements.cons _ stmt stmts tokens others hstmt hstmts, hlast => by
    have helse := nextKind_statements_ne_else hstmts hlast
    have hkind := nextKind_append hstmt.ne_nil others
    rw [ofTokens_of_statement_eq_ok (statement_append_of_statement hstmt helse)
        (hkind ▸ hstmt.nextKind_ne rfl) (hkind ▸ hstmt.nextKind_ne rfl),
      ofTokens_dropSemicolon, ofTokens_of_statements hstmts hlast, ← addStmt_append]
    rfl

end Program

end MonkeyLang
