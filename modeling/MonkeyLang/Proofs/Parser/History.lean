import MonkeyLang.Proofs.Parser.Precedence

namespace MonkeyLang.Parser

open Grammar

/-- Members of a list that each have a comma behind them. -/
inductive ListDone {α : Type} (Member : α → List Token → Prop) : List α → List Token → Prop where
  | nil : ListDone Member [] []
  | cons {item : α} {items : List α} {tokens others : List Token} {comma : String}
      (hitem : Member item tokens) (hitems : ListDone Member items others) :
      ListDone Member (item :: items) (tokens ++ ⟨.comma, comma⟩ :: others)

namespace ListDone

variable {α : Type} {Member : α → List Token → Prop} {items : List α} {item : α}
  {tokens others : List Token}

theorem append (hitems : ListDone Member items others) (hitem : Member item tokens)
    (comma : String) :
    ListDone Member (items ++ [item]) (others ++ (tokens ++ [⟨.comma, comma⟩])) := by
  induction hitems with
  | nil => exact .cons hitem .nil
  | cons hfirst _ ih =>
    simp only [List.cons_append, List.append_assoc]
    exact .cons hfirst ih

theorem close (hitems : ListDone Member items others) (hitem : Member item tokens) :
    CommaList Member (items ++ [item]) (others ++ tokens) := by
  induction hitems with
  | nil => exact .one hitem
  | cons hfirst _ ih =>
    simp only [List.cons_append, List.append_assoc]
    exact .more hfirst ih (by simp)

end ListDone

/-- The tokens that open a list. -/
inductive ListHeadRead : ListHead → List Token → Prop where
  | array {lbracket : String} : ListHeadRead .array [⟨.lbracket, lbracket⟩]
  | args {callee : Expr} {cs : List Token} {lparen : String} (hcallee : Expression 6 callee cs) :
      ListHeadRead (.args callee) (cs ++ [⟨.lparen, lparen⟩])

theorem ListHeadRead.build {head : ListHead} {items : List Expr} {hs is : List Token}
    (hhead : ListHeadRead head hs) (hitems : CommaList (Expression 0) items is) (closing : String) :
    Expression 6 (head.build items) (hs ++ (is ++ [⟨head.closing, closing⟩])) := by
  cases hhead with
  | array => exact .array hitems
  | args hcallee =>
    rw [List.append_assoc]
    exact .call hcallee hitems

/-- The tokens that a frame was made from. -/
inductive FrameRead : Frame → List Token → Prop where
  | unary {op : UnaryOp} {symbol : String} : FrameRead (.unary op) [⟨op.kind, symbol⟩]
  | binary {left : Expr} {op : BinaryOp} {ls : List Token} {symbol : String}
      (hleft : Expression op.level left ls) :
      FrameRead (.binary left op) (ls ++ [⟨op.kind, symbol⟩])
  | ternaryYes {test : Expr} {ts : List Token} {question : String} (htest : Expression 1 test ts) :
      FrameRead (.ternaryYes test) (ts ++ [⟨.question, question⟩])
  | ternaryNo {test yes : Expr} {ts ys : List Token} {question colon : String}
      (htest : Expression 1 test ts) (hyes : Expression 0 yes ys) :
      FrameRead (.ternaryNo test yes) (ts ++ ⟨.question, question⟩ :: (ys ++ [⟨.colon, colon⟩]))
  | group {lparen : String} : FrameRead .group [⟨.lparen, lparen⟩]
  | item {head : ListHead} {done : List Expr} {hs ds : List Token}
      (hhead : ListHeadRead head hs) (hdone : ListDone (Expression 0) done ds) :
      FrameRead (.item head done) (hs ++ ds)
  | key {done : List (Expr × Expr)} {ds : List Token} {lbrace : String}
      (hdone : ListDone Pair done ds) : FrameRead (.key done) (⟨.lbrace, lbrace⟩ :: ds)
  | value {done : List (Expr × Expr)} {key : Expr} {ds ks : List Token} {lbrace colon : String}
      (hdone : ListDone Pair done ds) (hkey : Expression 0 key ks) :
      FrameRead (.value done key) (⟨.lbrace, lbrace⟩ :: (ds ++ (ks ++ [⟨.colon, colon⟩])))
  | index {left : Expr} {ls : List Token} {lbracket : String} (hleft : Expression 6 left ls) :
      FrameRead (.index left) (ls ++ [⟨.lbracket, lbracket⟩])
  | test {word lparen : String} : FrameRead .test [⟨.kwIf, word⟩, ⟨.lparen, lparen⟩]

/-- The tokens of a statement before its expression. -/
inductive GoalRead : Goal → List Token → Prop where
  | expr : GoalRead .expr []
  | bind {name word assign : String} :
      GoalRead (.bind name) [⟨.kwLet, word⟩, ⟨.ident, name⟩, ⟨.assign, assign⟩]
  | ret {word : String} : GoalRead .ret [⟨.kwReturn, word⟩]

/-- The tokens of a statement up to where its innermost frame waits. Each frame fits into the one
around it, which is what makes the grouping right. -/
inductive PendingRead : Pending → List Token → Prop where
  | goal {goal : Goal} {tokens : List Token} (hgoal : GoalRead goal tokens) :
      PendingRead ⟨goal, []⟩ tokens
  | push {goal : Goal} {frame : Frame} {frames : List Frame} {ps fs : List Token}
      (hpending : PendingRead ⟨goal, frames⟩ ps) (hframe : FrameRead frame fs)
      (hlevel : due frames ≤ frame.level) : PendingRead ⟨goal, frame :: frames⟩ (ps ++ fs)

/-- The tokens before the opening brace of a block, from the start of the expression that the
block belongs to. -/
inductive BlockHeadRead : BlockHead → List Token → Prop where
  | yes {test : Expr} {ts : List Token} {word lparen rparen : String}
      (htest : Expression 0 test ts) :
      BlockHeadRead (.yes test)
        (⟨.kwIf, word⟩ :: ⟨.lparen, lparen⟩ :: (ts ++ [⟨.rparen, rparen⟩]))
  | no {test : Expr} {yes : Block} {ts ys : List Token} {word lparen rparen other : String}
      (htest : Expression 0 test ts) (hyes : Braced yes ys) :
      BlockHeadRead (.no test yes)
        (⟨.kwIf, word⟩ :: ⟨.lparen, lparen⟩ ::
          (ts ++ ⟨.rparen, rparen⟩ :: (ys ++ [⟨.kwElse, other⟩])))
  | body {params : List String} {ps : List Token} {word lparen rparen : String}
      (hparams : CommaList Param params ps) :
      BlockHeadRead (.body params)
        (⟨.kwFn, word⟩ :: ⟨.lparen, lparen⟩ :: (ps ++ [⟨.rparen, rparen⟩]))

/-- The tokens of finished statements in front of a token of a given class. -/
inductive BodyRead : List Stmt → List Token → Kind → Prop where
  | nil {next : Kind} : BodyRead [] [] next
  | semicolon {stmts : List Stmt} {tokens : List Token} {next : Kind} {symbol : String}
      (hstmts : BodyRead stmts tokens .semicolon) :
      BodyRead stmts (tokens ++ [⟨.semicolon, symbol⟩]) next
  | stmt {stmts : List Stmt} {stmt : Stmt} {tokens others : List Token} {next : Kind}
      (hstmts : BodyRead stmts tokens (nextKind others)) (hstmt : Statement stmt others next) :
      BodyRead (stmts ++ [stmt]) (tokens ++ others) next

/-- Finished statements and those that follow them are statements together. -/
theorem BodyRead.append {stmts : List Stmt} {tokens : List Token} {next : Kind}
    (hstmts : BodyRead stmts tokens next) {last others : List Token} {more : List Stmt}
    (hmore : Statements last more others) (hnext : nextKind others = next) :
    Statements last (stmts ++ more) (tokens ++ others) := by
  induction hstmts generalizing more others with
  | nil => exact hmore
  | semicolon _ ih =>
    rw [List.append_assoc]
    exact ih hmore.semicolon rfl
  | stmt _ hstmt ih =>
    rw [List.append_assoc, List.append_assoc]
    exact ih (.cons (hnext ▸ hstmt) hmore) (nextKind_append hstmt.ne_nil others)

/-- Tokens whose first one is of a given class. -/
def BeginsWith (tokens : List Token) (kind : Kind) : Prop :=
  ∃ (text : String) (rest : List Token), tokens = ⟨kind, text⟩ :: rest

theorem BeginsWith.append {tokens : List Token} {kind : Kind} (hbegins : BeginsWith tokens kind)
    (others : List Token) : BeginsWith (tokens ++ others) kind := by
  obtain ⟨text, rest, rfl⟩ := hbegins
  exact ⟨text, rest ++ others, rfl⟩

theorem BeginsWith.nextKind_eq {tokens : List Token} {kind : Kind}
    (hbegins : BeginsWith tokens kind) : nextKind tokens = kind := by
  obtain ⟨text, rest, rfl⟩ := hbegins
  rfl

/-- The tokens of all open blocks and of the statements around them, in front of a token of a
given class. -/
inductive OuterRead : List OpenBlock → List Token → Kind → Prop where
  | nil {next : Kind} : OuterRead [] [] next
  | cons {head : BlockHead} {done : List Stmt} {pending : Pending} {outer : List OpenBlock}
      {os ps hs ds : List Token} {lbrace : String} {first next : Kind}
      (houter : OuterRead outer os first) (hfirst : BeginsWith (ps ++ hs) first)
      (hpending : PendingRead pending ps) (hhead : BlockHeadRead head hs)
      (hdone : BodyRead done ds next) :
      OuterRead (⟨head, done, pending⟩ :: outer)
        (os ++ (ps ++ (hs ++ ⟨.lbrace, lbrace⟩ :: ds))) next

/-- The tokens that led to a focus, behind those of the frames around it. -/
inductive FocusRead : Focus → List Token → Prop where
  | operand : FocusRead .operand []
  | firstItem {head : ListHead} {hs : List Token} (hhead : ListHeadRead head hs) :
      FocusRead (.firstItem head) hs
  | firstPair {lbrace : String} : FocusRead .firstPair [⟨.lbrace, lbrace⟩]
  | after {expr : Expr} {tokens : List Token} (hexpr : Expression 6 expr tokens) :
      FocusRead (.after expr) tokens
  | ifParen {word : String} : FocusRead .ifParen [⟨.kwIf, word⟩]
  | mayElse {test : Expr} {yes : Block} {ts ys : List Token} {word lparen rparen : String}
      (htest : Expression 0 test ts) (hyes : Braced yes ys) :
      FocusRead (.mayElse test yes)
        (⟨.kwIf, word⟩ :: ⟨.lparen, lparen⟩ :: (ts ++ ⟨.rparen, rparen⟩ :: ys))
  | fnParen {word : String} : FocusRead .fnParen [⟨.kwFn, word⟩]
  | firstParam {word lparen : String} :
      FocusRead .firstParam [⟨.kwFn, word⟩, ⟨.lparen, lparen⟩]
  | param {done : List String} {ps : List Token} {word lparen : String}
      (hdone : ListDone Param done ps) :
      FocusRead (.param done) (⟨.kwFn, word⟩ :: ⟨.lparen, lparen⟩ :: ps)
  | afterParam {done : List String} {name : String} {ps ns : List Token} {word lparen : String}
      (hdone : ListDone Param done ps) (hname : Param name ns) :
      FocusRead (.afterParam (done ++ [name])) (⟨.kwFn, word⟩ :: ⟨.lparen, lparen⟩ :: (ps ++ ns))
  | openBlock {head : BlockHead} {hs : List Token} (hhead : BlockHeadRead head hs) :
      FocusRead (.openBlock head) hs

/-- All tokens that led to a configuration. -/
inductive Config.Read : Config → List Token → Prop where
  | start : Config.start.Read []
  | between {block : OpenBlock} {outer : List OpenBlock} {tokens : List Token}
      (houter : ∀ next, OuterRead (block :: outer) tokens next) :
      (Config.between block outer).Read tokens
  | letName {outer : List OpenBlock} {os : List Token} {word : String}
      (houter : OuterRead outer os .kwLet) :
      (Config.head .letName outer).Read (os ++ [⟨.kwLet, word⟩])
  | letAssign {outer : List OpenBlock} {os : List Token} {word name : String}
      (houter : OuterRead outer os .kwLet) :
      (Config.head (.letAssign name) outer).Read (os ++ [⟨.kwLet, word⟩, ⟨.ident, name⟩])
  | retValue {outer : List OpenBlock} {os : List Token} {word : String}
      (houter : OuterRead outer os .kwReturn) :
      (Config.head .retValue outer).Read (os ++ [⟨.kwReturn, word⟩])
  | inside {focus : Focus} {pending : Pending} {outer : List OpenBlock}
      {os ps fs tokens : List Token} {first : Kind} (houter : OuterRead outer os first)
      (hfirst : BeginsWith tokens first) (hpending : PendingRead pending ps)
      (hfocus : FocusRead focus fs) (htokens : tokens = ps ++ fs) :
      (Config.inside focus pending outer).Read (os ++ tokens)

end MonkeyLang.Parser
