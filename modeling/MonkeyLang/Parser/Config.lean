import MonkeyLang.Expr
import MonkeyLang.Token

namespace MonkeyLang.Parser

/-- What a comma-separated list of expressions stands for. -/
inductive ListHead where
  | array
  | args (callee : Expr)

/-- The bracket that closes a list. -/
def ListHead.closing : ListHead → Kind
  | array => .rbracket
  | args _ => .rparen

/-- The expression that a closed list makes. -/
def ListHead.build : ListHead → List Expr → Expr
  | array, items => .array items
  | args callee, items => .call callee items

/-- What a block of statements belongs to. -/
inductive BlockHead where
  | yes (test : Expr)
  | no (test : Expr) (yes : Block)
  | body (params : List String)

/-- Something read to the left of an expression that is still waiting for it. -/
inductive Frame where
  | unary (op : UnaryOp)
  | binary (left : Expr) (op : BinaryOp)
  | ternaryYes (test : Expr)
  | ternaryNo (test yes : Expr)
  | group
  | item (head : ListHead) (done : List Expr)
  | key (done : List (Expr × Expr))
  | value (done : List (Expr × Expr)) (key : Expr)
  | index (left : Expr)
  | test

/-- What the expression of a statement is for. -/
inductive Goal where
  | expr
  | bind (name : String)
  | ret

/-- The statement that an expression completes. -/
def Goal.stmt : Goal → Expr → Stmt
  | expr, value => .expr value
  | bind name, value => .bind name value
  | ret, value => .ret (some value)

/-- A statement whose expression is being read. The frames run from the innermost one
outwards and never cross a block. -/
structure Pending where
  goal : Goal
  frames : List Frame

/-- Adds an innermost frame. -/
def Pending.push (pending : Pending) (frame : Frame) : Pending :=
  { pending with frames := frame :: pending.frames }

/-- A block whose closing brace is still to come, with its finished statements and the
statement around it. -/
structure OpenBlock where
  head : BlockHead
  done : List Stmt
  inside : Pending

/-- The parts of a statement before its expression. -/
inductive Head where
  | start
  | letName
  | letAssign (name : String)
  | retValue

/-- What is due next inside an expression. -/
inductive Focus where
  | operand
  | firstItem (head : ListHead)
  | firstPair
  | after (expr : Expr)
  | ifParen
  | mayElse (test : Expr) (yes : Block)
  | fnParen
  | firstParam
  | param (done : List String)
  | afterParam (done : List String)
  | openBlock (head : BlockHead)

/-- What follows a block that has just been closed. -/
def OpenBlock.close (block : OpenBlock) : Focus :=
  match block.head with
  | .yes test => .mayElse test block.done
  | .no test yes => .after (.cond test yes (some block.done))
  | .body params => .after (.function params block.done)

/-- All that the tokens read so far leave behind. Open blocks run from the innermost one
outwards; with none of them open the statement is the one asked for. -/
inductive Config where
  | between (block : OpenBlock) (outer : List OpenBlock)
  | head (head : Head) (outer : List OpenBlock)
  | inside (focus : Focus) (pending : Pending) (outer : List OpenBlock)

/-- Nothing read yet. -/
def Config.start : Config := .head .start []

/-- The effect of one more token: either it is taken, or the statement had ended just
before it. -/
inductive Step where
  | shift (config : Config)
  | accept (stmt : Stmt)

end MonkeyLang.Parser
