namespace MonkeyLang

/-- The operators written before their operand. -/
inductive UnaryOp where
  | negate | not
deriving DecidableEq

/-- How a unary operator is written. -/
def UnaryOp.symbol : UnaryOp → String
  | negate => "-"
  | not => "!"

/-- The operators written between their operands. -/
inductive BinaryOp where
  | add | sub | mul | div | less | greater | equal | notEqual
deriving DecidableEq

namespace BinaryOp

/-- How a binary operator is written. -/
def symbol : BinaryOp → String
  | add => "+"
  | sub => "-"
  | mul => "*"
  | div => "/"
  | less => "<"
  | greater => ">"
  | equal => "=="
  | notEqual => "!="

/-- How tightly a binary operator binds. A higher level binds tighter, and operators of
one level group to the left. -/
def level : BinaryOp → Nat
  | equal | notEqual => 1
  | less | greater => 2
  | add | sub => 3
  | mul | div => 4

end BinaryOp

mutual

/-- Expressions. Parentheses leave no trace, because the tree already says what
belongs together. -/
inductive Expr where
  | ident (name : String)
  | int (value : Int64)
  | string (text : String)
  | bool (value : Bool)
  | null
  | unary (op : UnaryOp) (operand : Expr)
  | binary (left : Expr) (op : BinaryOp) (right : Expr)
  | cond (test : Expr) (yes : List Stmt) (no : Option (List Stmt))
  | ternary (test yes no : Expr)
  | function (params : List String) (body : List Stmt)
  | call (callee : Expr) (args : List Expr)
  | array (items : List Expr)
  | hash (pairs : List (Expr × Expr))
  | index (left index : Expr)

/-- Statements. Only an expression statement has a value of its own. -/
inductive Stmt where
  | bind (name : String) (value : Expr)
  | ret (value : Option Expr)
  | expr (value : Expr)

end

/-- The statements between a pair of braces. -/
abbrev Block := List Stmt

end MonkeyLang
