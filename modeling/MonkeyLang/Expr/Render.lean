import MonkeyLang.Decimal
import MonkeyLang.Expr

namespace MonkeyLang

mutual

/-- The canonical text of an expression. Every operator gets its own parentheses, and
strings and blocks are written without their delimiters. -/
def Expr.render : Expr → String
  | .ident name => name
  | .int value => Decimal.write value
  | .string text => text
  | .bool true => "true"
  | .bool false => "false"
  | .null => "null"
  | .unary op operand => "(" ++ op.symbol ++ operand.render ++ ")"
  | .binary left op right =>
    "(" ++ left.render ++ " " ++ op.symbol ++ " " ++ right.render ++ ")"
  | .cond test yes none => "if " ++ test.render ++ " " ++ renderBlock yes
  | .cond test yes (some no) =>
    "if " ++ test.render ++ " " ++ renderBlock yes ++ "else " ++ renderBlock no
  | .ternary test yes no =>
    "(" ++ test.render ++ " ? " ++ yes.render ++ " : " ++ no.render ++ ")"
  | .function params body => "fn(" ++ ", ".intercalate params ++ ") " ++ renderBlock body
  | .call callee args => callee.render ++ "(" ++ ", ".intercalate (renderItems args) ++ ")"
  | .array items => "[" ++ ", ".intercalate (renderItems items) ++ "]"
  | .hash pairs => "\x7b" ++ ", ".intercalate (renderPairs pairs) ++ "\x7d"
  | .index left index => "(" ++ left.render ++ "[" ++ index.render ++ "])"

/-- The canonical texts of a list of expressions. -/
def renderItems : List Expr → List String
  | [] => []
  | item :: rest => item.render :: renderItems rest

/-- The canonical texts of the pairs of a hash literal. -/
def renderPairs : List (Expr × Expr) → List String
  | [] => []
  | (key, value) :: rest => (key.render ++ ":" ++ value.render) :: renderPairs rest

/-- The canonical text of a statement. Only `let` and `return` carry a semicolon. -/
def Stmt.render : Stmt → String
  | .bind name value => "let " ++ name ++ " = " ++ value.render ++ ";"
  | .ret none => "return;"
  | .ret (some value) => "return " ++ value.render ++ ";"
  | .expr value => value.render

/-- The canonical text of a sequence of statements, with nothing between them. -/
def renderBlock : List Stmt → String
  | [] => ""
  | stmt :: rest => stmt.render ++ renderBlock rest

end

end MonkeyLang
