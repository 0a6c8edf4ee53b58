import MonkeyLang.Program
import MonkeyLang.Proofs.Grammar

namespace MonkeyLang

/-- Why a rule of the grammar cannot be followed. The last reason is for want of a better one and
names only the token. -/
inductive Reason where
  | named (error : SyntaxError)
  | unexpected (found : Kind)
deriving DecidableEq

/-- The ways in which following a rule comes to nothing. -/
inductive Stop where
  /-- The rule does not apply, so another one may be tried in its place. -/
  | refused (reason : Reason)
  /-- The rule does apply but cannot be carried through, so no other one is tried. -/
  | failed (reason : Reason)
  /-- More tokens are needed to tell. -/
  | incomplete
  /-- Following the rule has no end. -/
  | endless
deriving DecidableEq

/-- A rule of the grammar reads something from the first tokens and leaves the others. -/
abbrev Rule (α : Type) := StateT (List Token) (Except Stop) α

namespace Rule

variable {α : Type}

/-- Takes a token of one class. -/
def token (kind : Kind) : Rule Token := fun
  | next :: rest =>
    if next.kind = kind then .ok (next, rest)
    else .error (.refused (.named (.expected kind next.kind)))
  | [] => .error (.refused (.named (.expected kind .eof)))

/-- Makes a rule one that has to apply, with a reason for which it does not. -/
def orFail (reason : Kind → SyntaxError) (rule : Rule α) : Rule α := fun tokens =>
  match rule tokens with
  | .error (.refused _) => .error (.failed (.named (reason (nextKind tokens))))
  | outcome => outcome

/-- Something that has to begin with a token of one class. -/
def expect (kind : Kind) (rule : Rule α) : Rule α := orFail (.expected kind) rule

/-- An expression that has to stand here. -/
def required (rule : Rule α) : Rule α := orFail .noOperand rule

/-- An expression that has to stand here, and behind it a token of one class. -/
def upTo (close : Kind) (rule : Rule Expr) : Rule Expr := do
  let expr ← required rule
  let _ ← expect close (token close)
  return expr

/-- Tries a second rule where the first one does not apply. -/
def alternative (first second : Rule α) : Rule α := fun tokens =>
  match first tokens with
  | .error (.refused _) => second tokens
  | outcome => outcome

/-- Something that may be left out. -/
def opt (rule : Rule α) : Rule (Option α) := fun tokens =>
  match rule tokens with
  | .ok (value, rest) => .ok (some value, rest)
  | .error (.refused _) => .ok (none, tokens)
  | .error stop => .error stop

/-- The same thing as often as possible. A rule that takes no token would be followed for ever, so
it is given up with the reason that names only the token. -/
def many (item : Rule α) (tokens : List Token) : Except Stop (List α × List Token) :=
  match item tokens with
  | .error (.refused _) => .ok ([], tokens)
  | .error stop => .error stop
  | .ok (value, rest) =>
    if rest.length < tokens.length then
      (many item rest).map fun (values, left) => (value :: values, left)
    else .error (.refused (.unexpected (nextKind tokens)))
termination_by tokens.length

/-- The items of a list from one of them on, with the token that closes it. -/
def itemsFrom (close : Kind) (item : Rule α) (tokens : List Token) :
    Except Stop (List α × List Token) :=
  match item tokens with
  | .error stop => .error stop
  | .ok (value, rest) =>
    if nextKind rest = .comma then
      if _hshorter : rest.tail.length < tokens.length then
        (itemsFrom close item rest.tail).map fun (values, left) => (value :: values, left)
      else .error .endless
    else if nextKind rest = close then .ok ([value], rest.tail)
    else .error (.failed (.named (.expected close (nextKind rest))))
termination_by tokens.length
decreasing_by exact _hshorter

/-- A list with brackets around it and commas between its items. -/
def separated (opening close : Kind) (item : Rule α) : Rule (List α) := do
  let _ ← token opening
  fun tokens =>
    if nextKind tokens = close then .ok ([], tokens.tail) else itemsFrom close item tokens

/-- The statements of a block from some point on, with the brace that closes it. -/
def stmtsFrom (stmt : Rule Stmt) (tokens : List Token) : Except Stop (Block × List Token) :=
  match tokens with
  | [] => .error (.failed (.named (.expected .rbrace .eof)))
  | token :: rest =>
    match token.kind with
    | .rbrace => .ok ([], rest)
    | .semicolon => stmtsFrom stmt rest
    | .eof => .error (.failed (.named (.expected .rbrace .eof)))
    | _ =>
      match stmt (token :: rest) with
      | .error stop => .error stop
      | .ok (value, left) =>
        if left.length < rest.length + 1 then
          (stmtsFrom stmt left).map fun (values, last) => (value :: values, last)
        else .error .endless
termination_by tokens.length

end Rule

open Rule

/-- The rules that others come back to, as far as they have been unfolded. -/
structure Rules where
  expression : Rule Expr
  prefixed : Rule Expr
  statement : Rule Stmt

/-- A call or a subscript without the operand before it. -/
inductive Postfix where
  | call (args : List Expr)
  | index (expr : Expr)

/-- The expression that a call or a subscript makes of its operand. -/
def Postfix.apply (expr : Expr) : Postfix → Expr
  | call args => .call expr args
  | index other => .index expr other

namespace Rules

/-- An expression of a single token. -/
def leaf (kind : Kind) (build : String → Expr) : Rule Expr := do
  return build (← token kind).text

def integer : Rule Expr := do
  let literal ← token .int
  match Decimal.read? literal.text with
  | some value => return .int value
  | none => throw (.failed (.named (.integer literal.text)))

def atomic : Rule Expr :=
  alternative (leaf .ident .ident) <|
  alternative integer <|
  alternative (leaf .string .string) <|
  alternative (leaf .kwTrue fun _ => .bool true) <|
  alternative (leaf .kwFalse fun _ => .bool false) <|
  leaf .kwNull fun _ => .null

def unaryOp (op : UnaryOp) : Rule UnaryOp := do
  let _ ← token op.kind
  return op

def binaryOp (op : BinaryOp) : Rule BinaryOp := do
  let _ ← token op.kind
  return op

variable (inner : Rules)

def group : Rule Expr := do
  let _ ← token .lparen
  upTo .rparen inner.expression

def array : Rule Expr := do
  return .array (← separated .lbracket .rbracket (required inner.expression))

def pair : Rule (Expr × Expr) := do
  let key ← upTo .colon inner.expression
  return (key, ← required inner.expression)

def hash : Rule Expr := do
  return .hash (← separated .lbrace .rbrace (pair inner))

def block : Rule Block := do
  let _ ← token .lbrace
  stmtsFrom inner.statement

def otherwise : Rule Block := do
  let _ ← token .kwElse
  expect .lbrace (block inner)

def branch : Rule Expr := do
  let _ ← token .kwIf
  let _ ← expect .lparen (token .lparen)
  let test ← upTo .rparen inner.expression
  let yes ← expect .lbrace (block inner)
  return .cond test yes (← opt (otherwise inner))

def param : Rule String := do
  return (← token .ident).text

def function : Rule Expr := do
  let _ ← token .kwFn
  let params ← expect .lparen (separated .lparen .rparen (expect .ident param))
  return .function params (← expect .lbrace (block inner))

/-- An expression to which calls and subscripts can be attached. -/
def operand : Rule Expr :=
  alternative atomic <|
  alternative (group inner) <|
  alternative (array inner) <|
  alternative (hash inner) <|
  alternative (branch inner) <|
  function inner

def callPart : Rule Postfix := do
  return .call (← separated .lparen .rparen (required inner.expression))

def indexPart : Rule Postfix := do
  let _ ← token .lbracket
  return .index (← upTo .rbracket inner.expression)

def postfixed : Rule Expr := do
  let expr ← operand inner
  let parts ← many (alternative (callPart inner) (indexPart inner))
  return parts.foldl Postfix.apply expr

/-- The first of the rules that others come back to. -/
def prefixedRule : Rule Expr :=
  alternative (do
    let op ← alternative (unaryOp .not) (unaryOp .negate)
    return .unary op (← required inner.prefixed)) <|
  postfixed inner

/-- One of two operators and the operand behind it. -/
def binaryPart (first second : BinaryOp) (operands : Rule Expr) : Rule (BinaryOp × Expr) := do
  let op ← alternative (binaryOp first) (binaryOp second)
  return (op, ← required operands)

/-- The operators of one level, which group from the left. -/
def binaryLevel (first second : BinaryOp) (operands : Rule Expr) : Rule Expr := do
  let left ← operands
  let others ← many (binaryPart first second operands)
  return others.foldl (fun left (op, right) => .binary left op right) left

def product : Rule Expr := binaryLevel .mul .div (prefixedRule inner)

def sum : Rule Expr := binaryLevel .add .sub (product inner)

def inequality : Rule Expr := binaryLevel .less .greater (sum inner)

def equality : Rule Expr := binaryLevel .equal .notEqual (inequality inner)

/-- The two branches of a ternary without the test before them. -/
def branches : Rule (Expr × Expr) := do
  let _ ← token .question
  let yes ← upTo .colon inner.expression
  return (yes, ← required inner.expression)

def expressionRule : Rule Expr := do
  let test ← equality inner
  return (← opt (branches inner)).elim test fun (yes, no) => .ternary test yes no

def letStatement : Rule Stmt := do
  let _ ← token .kwLet
  let name ← expect .ident param
  let _ ← expect .assign (token .assign)
  return .bind name (← required inner.expression)

def returnStatement : Rule Stmt := do
  let _ ← token .kwReturn
  fun tokens =>
    if (nextKind tokens).endsReturn then .ok (.ret none, tokens)
    else (do return .ret (some (← required inner.expression)) : Rule Stmt) tokens

def statementRule : Rule Stmt := do
  let stmt ← alternative (letStatement inner) <|
    alternative (returnStatement inner) do
      return .expr (← required (expressionRule inner))
  let _ ← opt (token .semicolon)
  return stmt

/-- The rules with those that they come back to put in their places so many times. -/
def unfolded : Nat → Rules
  | 0 => ⟨fun _ => .error .endless, fun _ => .error .endless, fun _ => .error .endless⟩
  | depth + 1 =>
    let inner := unfolded depth
    ⟨expressionRule inner, prefixedRule inner, statementRule inner⟩

/-- What one round of reading a program comes to. -/
inductive Round where
  /-- The end of the input has been reached. -/
  | finished
  /-- There is more to read, behind a statement or the reason against one, if anything. -/
  | goesOn (found : Option (Except Reason Stmt)) (rest : List Token)
  /-- The round has no end. -/
  | endless

/-- One round of reading a program. For a statement that needs more tokens there is only the reason
that names the first of those it has. -/
def round (tokens : List Token) : Round :=
  match tokens with
  | [] => .finished
  | token :: rest =>
    if token.kind = .eof then .finished
    else if token.kind = .semicolon then .goesOn none rest
    else
      match (unfolded (tokens.length + 1)).statement tokens with
      | .ok (stmt, left) => .goesOn (some (.ok stmt)) left
      | .error (.refused reason) => .goesOn (some (.error reason)) (skipStatement tokens)
      | .error (.failed reason) => .goesOn (some (.error reason)) (skipStatement tokens)
      | .error .incomplete =>
        .goesOn (some (.error (.unexpected token.kind))) (skipStatement tokens)
      | .error .endless => .endless

/-- Puts what a round has found before all that the others find. -/
def record : Option (Except Reason Stmt) → List Stmt × List Reason → List Stmt × List Reason
  | none, others => others
  | some (.ok stmt), (stmts, reasons) => (stmt :: stmts, reasons)
  | some (.error reason), (stmts, reasons) => (stmts, reason :: reasons)

/-- Reads a program round by round. There is no result if a round has no end, or if one leaves as
much to read as there was, since it would be followed by others for ever. -/
def program (tokens : List Token) : Option (List Stmt × List Reason) :=
  match round tokens with
  | .finished => some ([], [])
  | .goesOn found rest =>
    if rest.length < tokens.length then (program rest).map (record found) else none
  | .endless => none
termination_by tokens.length

end Rules

end MonkeyLang
