import MonkeyLang.Decimal
import MonkeyLang.Parser.Config
import MonkeyLang.SyntaxError

namespace MonkeyLang

/-- The binary operator that a class of tokens denotes between two operands. -/
def BinaryOp.ofKind? : Kind → Option BinaryOp
  | .plus => some add
  | .minus => some sub
  | .asterisk => some mul
  | .slash => some div
  | .less => some less
  | .greater => some greater
  | .equal => some equal
  | .notEqual => some notEqual
  | _ => none

namespace Parser

/-- Takes a token that must be of one class. -/
def demand (wanted : Kind) (token : Token) (next : Config) : Except SyntaxError Step :=
  if token.kind = wanted then .ok (.shift next) else .error (.expected wanted token.kind)

/-- Takes the first token of an expression. -/
def readOperand (pending : Pending) (outer : List OpenBlock) (token : Token) :
    Except SyntaxError Config :=
  let after (expr : Expr) : Except SyntaxError Config := .ok (.inside (.after expr) pending outer)
  match token.kind with
  | .ident => after (.ident token.text)
  | .int =>
    match Decimal.read? token.text with
    | some value => after (.int value)
    | none => .error (.integer token.text)
  | .string => after (.string token.text)
  | .kwTrue => after (.bool true)
  | .kwFalse => after (.bool false)
  | .kwNull => after .null
  | .bang => .ok (.inside .operand (pending.push (.unary .not)) outer)
  | .minus => .ok (.inside .operand (pending.push (.unary .negate)) outer)
  | .lparen => .ok (.inside .operand (pending.push .group) outer)
  | .lbracket => .ok (.inside (.firstItem .array) pending outer)
  | .lbrace => .ok (.inside .firstPair pending outer)
  | .kwIf => .ok (.inside .ifParen pending outer)
  | .kwFn => .ok (.inside .fnParen pending outer)
  | found => .error (.noOperand found)

/-- Takes the first token of a statement. -/
def readStart (outer : List OpenBlock) (token : Token) : Except SyntaxError Config :=
  match token.kind with
  | .kwLet => .ok (.head .letName outer)
  | .kwReturn => .ok (.head .retValue outer)
  | _ => readOperand ⟨.expr, []⟩ outer token

/-- Takes a token between the statements of a block, where semicolons mean nothing. -/
def readBetween (block : OpenBlock) (outer : List OpenBlock) (token : Token) :
    Except SyntaxError Config :=
  match token.kind with
  | .rbrace => .ok (.inside block.close block.inside outer)
  | .semicolon => .ok (.between block outer)
  | .eof => .error (.expected .rbrace .eof)
  | _ => readStart (block :: outer) token

/-- Ends a statement before a token. Inside a block that token is then read as what
stands between statements. -/
def endStmt (stmt : Stmt) (outer : List OpenBlock) (token : Token) : Except SyntaxError Step :=
  match outer with
  | [] => .ok (.accept stmt)
  | block :: outer =>
    (readBetween { block with done := block.done ++ [stmt] } outer token).map .shift

/-- Completes the operators that bind at least as tightly as `level`. The conditional
operator binds loosest of all and is never among them. -/
def reduce (level : Nat) : Expr → List Frame → Expr × List Frame
  | expr, .unary op :: frames => reduce level (.unary op expr) frames
  | expr, .binary left op :: frames =>
    if level ≤ op.level then reduce level (.binary left op expr) frames
    else (expr, .binary left op :: frames)
  | expr, frames => (expr, frames)

/-- Takes a token that cannot extend the expression before it. All operators waiting for
that expression are complete, and the construct around them decides. -/
def settle (goal : Goal) (outer : List OpenBlock) (token : Token) :
    Expr → List Frame → Except SyntaxError Step
  | expr, [] => endStmt (goal.stmt expr) outer token
  | expr, .unary op :: frames => settle goal outer token (.unary op expr) frames
  | expr, .binary left op :: frames => settle goal outer token (.binary left op expr) frames
  | expr, .ternaryNo test yes :: frames => settle goal outer token (.ternary test yes expr) frames
  | expr, .ternaryYes test :: frames =>
    demand .colon token (.inside .operand ⟨goal, .ternaryNo test expr :: frames⟩ outer)
  | expr, .group :: frames =>
    demand .rparen token (.inside (.after expr) ⟨goal, frames⟩ outer)
  | expr, .item head done :: frames =>
    if token.kind = .comma then
      .ok (.shift (.inside .operand ⟨goal, .item head (done ++ [expr]) :: frames⟩ outer))
    else
      demand head.closing token
        (.inside (.after (head.build (done ++ [expr]))) ⟨goal, frames⟩ outer)
  | expr, .key done :: frames =>
    demand .colon token (.inside .operand ⟨goal, .value done expr :: frames⟩ outer)
  | expr, .value done key :: frames =>
    if token.kind = .comma then
      .ok (.shift (.inside .operand ⟨goal, .key (done ++ [(key, expr)]) :: frames⟩ outer))
    else
      demand .rbrace token
        (.inside (.after (.hash (done ++ [(key, expr)]))) ⟨goal, frames⟩ outer)
  | expr, .index left :: frames =>
    demand .rbracket token (.inside (.after (.index left expr)) ⟨goal, frames⟩ outer)
  | expr, .test :: frames =>
    demand .rparen token (.inside (.openBlock (.yes expr)) ⟨goal, frames⟩ outer)

/-- Takes a token behind an operand with its calls and subscripts. -/
def readAfter (expr : Expr) (pending : Pending) (outer : List OpenBlock) (token : Token) :
    Except SyntaxError Step :=
  match token.kind with
  | .lparen => .ok (.shift (.inside (.firstItem (.args expr)) pending outer))
  | .lbracket => .ok (.shift (.inside .operand (pending.push (.index expr)) outer))
  | .question =>
    let (test, frames) := reduce 1 expr pending.frames
    .ok (.shift (.inside .operand ⟨pending.goal, .ternaryYes test :: frames⟩ outer))
  | kind =>
    match BinaryOp.ofKind? kind with
    | some op =>
      let (left, frames) := reduce op.level expr pending.frames
      .ok (.shift (.inside .operand ⟨pending.goal, .binary left op :: frames⟩ outer))
    | none => settle pending.goal outer token expr pending.frames

/-- Takes a token inside an expression. -/
def readInside (focus : Focus) (pending : Pending) (outer : List OpenBlock) (token : Token) :
    Except SyntaxError Step :=
  match focus with
  | .operand => (readOperand pending outer token).map .shift
  | .firstItem head =>
    if token.kind = head.closing then .ok (.shift (.inside (.after (head.build [])) pending outer))
    else (readOperand (pending.push (.item head [])) outer token).map .shift
  | .firstPair =>
    if token.kind = .rbrace then .ok (.shift (.inside (.after (.hash [])) pending outer))
    else (readOperand (pending.push (.key [])) outer token).map .shift
  | .after expr => readAfter expr pending outer token
  | .ifParen => demand .lparen token (.inside .operand (pending.push .test) outer)
  | .mayElse test yes =>
    if token.kind = .kwElse then .ok (.shift (.inside (.openBlock (.no test yes)) pending outer))
    else readAfter (.cond test yes none) pending outer token
  | .fnParen => demand .lparen token (.inside .firstParam pending outer)
  | .firstParam =>
    if token.kind = .rparen then .ok (.shift (.inside (.openBlock (.body [])) pending outer))
    else demand .ident token (.inside (.afterParam [token.text]) pending outer)
  | .param done =>
    demand .ident token (.inside (.afterParam (done ++ [token.text])) pending outer)
  | .afterParam done =>
    if token.kind = .comma then .ok (.shift (.inside (.param done) pending outer))
    else demand .rparen token (.inside (.openBlock (.body done)) pending outer)
  | .openBlock head => demand .lbrace token (.between ⟨head, [], pending⟩ outer)

/-- Takes a token before the expression of a statement. A `return` may end without one. -/
def readHead (head : Head) (outer : List OpenBlock) (token : Token) : Except SyntaxError Step :=
  match head with
  | .start => (readStart outer token).map .shift
  | .letName => demand .ident token (.head (.letAssign token.text) outer)
  | .letAssign name => demand .assign token (.inside .operand ⟨.bind name, []⟩ outer)
  | .retValue =>
    match token.kind with
    | .semicolon | .rbrace | .eof => endStmt (.ret none) outer token
    | _ => (readOperand ⟨.ret, []⟩ outer token).map .shift

/-- Takes one token, in any configuration. -/
def Config.step (config : Config) (token : Token) : Except SyntaxError Step :=
  match config with
  | .between block outer => (readBetween block outer token).map .shift
  | .head part outer => readHead part outer token
  | .inside focus pending outer => readInside focus pending outer token

/-- Reads one statement up to the token that cannot belong to it, which is left in place.
A list that runs out ends as it would before an end-of-input token, and since such a token
is never taken the last case of the inner match does not arise. -/
def Config.run (config : Config) : List Token → Except SyntaxError (Stmt × List Token)
  | [] =>
    match config.step .eof with
    | .error error => .error error
    | .ok (.accept stmt) => .ok (stmt, [])
    | .ok (.shift _) => .error (.noOperand .eof)
  | token :: rest =>
    match config.step token with
    | .error error => .error error
    | .ok (.accept stmt) => .ok (stmt, token :: rest)
    | .ok (.shift next) => next.run rest

end Parser

end MonkeyLang
