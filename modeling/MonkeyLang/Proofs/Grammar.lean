import MonkeyLang.Decimal
import MonkeyLang.Expr
import MonkeyLang.Token

namespace MonkeyLang

/-- The class of tokens that writes a unary operator. -/
def UnaryOp.kind : UnaryOp → Kind
  | negate => .minus
  | not => .bang

/-- The class of tokens that writes a binary operator. -/
def BinaryOp.kind : BinaryOp → Kind
  | add => .plus
  | sub => .minus
  | mul => .asterisk
  | div => .slash
  | less => .less
  | greater => .greater
  | equal => .equal
  | notEqual => .notEqual

/-- The classes of tokens that carry on an expression standing before them. -/
def Kind.continues : Kind → Bool
  | plus | minus | asterisk | slash | less | greater | equal | notEqual => true
  | question | lparen | lbracket => true
  | _ => false

/-- The classes of tokens with which an expression begins. -/
def Kind.begins : Kind → Bool
  | ident | int | string | kwTrue | kwFalse | kwNull => true
  | bang | minus | lparen | lbracket | lbrace | kwIf | kwFn => true
  | _ => false

/-- The classes of tokens with which a statement begins. -/
def Kind.beginsStmt : Kind → Bool
  | kwLet | kwReturn => true
  | kind => kind.begins

/-- The classes of tokens before which a `return` goes without a value. -/
def Kind.endsReturn : Kind → Bool
  | semicolon | rbrace | eof => true
  | _ => false

namespace Grammar

/-- A list with commas between its members and none behind the last one. -/
inductive CommaList {α : Type} (Member : α → List Token → Prop) : List α → List Token → Prop where
  | nil : CommaList Member [] []
  | one {item : α} {tokens : List Token} (hitem : Member item tokens) :
      CommaList Member [item] tokens
  | more {item : α} {items : List α} {tokens others : List Token} {comma : String}
      (hitem : Member item tokens) (hitems : CommaList Member items others) (hmore : items ≠ []) :
      CommaList Member (item :: items) (tokens ++ ⟨.comma, comma⟩ :: others)

/-- The name of a parameter. -/
def Param (name : String) (tokens : List Token) : Prop := tokens = [⟨.ident, name⟩]

mutual

/-- What a list of tokens says as an expression of some level. Level 0 is that of the
conditional operator, those of the binary operators follow, unary operators have level 5, and
operands with their calls and subscripts level 6. The texts of tokens matter only where they
name or denote something. -/
inductive Expression : Nat → Expr → List Token → Prop where
  | tighter {level : Nat} {expr : Expr} {tokens : List Token}
      (hexpr : Expression (level + 1) expr tokens) : Expression level expr tokens
  | ternary {test yes no : Expr} {ts ys ns : List Token} {question colon : String}
      (htest : Expression 1 test ts) (hyes : Expression 0 yes ys) (hno : Expression 0 no ns) :
      Expression 0 (.ternary test yes no)
        (ts ++ ⟨.question, question⟩ :: (ys ++ ⟨.colon, colon⟩ :: ns))
  | binary {left right : Expr} {op : BinaryOp} {ls rs : List Token} {symbol : String}
      (hleft : Expression op.level left ls) (hright : Expression (op.level + 1) right rs) :
      Expression op.level (.binary left op right) (ls ++ ⟨op.kind, symbol⟩ :: rs)
  | unary {op : UnaryOp} {operand : Expr} {tokens : List Token} {symbol : String}
      (hoperand : Expression 5 operand tokens) :
      Expression 5 (.unary op operand) (⟨op.kind, symbol⟩ :: tokens)
  | call {callee : Expr} {args : List Expr} {cs as : List Token} {lparen rparen : String}
      (hcallee : Expression 6 callee cs) (hargs : CommaList (Expression 0) args as) :
      Expression 6 (.call callee args) (cs ++ ⟨.lparen, lparen⟩ :: (as ++ [⟨.rparen, rparen⟩]))
  | index {left index : Expr} {ls is : List Token} {lbracket rbracket : String}
      (hleft : Expression 6 left ls) (hindex : Expression 0 index is) :
      Expression 6 (.index left index)
        (ls ++ ⟨.lbracket, lbracket⟩ :: (is ++ [⟨.rbracket, rbracket⟩]))
  | ident (name : String) : Expression 6 (.ident name) [⟨.ident, name⟩]
  | int {literal : String} {value : Int64} (hvalue : Decimal.read? literal = some value) :
      Expression 6 (.int value) [⟨.int, literal⟩]
  | string (text : String) : Expression 6 (.string text) [⟨.string, text⟩]
  | yes (word : String) : Expression 6 (.bool true) [⟨.kwTrue, word⟩]
  | no (word : String) : Expression 6 (.bool false) [⟨.kwFalse, word⟩]
  | null (word : String) : Expression 6 .null [⟨.kwNull, word⟩]
  | group {expr : Expr} {tokens : List Token} {lparen rparen : String}
      (hexpr : Expression 0 expr tokens) :
      Expression 6 expr (⟨.lparen, lparen⟩ :: (tokens ++ [⟨.rparen, rparen⟩]))
  | array {items : List Expr} {tokens : List Token} {lbracket rbracket : String}
      (hitems : CommaList (Expression 0) items tokens) :
      Expression 6 (.array items) (⟨.lbracket, lbracket⟩ :: (tokens ++ [⟨.rbracket, rbracket⟩]))
  | hash {pairs : List (Expr × Expr)} {tokens : List Token} {lbrace rbrace : String}
      (hpairs : CommaList Pair pairs tokens) :
      Expression 6 (.hash pairs) (⟨.lbrace, lbrace⟩ :: (tokens ++ [⟨.rbrace, rbrace⟩]))
  | cond {test : Expr} {yes : Block} {ts ys : List Token} {word lparen rparen : String}
      (htest : Expression 0 test ts) (hyes : Braced yes ys) :
      Expression 6 (.cond test yes none)
        (⟨.kwIf, word⟩ :: ⟨.lparen, lparen⟩ :: (ts ++ ⟨.rparen, rparen⟩ :: ys))
  | condElse {test : Expr} {yes no : Block} {ts ys ns : List Token}
      {word lparen rparen other : String}
      (htest : Expression 0 test ts) (hyes : Braced yes ys) (hno : Braced no ns) :
      Expression 6 (.cond test yes (some no))
        (⟨.kwIf, word⟩ :: ⟨.lparen, lparen⟩ ::
          (ts ++ ⟨.rparen, rparen⟩ :: (ys ++ ⟨.kwElse, other⟩ :: ns)))
  | function {params : List String} {body : Block} {ps bs : List Token}
      {word lparen rparen : String}
      (hparams : CommaList Param params ps) (hbody : Braced body bs) :
      Expression 6 (.function params body)
        (⟨.kwFn, word⟩ :: ⟨.lparen, lparen⟩ :: (ps ++ ⟨.rparen, rparen⟩ :: bs))

/-- A key and a value of a hash. -/
inductive Pair : Expr × Expr → List Token → Prop where
  | pair {key value : Expr} {ks vs : List Token} {colon : String}
      (hkey : Expression 0 key ks) (hvalue : Expression 0 value vs) :
      Pair (key, value) (ks ++ ⟨.colon, colon⟩ :: vs)

/-- A block with its braces. -/
inductive Braced : Block → List Token → Prop where
  | braces {block : Block} {tokens : List Token} {lbrace rbrace : String}
      (hblock : Statements [⟨.rbrace, rbrace⟩] block tokens) :
      Braced block (⟨.lbrace, lbrace⟩ :: tokens)

/-- A statement that stands before a token of a given class, without the semicolon that may
close it. The expression of a statement takes all it can, so nothing that follows would carry
it on. -/
inductive Statement : Stmt → List Token → Kind → Prop where
  | bind {name : String} {value : Expr} {tokens : List Token} {next : Kind} {word assign : String}
      (hvalue : Expression 0 value tokens) (hnext : next.continues = false) :
      Statement (.bind name value)
        (⟨.kwLet, word⟩ :: ⟨.ident, name⟩ :: ⟨.assign, assign⟩ :: tokens) next
  | ret {value : Expr} {tokens : List Token} {next : Kind} {word : String}
      (hvalue : Expression 0 value tokens) (hnext : next.continues = false) :
      Statement (.ret (some value)) (⟨.kwReturn, word⟩ :: tokens) next
  | retNothing {next : Kind} {word : String} (hnext : next.endsReturn = true) :
      Statement (.ret none) [⟨.kwReturn, word⟩] next
  | expr {value : Expr} {tokens : List Token} {next : Kind}
      (hvalue : Expression 0 value tokens) (hnext : next.continues = false) :
      Statement (.expr value) tokens next

/-- Statements up to some last tokens, which are the closing brace of a block or none at all.
Semicolons may stand anywhere between statements, so the one that closes a statement needs no
rule of its own. -/
inductive Statements : List Token → List Stmt → List Token → Prop where
  | nil (last : List Token) : Statements last [] last
  | semicolon {last : List Token} {stmts : List Stmt} {tokens : List Token} {symbol : String}
      (hstmts : Statements last stmts tokens) :
      Statements last stmts (⟨.semicolon, symbol⟩ :: tokens)
  | cons {last : List Token} {stmt : Stmt} {stmts : List Stmt} {tokens others : List Token}
      (hstmt : Statement stmt tokens (nextKind others)) (hstmts : Statements last stmts others) :
      Statements last (stmt :: stmts) (tokens ++ others)

end

theorem Expression.of_le {low high : Nat} {expr : Expr} {tokens : List Token} (hle : low ≤ high)
    (hexpr : Expression high expr tokens) : Expression low expr tokens := by
  induction hle with
  | refl => exact hexpr
  | step _ ih => exact ih hexpr.tighter

theorem nextKind_append {tokens : List Token} (hfilled : tokens ≠ []) (rest : List Token) :
    nextKind (tokens ++ rest) = nextKind tokens := by
  cases tokens with
  | nil => contradiction
  | cons token tokens => rfl

theorem ne_nil_of_begins {tokens : List Token} (hbegins : (nextKind tokens).begins = true) :
    tokens ≠ [] := by
  rintro rfl
  cases hbegins

theorem Expression.begins {level : Nat} {expr : Expr} {tokens : List Token} :
    Expression level expr tokens → (nextKind tokens).begins = true
  | .tighter hexpr => hexpr.begins
  | .ternary hfirst _ _ | .binary hfirst _ | .call hfirst _ | .index hfirst _ => by
    have hbegins := hfirst.begins
    rw [nextKind_append (ne_nil_of_begins hbegins)]
    exact hbegins
  | @Expression.unary op _ _ _ _ => by cases op <;> rfl
  | .ident _ | .int _ | .string _ | .yes _ | .no _ | .null _ => rfl
  | .group _ | .array _ | .hash _ | .cond _ _ | .condElse _ _ _ | .function _ _ => rfl

theorem Expression.ne_nil {level : Nat} {expr : Expr} {tokens : List Token}
    (hexpr : Expression level expr tokens) : tokens ≠ [] :=
  ne_nil_of_begins hexpr.begins

theorem CommaList.begins {α : Type} {Member : α → List Token → Prop}
    (hmember : ∀ {item tokens}, Member item tokens → (nextKind tokens).begins = true)
    {items : List α} {tokens : List Token} (hitems : CommaList Member items tokens)
    (hfilled : items ≠ []) : (nextKind tokens).begins = true := by
  cases hitems with
  | nil => contradiction
  | one hitem => exact hmember hitem
  | more hitem =>
    have hbegins := hmember hitem
    rw [nextKind_append (ne_nil_of_begins hbegins)]
    exact hbegins

theorem Statement.begins {stmt : Stmt} {tokens : List Token} {next : Kind}
    (hstmt : Statement stmt tokens next) : (nextKind tokens).beginsStmt = true := by
  cases hstmt with
  | expr hvalue =>
    have hbegins := hvalue.begins
    unfold Kind.beginsStmt
    split <;> simp_all
  | _ => rfl

theorem Statement.ne_nil {stmt : Stmt} {tokens : List Token} {next : Kind}
    (hstmt : Statement stmt tokens next) : tokens ≠ [] := by
  rintro rfl
  cases hstmt.begins

theorem Statement.not_continues {stmt : Stmt} {tokens : List Token} {next : Kind}
    (hstmt : Statement stmt tokens next) : next.continues = false := by
  cases hstmt with
  | retNothing hnext => cases next <;> simp_all [Kind.endsReturn, Kind.continues]
  | bind _ hnext | ret _ hnext | expr _ hnext => exact hnext

/-- A statement does not begin with a token that begins none. -/
theorem Statement.nextKind_ne {stmt : Stmt} {tokens : List Token} {next : Kind}
    (hstmt : Statement stmt tokens next) {kind : Kind} (hkind : kind.beginsStmt = false) :
    nextKind tokens ≠ kind := by
  rintro rfl
  rw [hstmt.begins] at hkind
  cases hkind

theorem Statements.ne_nil {last tokens : List Token} {stmts : List Stmt} :
    Statements last stmts tokens → last ≠ [] → tokens ≠ []
  | .nil _, hlast => hlast
  | .semicolon _, _ => by simp
  | .cons hstmt _, _ => by simp [hstmt.ne_nil]

end Grammar

end MonkeyLang
