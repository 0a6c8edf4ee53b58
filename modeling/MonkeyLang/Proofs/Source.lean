import MonkeyLang.Proofs.Grammar
import MonkeyLang.Proofs.Token.Legible

namespace MonkeyLang

open Grammar

mutual

/-- Whether there is a way to write an expression: names are names, numbers need no sign, and
no string holds a quote. -/
def Expr.wellFormed : Expr → Bool
  | .ident name => isName name
  | .int value => 0 ≤ value.toInt
  | .string text => text.toList.all isStringPart
  | .bool _ | .null => true
  | .unary _ operand => operand.wellFormed
  | .binary left _ right => left.wellFormed && right.wellFormed
  | .cond test yes none => test.wellFormed && wellFormed yes
  | .cond test yes (some no) => test.wellFormed && wellFormed yes && wellFormed no
  | .ternary test yes no => test.wellFormed && yes.wellFormed && no.wellFormed
  | .function params body => params.all isName && wellFormed body
  | .call callee args => callee.wellFormed && wellFormedItems args
  | .array items => wellFormedItems items
  | .hash pairs => wellFormedPairs pairs
  | .index left index => left.wellFormed && index.wellFormed

def wellFormedItems : List Expr → Bool
  | [] => true
  | item :: rest => item.wellFormed && wellFormedItems rest

def wellFormedPairs : List (Expr × Expr) → Bool
  | [] => true
  | (key, value) :: rest => key.wellFormed && value.wellFormed && wellFormedPairs rest

def Stmt.wellFormed : Stmt → Bool
  | .bind name value => isName name && value.wellFormed
  | .ret none => true
  | .ret (some value) => value.wellFormed
  | .expr value => value.wellFormed

/-- Whether there is a way to write a sequence of statements. -/
def wellFormed : List Stmt → Bool
  | [] => true
  | stmt :: rest => stmt.wellFormed && wellFormed rest

end

/-- The level at which an expression stands without parentheses. -/
def Expr.level : Expr → Nat
  | ternary .. => 0
  | binary _ op _ => op.level
  | unary .. => 5
  | _ => 6

/-- The tokens of an expression where one of some level is wanted. Only one of a lower level
gets parentheses. -/
def Expr.enclose (expr : Expr) (level : Nat) (tokens : List Token) : List Token :=
  if expr.level < level then ⟨.lparen, "("⟩ :: (tokens ++ [⟨.rparen, ")"⟩]) else tokens

def commaTokens (parts : List (List Token)) : List Token := [⟨.comma, ","⟩].intercalate parts

def bracedTokens (tokens : List Token) : List Token :=
  ⟨.lbrace, "\x7b"⟩ :: (tokens ++ [⟨.rbrace, "\x7d"⟩])

mutual

/-- The tokens of an expression, with no parentheses but those that its operators call for. -/
def Expr.tokens : Expr → List Token
  | .ident name => [⟨.ident, name⟩]
  | .int value => [⟨.int, Decimal.write value⟩]
  | .string text => [⟨.string, text⟩]
  | .bool true => [⟨.kwTrue, "true"⟩]
  | .bool false => [⟨.kwFalse, "false"⟩]
  | .null => [⟨.kwNull, "null"⟩]
  | .unary op operand => ⟨op.kind, op.symbol⟩ :: operand.enclose 5 operand.tokens
  | .binary left op right =>
    left.enclose op.level left.tokens ++
      ⟨op.kind, op.symbol⟩ :: right.enclose (op.level + 1) right.tokens
  | .cond test yes none =>
    ⟨.kwIf, "if"⟩ :: ⟨.lparen, "("⟩ ::
      (test.tokens ++ ⟨.rparen, ")"⟩ :: bracedTokens (stmtTokens yes))
  | .cond test yes (some no) =>
    ⟨.kwIf, "if"⟩ :: ⟨.lparen, "("⟩ ::
      (test.tokens ++ ⟨.rparen, ")"⟩ :: (bracedTokens (stmtTokens yes) ++
        ⟨.kwElse, "else"⟩ :: bracedTokens (stmtTokens no)))
  | .ternary test yes no =>
    test.enclose 1 test.tokens ++ ⟨.question, "?"⟩ :: (yes.tokens ++ ⟨.colon, ":"⟩ :: no.tokens)
  | .function params body =>
    ⟨.kwFn, "fn"⟩ :: ⟨.lparen, "("⟩ ::
      (commaTokens (params.map fun name => [⟨.ident, name⟩]) ++
        ⟨.rparen, ")"⟩ :: bracedTokens (stmtTokens body))
  | .call callee args =>
    callee.enclose 6 callee.tokens ++
      ⟨.lparen, "("⟩ :: (commaTokens (itemTokens args) ++ [⟨.rparen, ")"⟩])
  | .array items => ⟨.lbracket, "["⟩ :: (commaTokens (itemTokens items) ++ [⟨.rbracket, "]"⟩])
  | .hash pairs => bracedTokens (commaTokens (pairTokens pairs))
  | .index left index =>
    left.enclose 6 left.tokens ++ ⟨.lbracket, "["⟩ :: (index.tokens ++ [⟨.rbracket, "]"⟩])

def itemTokens : List Expr → List (List Token)
  | [] => []
  | item :: rest => item.tokens :: itemTokens rest

def pairTokens : List (Expr × Expr) → List (List Token)
  | [] => []
  | (key, value) :: rest => (key.tokens ++ ⟨.colon, ":"⟩ :: value.tokens) :: pairTokens rest

def Stmt.tokens : Stmt → List Token
  | .bind name value =>
    ⟨.kwLet, "let"⟩ :: ⟨.ident, name⟩ :: ⟨.assign, "="⟩ :: value.tokens
  | .ret none => [⟨.kwReturn, "return"⟩]
  | .ret (some value) => ⟨.kwReturn, "return"⟩ :: value.tokens
  | .expr value => value.tokens

/-- The tokens of a sequence of statements, each of them with its semicolon. -/
def stmtTokens : List Stmt → List Token
  | [] => []
  | stmt :: rest => stmt.tokens ++ ⟨.semicolon, ";"⟩ :: stmtTokens rest

end

/-- A source text of a program, with single spaces between its tokens. -/
def source (stmts : List Stmt) : String := " ".intercalate ((stmtTokens stmts).map Token.source)

theorem Grammar.Expression.loosen {level : Nat} {expr : Expr} {tokens : List Token}
    (hexpr : Expression level expr tokens) : Expression 0 expr tokens :=
  hexpr.of_le (Nat.zero_le level)

private theorem expression_enclose {expr : Expr} {tokens : List Token}
    (hexpr : Expression expr.level expr tokens) {level : Nat} (hlevel : level ≤ 6) :
    Expression level expr (expr.enclose level tokens) := by
  unfold Expr.enclose
  split
  · exact (Expression.group hexpr.loosen).of_le hlevel
  · rename_i hloose
    exact hexpr.of_le (Nat.le_of_not_lt hloose)

section CommaTokens

variable {α : Type} {Member : α → List Token → Prop} {item : α} {tokens : List Token}

private theorem commaTokens_one (hitem : Member item tokens) :
    CommaList Member [item] (commaTokens [tokens]) := by
  rw [commaTokens, List.intercalate_singleton]
  exact .one hitem

private theorem commaTokens_more (hitem : Member item tokens) {items : List α} {next : List Token}
    {parts : List (List Token)} (hitems : CommaList Member items (commaTokens (next :: parts)))
    (hmore : items ≠ []) :
    CommaList Member (item :: items) (commaTokens (tokens :: next :: parts)) := by
  rw [commaTokens, List.intercalate_cons_cons, List.append_assoc]
  exact .more hitem hitems hmore

end CommaTokens

private theorem param_ident (name : String) : Param name [⟨.ident, name⟩] := rfl

private theorem params_commaTokens : (params : List String) →
    CommaList Param params (commaTokens (params.map fun name => [⟨.ident, name⟩]))
  | [] => .nil
  | [name] => commaTokens_one (param_ident name)
  | name :: next :: rest =>
    commaTokens_more (param_ident name) (params_commaTokens (next :: rest)) (by simp)

mutual

/-- The tokens of an expression are a derivation of it. -/
theorem expression_tokens : (expr : Expr) → Expression expr.level expr expr.tokens
  | .ident name => .ident name
  | .int value => .int (Decimal.read?_write value)
  | .string text => .string text
  | .bool true => .yes _
  | .bool false => .no _
  | .null => .null _
  | .unary op operand => .unary (expression_enclose (expression_tokens operand) (by decide))
  | .binary left op right =>
    .binary (expression_enclose (expression_tokens left) (by cases op <;> decide))
      (expression_enclose (expression_tokens right) (by cases op <;> decide))
  | .cond test yes none =>
    .cond (expression_tokens test).loosen (braced_stmtTokens yes)
  | .cond test yes (some no) =>
    .condElse (expression_tokens test).loosen (braced_stmtTokens yes)
      (braced_stmtTokens no)
  | .ternary test yes no =>
    .ternary (expression_enclose (expression_tokens test) (by decide))
      (expression_tokens yes).loosen (expression_tokens no).loosen
  | .function params body => .function (params_commaTokens params) (braced_stmtTokens body)
  | .call callee args =>
    .call (expression_enclose (expression_tokens callee) (by decide)) (items_commaTokens args)
  | .array items => .array (items_commaTokens items)
  | .hash pairs => .hash (pairs_commaTokens pairs)
  | .index left index =>
    .index (expression_enclose (expression_tokens left) (by decide))
      (expression_tokens index).loosen

private theorem items_commaTokens : (items : List Expr) →
    CommaList (Expression 0) items (commaTokens (itemTokens items))
  | [] => .nil
  | [item] => commaTokens_one (expression_tokens item).loosen
  | item :: next :: rest =>
    commaTokens_more (expression_tokens item).loosen (items_commaTokens (next :: rest)) (by simp)

private theorem pairs_commaTokens : (pairs : List (Expr × Expr)) →
    CommaList Pair pairs (commaTokens (pairTokens pairs))
  | [] => .nil
  | [(key, value)] =>
    commaTokens_one (.pair (expression_tokens key).loosen (expression_tokens value).loosen)
  | (key, value) :: next :: rest =>
    commaTokens_more (.pair (expression_tokens key).loosen (expression_tokens value).loosen)
      (pairs_commaTokens (next :: rest)) (by simp)

private theorem statement_tokens : (stmt : Stmt) → Statement stmt stmt.tokens .semicolon
  | .bind name value => .bind (expression_tokens value).loosen rfl
  | .ret none => .retNothing rfl
  | .ret (some value) => .ret (expression_tokens value).loosen rfl
  | .expr value => .expr (expression_tokens value).loosen rfl

/-- The tokens of a program are a derivation of it, whatever ends them. -/
theorem statements_stmtTokens (last : List Token) : (stmts : List Stmt) →
    Statements last stmts (stmtTokens stmts ++ last)
  | [] => .nil last
  | stmt :: rest => by
    rw [stmtTokens, List.append_assoc]
    exact .cons (statement_tokens stmt) (statements_stmtTokens last rest).semicolon

private theorem braced_stmtTokens (block : Block) :
    Braced block (bracedTokens (stmtTokens block)) :=
  .braces (statements_stmtTokens _ block)

end

theorem UnaryOp.spelling?_kind (op : UnaryOp) : op.kind.spelling? = some op.symbol := by
  cases op <;> rfl

theorem BinaryOp.spelling?_kind (op : BinaryOp) : op.kind.spelling? = some op.symbol := by
  cases op <;> rfl

namespace Legible

theorem enclose {tokens : List Token} (htokens : Legible tokens) (expr : Expr) (level : Nat) :
    Legible (expr.enclose level tokens) := by
  unfold Expr.enclose
  split
  · exact spelling rfl (htokens.append (spelling rfl nil))
  · exact htokens

theorem braced {tokens : List Token} (htokens : Legible tokens) : Legible (bracedTokens tokens) :=
  spelling rfl (htokens.append (spelling rfl nil))

theorem comma : {parts : List (List Token)} → (∀ part ∈ parts, Legible part) →
    Legible (commaTokens parts)
  | [], _ => nil
  | [part], hparts => by
    rw [commaTokens, List.intercalate_singleton]
    exact hparts part List.mem_cons_self
  | part :: next :: rest, hparts => by
    obtain ⟨hpart, hrest⟩ := List.forall_mem_cons.mp hparts
    rw [commaTokens, List.intercalate_cons_cons, List.append_assoc]
    exact hpart.append (spelling rfl (comma hrest))

end Legible

mutual

/-- The tokens of a well-formed expression can all be written. -/
theorem legible_tokens : (expr : Expr) → expr.wellFormed = true → Legible expr.tokens
  | .ident name, hname => .cons (Token.legible_name hname) .nil
  | .int value, hvalue => .cons (Token.legible_number (of_decide_eq_true hvalue)) .nil
  | .string text, htext => .cons (Token.legible_string htext) .nil
  | .bool true, _ | .bool false, _ | .null, _ => .spelling rfl .nil
  | .unary op operand, hoperand =>
    .spelling op.spelling?_kind ((legible_tokens operand hoperand).enclose operand 5)
  | .binary left op right, hexpr => by
    obtain ⟨hleft, hright⟩ := Bool.and_eq_true_iff.mp hexpr
    exact ((legible_tokens left hleft).enclose left op.level).append
      (.spelling op.spelling?_kind ((legible_tokens right hright).enclose right (op.level + 1)))
  | .cond test yes none, hexpr => by
    obtain ⟨htest, hyes⟩ := Bool.and_eq_true_iff.mp hexpr
    exact .spelling rfl (.spelling rfl ((legible_tokens test htest).append
      (.spelling rfl (legible_stmtTokens yes hyes).braced)))
  | .cond test yes (some no), hexpr => by
    obtain ⟨hexpr, hno⟩ := Bool.and_eq_true_iff.mp hexpr
    obtain ⟨htest, hyes⟩ := Bool.and_eq_true_iff.mp hexpr
    exact .spelling rfl (.spelling rfl ((legible_tokens test htest).append
      (.spelling rfl ((legible_stmtTokens yes hyes).braced.append
        (.spelling rfl (legible_stmtTokens no hno).braced)))))
  | .ternary test yes no, hexpr => by
    obtain ⟨hexpr, hno⟩ := Bool.and_eq_true_iff.mp hexpr
    obtain ⟨htest, hyes⟩ := Bool.and_eq_true_iff.mp hexpr
    exact ((legible_tokens test htest).enclose test 1).append (.spelling rfl
      ((legible_tokens yes hyes).append (.spelling rfl (legible_tokens no hno))))
  | .function params body, hexpr => by
    obtain ⟨hparams, hbody⟩ := Bool.and_eq_true_iff.mp hexpr
    have hnames : ∀ part ∈ params.map fun name => [⟨.ident, name⟩], Legible part := by
      intro part hpart
      obtain ⟨name, hname, rfl⟩ := List.mem_map.mp hpart
      exact .cons (Token.legible_name (List.all_eq_true.mp hparams name hname)) .nil
    exact .spelling rfl (.spelling rfl ((Legible.comma hnames).append
      (.spelling rfl (legible_stmtTokens body hbody).braced)))
  | .call callee args, hexpr => by
    obtain ⟨hcallee, hargs⟩ := Bool.and_eq_true_iff.mp hexpr
    exact ((legible_tokens callee hcallee).enclose callee 6).append
      (.spelling rfl ((Legible.comma (legible_itemTokens args hargs)).append (.spelling rfl .nil)))
  | .array items, hitems =>
    .spelling rfl ((Legible.comma (legible_itemTokens items hitems)).append (.spelling rfl .nil))
  | .hash pairs, hpairs => (Legible.comma (legible_pairTokens pairs hpairs)).braced
  | .index left index, hexpr => by
    obtain ⟨hleft, hindex⟩ := Bool.and_eq_true_iff.mp hexpr
    exact ((legible_tokens left hleft).enclose left 6).append
      (.spelling rfl ((legible_tokens index hindex).append (.spelling rfl .nil)))

private theorem legible_itemTokens : (items : List Expr) → wellFormedItems items = true →
    ∀ part ∈ itemTokens items, Legible part
  | [], _ => by simp [itemTokens]
  | item :: rest, hitems => by
    obtain ⟨hitem, hrest⟩ := Bool.and_eq_true_iff.mp hitems
    exact List.forall_mem_cons.mpr ⟨legible_tokens item hitem, legible_itemTokens rest hrest⟩

private theorem legible_pairTokens : (pairs : List (Expr × Expr)) → wellFormedPairs pairs = true →
    ∀ part ∈ pairTokens pairs, Legible part
  | [], _ => by simp [pairTokens]
  | (key, value) :: rest, hpairs => by
    obtain ⟨hpair, hrest⟩ := Bool.and_eq_true_iff.mp hpairs
    obtain ⟨hkey, hvalue⟩ := Bool.and_eq_true_iff.mp hpair
    refine List.forall_mem_cons.mpr ⟨?_, legible_pairTokens rest hrest⟩
    exact (legible_tokens key hkey).append (.spelling rfl (legible_tokens value hvalue))

private theorem legible_stmt : (stmt : Stmt) → stmt.wellFormed = true → Legible stmt.tokens
  | .bind name value, hstmt => by
    obtain ⟨hname, hvalue⟩ := Bool.and_eq_true_iff.mp hstmt
    have htokens := legible_tokens value hvalue
    exact .spelling rfl (.cons (Token.legible_name hname) (.spelling rfl htokens))
  | .ret none, _ => .spelling rfl .nil
  | .ret (some value), hvalue => .spelling rfl (legible_tokens value hvalue)
  | .expr value, hvalue => legible_tokens value hvalue

theorem legible_stmtTokens : (stmts : List Stmt) → wellFormed stmts = true →
    Legible (stmtTokens stmts)
  | [], _ => .nil
  | stmt :: rest, hstmts => by
    obtain ⟨hstmt, hrest⟩ := Bool.and_eq_true_iff.mp hstmts
    exact (legible_stmt stmt hstmt).append (.spelling rfl (legible_stmtTokens rest hrest))

end

end MonkeyLang
