import MonkeyLang.Expr.Render
import MonkeyLang.Proofs.Ending
import MonkeyLang.Proofs.Source

namespace MonkeyLang

open Grammar Token

mutual

/-- Whether the canonical text of an expression tells all of it. Names are names and numbers need no
sign. Strings and blocks are written without their delimiters, so there are none. -/
def Expr.isPlain : Expr → Bool
  | .ident name => isName name
  | .int value => 0 ≤ value.toInt
  | .bool _ | .null => true
  | .string _ | .cond .. | .function .. => false
  | .unary _ operand => operand.isPlain
  | .binary left _ right => left.isPlain && right.isPlain
  | .ternary test yes no => test.isPlain && yes.isPlain && no.isPlain
  | .call callee args => callee.isPlain && arePlain args
  | .array items => arePlain items
  | .hash pairs => arePlainPairs pairs
  | .index left index => left.isPlain && index.isPlain

def arePlain : List Expr → Bool
  | [] => true
  | item :: rest => item.isPlain && arePlain rest

def arePlainPairs : List (Expr × Expr) → Bool
  | [] => true
  | (key, value) :: rest => key.isPlain && value.isPlain && arePlainPairs rest

end

/-- Whether the canonical text of a program tells all of it. Only `let` and `return` carry a
semicolon, so nothing follows an expression that is a statement. -/
def isPlainProgram : List Stmt → Bool
  | [] => true
  | [.expr value] => value.isPlain
  | .expr _ :: _ :: _ => false
  | .bind name value :: rest => isName name && value.isPlain && isPlainProgram rest
  | .ret none :: rest => isPlainProgram rest
  | .ret (some value) :: rest => value.isPlain && isPlainProgram rest

namespace Token

/-- An expression does not begin with an equals sign. -/
theorem Munched.head_ne_equals {tokens : List Token} {cs : List Char}
    (hmunched : Munched tokens cs) (hbegins : (nextKind tokens).begins = true) :
    ∀ c ∈ cs.head?, c ≠ '=' := by
  rintro c hc rfl
  obtain ⟨rest, rfl⟩ := List.head?_eq_some_iff.mp hc
  cases tokens with
  | nil => cases hbegins
  | cons token tokens =>
    have hscan : scanAll ('=' :: rest) =
        (startingWith '=' rest).1 :: scanAll (startingWith '=' rest).2 :=
      scanAll_of_scan_eq_some (scan_cons rfl rest)
    rw [hmunched.scanAll_eq, List.cons_append, List.cons.injEq] at hscan
    by_cases hpair : ∃ others, rest = '=' :: others
    · obtain ⟨others, rfl⟩ := hpair
      rw [hscan.1] at hbegins
      cases hbegins
    · have hsingle : startingWith '=' rest = (⟨.assign, "="⟩, rest) :=
        startingWith_single rfl rfl (by decide) fun others hrest => absurd ⟨others, hrest⟩ hpair
      rw [hscan.1, hsingle] at hbegins
      cases hbegins

end Token

/-- A unary operator is a token apart from the operand behind it. The exclamation mark is half of
another token, but no operand begins with an equals sign. -/
theorem UnaryOp.spells (op : UnaryOp) {cs : List Char} {tokens : List Token}
    (hspells : Spells cs tokens) (hbegins : (nextKind tokens).begins = true) :
    Spells (op.symbol.toList ++ cs) (⟨op.kind, op.symbol⟩ :: tokens) := by
  cases op with
  | negate => exact hspells.mark rfl
  | not =>
    intro rest more hrest hmore
    have hmunched := hspells rest more hrest hmore
    rw [← nextKind_append (ne_nil_of_begins hbegins) more] at hbegins
    have hmark : Munches ⟨.bang, "!"⟩ ['!'] (cs ++ rest) :=
      .mark (c := '!') (by decide) fun _ => hmunched.head_ne_equals hbegins
    exact hmark.munched hmunched

theorem BinaryOp.spells (op : BinaryOp) : Spells op.symbol.toList [⟨op.kind, op.symbol⟩] := by
  have hspells := (legible_of_spelling? op.spelling?_kind).spells
  have hkind : op.kind ≠ .string := by cases op <;> decide
  rwa [Token.source, if_neg hkind] at hspells

/-- A text says something if its tokens are a derivation of it. -/
def Says {α : Type} (Member : α → List Token → Prop) (item : α) (cs : List Char) : Prop :=
  ∃ tokens, Spells cs tokens ∧ Member item tokens

namespace Says

theorem commaList {α : Type} {Member : α → List Token → Prop} : {items : List α} →
    {texts : List (List Char)} → List.Forall₂ (Says Member) items texts →
    Says (CommaList Member) items ([',', ' '].intercalate texts)
  | [], [], .nil => ⟨[], .nil, .nil⟩
  | [item], [text], .cons hitem .nil => by
    obtain ⟨tokens, hspells, hmember⟩ := hitem
    rw [List.intercalate_singleton]
    exact ⟨tokens, hspells, .one hmember⟩
  | item :: next :: items, text :: other :: texts, .cons hitem hitems => by
    obtain ⟨tokens, hspells, hmember⟩ := hitem
    obtain ⟨others, hothers, hlist⟩ := commaList hitems
    rw [List.intercalate_cons_cons, List.append_assoc]
    exact ⟨_, hspells.join rfl hothers.space, .more hmember hlist (by simp)⟩

/-- An operand says the same wherever an expression is wanted. -/
theorem loosen {expr : Expr} {cs : List Char} (hexpr : Says (Expression 6) expr cs) :
    Says (Expression 0) expr cs := by
  obtain ⟨tokens, hspells, hexpr⟩ := hexpr
  exact ⟨tokens, hspells, hexpr.of_le (Nat.zero_le 6)⟩

/-- Parentheses make an operand of any expression. -/
theorem group {expr : Expr} {cs : List Char} (hexpr : Says (Expression 0) expr cs) :
    Says (Expression 6) expr ('(' :: (cs ++ [')'])) := by
  obtain ⟨tokens, hspells, hexpr⟩ := hexpr
  exact ⟨_, (hspells.join rfl .nil).mark rfl, .group hexpr⟩

theorem unary {operand : Expr} {cs : List Char} (op : UnaryOp)
    (hoperand : Says (Expression 6) operand cs) :
    Says (Expression 0) (.unary op operand) (op.symbol.toList ++ cs) := by
  obtain ⟨tokens, hspells, hoperand⟩ := hoperand
  refine ⟨_, op.spells hspells hoperand.begins, ?_⟩
  exact (Expression.unary (hoperand.of_le (by decide))).of_le (by decide)

theorem binary {left right : Expr} {ls rs : List Char} (op : BinaryOp)
    (hleft : Says (Expression 6) left ls) (hright : Says (Expression 6) right rs) :
    Says (Expression 0) (.binary left op right) (ls ++ ' ' :: (op.symbol.toList ++ ' ' :: rs)) := by
  obtain ⟨lefts, hlefts, hleft⟩ := hleft
  obtain ⟨rights, hrights, hright⟩ := hright
  have hlevel := op.level_le_four
  refine ⟨_, hlefts.gap (op.spells.gap hrights), ?_⟩
  exact (Expression.binary (hleft.of_le (by omega)) (hright.of_le (by omega))).of_le (Nat.zero_le _)

theorem ternary {test yes no : Expr} {ts ys ns : List Char}
    (htest : Says (Expression 6) test ts) (hyes : Says (Expression 6) yes ys)
    (hno : Says (Expression 6) no ns) :
    Says (Expression 0) (.ternary test yes no)
      (ts ++ ' ' :: '?' :: ' ' :: (ys ++ ' ' :: ':' :: ' ' :: ns)) := by
  obtain ⟨tests, htests, htest⟩ := htest
  obtain ⟨yeses, hyeses, hyes⟩ := hyes
  obtain ⟨nos, hnos, hno⟩ := hno
  have hbranches := hyeses.gap (hnos.space.mark (c := ':') rfl)
  refine ⟨_, htests.gap (hbranches.space.mark (c := '?') rfl), ?_⟩
  exact .ternary (htest.of_le (by decide)) (hyes.of_le (by decide)) (hno.of_le (by decide))

theorem call {callee : Expr} {args : List Expr} {cs as : List Char}
    (hcallee : Says (Expression 6) callee cs) (hargs : Says (CommaList (Expression 0)) args as) :
    Says (Expression 6) (.call callee args) (cs ++ '(' :: (as ++ [')'])) := by
  obtain ⟨callees, hcallees, hcallee⟩ := hcallee
  obtain ⟨tokens, hspells, hargs⟩ := hargs
  exact ⟨_, hcallees.join rfl (hspells.join rfl .nil), .call hcallee hargs⟩

theorem array {items : List Expr} {cs : List Char}
    (hitems : Says (CommaList (Expression 0)) items cs) :
    Says (Expression 6) (.array items) ('[' :: (cs ++ [']'])) := by
  obtain ⟨tokens, hspells, hitems⟩ := hitems
  exact ⟨_, (hspells.join rfl .nil).mark rfl, .array hitems⟩

theorem hash {pairs : List (Expr × Expr)} {cs : List Char}
    (hpairs : Says (CommaList Pair) pairs cs) :
    Says (Expression 6) (.hash pairs) ('\x7b' :: (cs ++ ['\x7d'])) := by
  obtain ⟨tokens, hspells, hpairs⟩ := hpairs
  exact ⟨_, (hspells.join rfl .nil).mark rfl, .hash hpairs⟩

theorem pair {key value : Expr} {ks vs : List Char} (hkey : Says (Expression 6) key ks)
    (hvalue : Says (Expression 6) value vs) : Says Pair (key, value) (ks ++ ':' :: vs) := by
  obtain ⟨keys, hkeys, hkey⟩ := hkey
  obtain ⟨values, hvalues, hvalue⟩ := hvalue
  exact ⟨_, hkeys.join rfl hvalues,
    .pair (hkey.of_le (Nat.zero_le 6)) (hvalue.of_le (Nat.zero_le 6))⟩

theorem index {left index : Expr} {ls is : List Char} (hleft : Says (Expression 6) left ls)
    (hindex : Says (Expression 6) index is) :
    Says (Expression 6) (.index left index) (ls ++ '[' :: (is ++ [']'])) := by
  obtain ⟨lefts, hlefts, hleft⟩ := hleft
  obtain ⟨tokens, hspells, hindex⟩ := hindex
  exact ⟨_, hlefts.join rfl (hspells.join rfl .nil),
    .index hleft (hindex.of_le (Nat.zero_le 6))⟩

theorem bind {name : String} {value : Expr} {cs : List Char} (hname : isName name = true)
    (hvalue : Says (Expression 0) value cs) :
    Says (Statement · · .semicolon) (.bind name value)
      ("let".toList ++ ' ' :: (name.toList ++ ' ' :: '=' :: ' ' :: cs)) := by
  obtain ⟨tokens, hspells, hvalue⟩ := hvalue
  have hlet := (@legible_of_spelling? .kwLet _ rfl).spells
  have hassign := (@legible_of_spelling? .assign _ rfl).spells
  exact ⟨_, hlet.gap ((legible_name hname).spells.gap (hassign.gap hspells)), .bind hvalue rfl⟩

theorem ret {value : Expr} {cs : List Char} (hvalue : Says (Expression 0) value cs) :
    Says (Statement · · .semicolon) (.ret (some value)) ("return".toList ++ ' ' :: cs) := by
  obtain ⟨tokens, hspells, hvalue⟩ := hvalue
  exact ⟨_, (@legible_of_spelling? .kwReturn _ rfl).spells.gap hspells, .ret hvalue rfl⟩

theorem retNothing : Says (Statement · · .semicolon) (.ret none) "return".toList :=
  ⟨_, (@legible_of_spelling? .kwReturn _ rfl).spells, .retNothing rfl⟩

/-- A semicolon keeps a statement apart from those behind it. -/
theorem cons {stmt : Stmt} {stmts : List Stmt} {cs ds : List Char}
    (hstmt : Says (Statement · · .semicolon) stmt cs) (hstmts : Says (Statements []) stmts ds) :
    Says (Statements []) (stmt :: stmts) (cs ++ ';' :: ds) := by
  obtain ⟨tokens, hspells, hstmt⟩ := hstmt
  obtain ⟨others, hothers, hstmts⟩ := hstmts
  exact ⟨_, hspells.join rfl hothers, .cons hstmt hstmts.semicolon⟩

end Says

mutual

/-- The canonical text of an expression says that expression, and it is an operand: whatever has an
operator in it also has parentheses around it. -/
theorem says_render : (expr : Expr) → expr.isPlain = true →
    Says (Expression 6) expr expr.render.toList
  | .ident name, hname => ⟨_, (legible_name hname).spells, .ident name⟩
  | .int value, hvalue =>
    ⟨_, (legible_number (of_decide_eq_true hvalue)).spells, .int (Decimal.read?_write value)⟩
  | .bool true, _ => ⟨_, (@legible_of_spelling? .kwTrue _ rfl).spells, .yes "true"⟩
  | .bool false, _ => ⟨_, (@legible_of_spelling? .kwFalse _ rfl).spells, .no "false"⟩
  | .null, _ => ⟨_, (@legible_of_spelling? .kwNull _ rfl).spells, .null "null"⟩
  | .unary op operand, hoperand => by
    have hsays := ((says_render operand hoperand).unary op).group
    simpa [Expr.render] using hsays
  | .binary left op right, hexpr => by
    obtain ⟨hleft, hright⟩ := Bool.and_eq_true_iff.mp hexpr
    have hsays := ((says_render left hleft).binary op (says_render right hright)).group
    simpa [Expr.render] using hsays
  | .ternary test yes no, hexpr => by
    obtain ⟨hexpr, hno⟩ := Bool.and_eq_true_iff.mp hexpr
    obtain ⟨htest, hyes⟩ := Bool.and_eq_true_iff.mp hexpr
    have hbranches := (says_render test htest).ternary (says_render yes hyes) (says_render no hno)
    have hsays := hbranches.group
    simpa [Expr.render] using hsays
  | .call callee args, hexpr => by
    obtain ⟨hcallee, hargs⟩ := Bool.and_eq_true_iff.mp hexpr
    have hsays := (says_render callee hcallee).call (.commaList (says_renderItems args hargs))
    simpa [Expr.render] using hsays
  | .array items, hitems => by
    have hsays := (Says.commaList (says_renderItems items hitems)).array
    simpa [Expr.render] using hsays
  | .hash pairs, hpairs => by
    have hsays := (Says.commaList (says_renderPairs pairs hpairs)).hash
    simpa [Expr.render] using hsays
  | .index left index, hexpr => by
    obtain ⟨hleft, hindex⟩ := Bool.and_eq_true_iff.mp hexpr
    have hsays := ((says_render left hleft).index (says_render index hindex)).loosen.group
    simpa [Expr.render] using hsays

private theorem says_renderItems : (items : List Expr) → arePlain items = true →
    List.Forall₂ (Says (Expression 0)) items ((renderItems items).map String.toList)
  | [], _ => .nil
  | item :: rest, hitems => by
    obtain ⟨hitem, hrest⟩ := Bool.and_eq_true_iff.mp hitems
    exact .cons (says_render item hitem).loosen (says_renderItems rest hrest)

private theorem says_renderPairs : (pairs : List (Expr × Expr)) → arePlainPairs pairs = true →
    List.Forall₂ (Says Pair) pairs ((renderPairs pairs).map String.toList)
  | [], _ => .nil
  | (key, value) :: rest, hpairs => by
    obtain ⟨hpair, hrest⟩ := Bool.and_eq_true_iff.mp hpairs
    obtain ⟨hkey, hvalue⟩ := Bool.and_eq_true_iff.mp hpair
    have hsays := (says_render key hkey).pair (says_render value hvalue)
    refine .cons ?_ (says_renderPairs rest hrest)
    simpa using hsays

end

/-- The canonical text of a program says that program. -/
theorem says_renderBlock : (stmts : List Stmt) → isPlainProgram stmts = true →
    Says (Statements []) stmts (renderBlock stmts).toList
  | [], _ => ⟨[], .nil, .nil []⟩
  | [.expr value], hvalue => by
    obtain ⟨tokens, hspells, hvalue⟩ := (says_render value hvalue).loosen
    have hstmts := Statements.cons (.expr hvalue rfl) (.nil [])
    rw [List.append_nil] at hstmts
    exact ⟨tokens, by simpa [renderBlock, Stmt.render] using hspells, hstmts⟩
  | .bind name value :: rest, hstmts => by
    obtain ⟨hstmt, hrest⟩ := Bool.and_eq_true_iff.mp hstmts
    obtain ⟨hname, hvalue⟩ := Bool.and_eq_true_iff.mp hstmt
    have hbind := Says.bind hname (says_render value hvalue).loosen
    have hsays := hbind.cons (says_renderBlock rest hrest)
    simpa [renderBlock, Stmt.render] using hsays
  | .ret none :: rest, hrest => by
    have hsays := Says.retNothing.cons (says_renderBlock rest hrest)
    simpa [renderBlock, Stmt.render] using hsays
  | .ret (some value) :: rest, hstmts => by
    obtain ⟨hvalue, hrest⟩ := Bool.and_eq_true_iff.mp hstmts
    have hsays := (says_render value hvalue).loosen.ret.cons (says_renderBlock rest hrest)
    simpa [renderBlock, Stmt.render] using hsays

theorem parse_renderBlock {stmts : List Stmt} (hstmts : isPlainProgram stmts = true) :
    Program.parse (renderBlock stmts) = { stmts } := by
  obtain ⟨tokens, hspells, hderived⟩ := says_renderBlock stmts hstmts
  rw [Program.parse, tokenize, hspells.munched.scanAll_eq]
  rw [Token.eof, Program.ofTokens_append_eof, Program.ofTokens_of_statements hderived (by decide),
    Program.ofTokens_of_eof rfl, Program.append_empty]

/-- A program of `let` and `return` statements, with an expression at the end if at all, is read
back from its canonical text as long as it has no strings, `if` and functions in it. So there are
no two such programs with the same text. -/
theorem canonical_text_is_read_back :
    (∀ stmts : List Stmt, isPlainProgram stmts = true →
      Program.parse (renderBlock stmts) = { stmts, errors := [] }) ∧
    ∀ stmts others : List Stmt, isPlainProgram stmts = true → isPlainProgram others = true →
      renderBlock stmts = renderBlock others → stmts = others := by
  refine ⟨fun stmts hstmts => parse_renderBlock hstmts, ?_⟩
  intro stmts others hstmts hothers htext
  have hparse := parse_renderBlock hstmts
  rw [htext, parse_renderBlock hothers] at hparse
  exact (congrArg Program.stmts hparse).symm

/-- A hash is called, a conditional expression is a key of it, and there are operators before an
operator and before a subscript. -/
theorem canonical_text_is_read_back_nested :
    let stmts : List Stmt :=
      [.bind "a" (.unary .not (.unary .negate (.index (.ident "b") (.int 0)))), .ret none,
        .expr (.call (.hash [(.ternary (.bool true) (.int 1) .null, .array [])])
          [.binary (.binary (.ident "a") .notEqual (.ident "b")) .mul (.call (.ident "f") [])])]
    renderBlock stmts =
        "let a = (!(-(b[0])));return;\x7b(true ? 1 : null):[]\x7d(((a != b) * f()))" ∧
      isPlainProgram stmts = true ∧
      Program.parse (renderBlock stmts) = { stmts, errors := [] } :=
  ⟨rfl, rfl, canonical_text_is_read_back.1 _ rfl⟩

end MonkeyLang
