import MonkeyLang.Proofs.Parser.Completeness
import MonkeyLang.Proofs.Parser.Soundness
import MonkeyLang.Proofs.Source

namespace MonkeyLang

open Grammar

namespace Token

theorem Spaced.space {tokens : List Token} {cs : List Char} (hspaced : Spaced tokens cs) :
    Spaced tokens (' ' :: cs) := by
  cases hspaced with
  | nil hws => exact .nil (List.all_cons.trans hws)
  | cons hws htoken hdetached hrest =>
    exact @Spaced.cons _ _ (' ' :: _) _ _ (List.all_cons.trans hws) htoken hdetached hrest

theorem spaced_source : {tokens : List Token} → MonkeyLang.Legible tokens →
    Spaced tokens ([' '].intercalate (tokens.map fun token => token.source.toList))
  | [], _ => .nil rfl
  | [token], hlegible => by
    obtain ⟨text, htoken⟩ := hlegible token List.mem_cons_self
    obtain rfl := htoken.eq_source
    have hspaced := @Spaced.cons token [] [] _ [] rfl htoken (by simp [Detached]) (.nil rfl)
    simpa using hspaced
  | token :: next :: rest, hlegible => by
    obtain ⟨⟨text, htoken⟩, hrest⟩ := List.forall_mem_cons.mp hlegible
    obtain rfl := htoken.eq_source
    have hspaced := @Spaced.cons token (next :: rest) [] _ _ rfl htoken
      (by simp [Detached, isSpace]) (spaced_source hrest).space
    simpa using hspaced

end Token

theorem tokenize_source {stmts : List Stmt} (hstmts : wellFormed stmts = true) :
    tokenize (source stmts) = stmtTokens stmts ++ [Token.eof] := by
  have hspaced := Token.spaced_source (legible_stmtTokens stmts hstmts)
  rw [tokenize, source, String.toList_intercalate, List.map_map]
  exact hspaced.scanAll_eq

theorem parse_source {stmts : List Stmt} (hstmts : wellFormed stmts = true) :
    Program.parse (source stmts) = { stmts } := by
  have hstatements := statements_stmtTokens [Token.eof] stmts
  rw [Program.parse, tokenize_source hstmts, Program.ofTokens_of_statements hstatements (by decide),
    Program.ofTokens_of_eof rfl, Program.append_empty]

private theorem isName_of_params {params : List String} {tokens : List Token}
    (hparams : CommaList Param params tokens) (hlegible : Legible tokens) :
    params.all isName = true := by
  induction hparams with
  | nil => rfl
  | one hparam =>
    subst hparam
    simp only [List.all_cons, hlegible.head.isName, List.all_nil, Bool.and_self]
  | more hparam _ _ ih =>
    subst hparam
    simp only [List.all_cons, hlegible.head.isName, ih hlegible.tail.tail, Bool.and_self]

mutual

/-- Whatever legible tokens say can be written. -/
theorem wellFormed_of_expression {level : Nat} {expr : Expr} {tokens : List Token} :
    Expression level expr tokens → Legible tokens → expr.wellFormed = true
  | .tighter hexpr, hlegible => wellFormed_of_expression hexpr hlegible
  | .ternary htest hyes hno, hlegible => by
    have htest := wellFormed_of_expression htest hlegible.left
    have hyes := wellFormed_of_expression hyes hlegible.right.tail.left
    have hno := wellFormed_of_expression hno hlegible.right.tail.right.tail
    simp only [Expr.wellFormed, htest, hyes, hno, Bool.and_self]
  | .binary hleft hright, hlegible => by
    have hleft := wellFormed_of_expression hleft hlegible.left
    have hright := wellFormed_of_expression hright hlegible.right.tail
    simp only [Expr.wellFormed, hleft, hright, Bool.and_self]
  | .unary hoperand, hlegible => by
    rw [Expr.wellFormed]
    exact wellFormed_of_expression hoperand hlegible.tail
  | .call hcallee hargs, hlegible => by
    have hcallee := wellFormed_of_expression hcallee hlegible.left
    have hargs := wellFormed_of_items hargs hlegible.right.tail.left
    simp only [Expr.wellFormed, hcallee, hargs, Bool.and_self]
  | .index hleft hindex, hlegible => by
    have hleft := wellFormed_of_expression hleft hlegible.left
    have hindex := wellFormed_of_expression hindex hlegible.right.tail.left
    simp only [Expr.wellFormed, hleft, hindex, Bool.and_self]
  | .ident name, hlegible => hlegible.head.isName
  | .int hvalue, hlegible => by
    have hsign := Decimal.toInt_nonneg_of_read? hlegible.head.all_isDigit hvalue
    exact decide_eq_true hsign
  | .string text, hlegible => hlegible.head.all_isStringPart
  | .yes _, _ | .no _, _ | .null _, _ => rfl
  | .group hexpr, hlegible => wellFormed_of_expression hexpr hlegible.tail.left
  | .array hitems, hlegible => wellFormed_of_items hitems hlegible.tail.left
  | .hash hpairs, hlegible => wellFormed_of_pairs hpairs hlegible.tail.left
  | .cond htest hyes, hlegible => by
    have htest := wellFormed_of_expression htest hlegible.tail.tail.left
    have hyes := wellFormed_of_braced hyes hlegible.tail.tail.right.tail
    simp only [Expr.wellFormed, htest, hyes, Bool.and_self]
  | .condElse htest hyes hno, hlegible => by
    have hblocks := hlegible.tail.tail.right.tail
    have htest := wellFormed_of_expression htest hlegible.tail.tail.left
    have hyes := wellFormed_of_braced hyes hblocks.left
    have hno := wellFormed_of_braced hno hblocks.right.tail
    simp only [Expr.wellFormed, htest, hyes, hno, Bool.and_self]
  | .function hparams hbody, hlegible => by
    have hparams := isName_of_params hparams hlegible.tail.tail.left
    have hbody := wellFormed_of_braced hbody hlegible.tail.tail.right.tail
    simp only [Expr.wellFormed, hparams, hbody, Bool.and_self]

private theorem wellFormed_of_items {items : List Expr} {tokens : List Token} :
    CommaList (Expression 0) items tokens → Legible tokens → wellFormedItems items = true
  | .nil, _ => rfl
  | .one hitem, hlegible => by
    have hitem := wellFormed_of_expression hitem hlegible
    simp only [wellFormedItems, hitem, Bool.and_self]
  | .more hitem hitems _, hlegible => by
    have hitem := wellFormed_of_expression hitem hlegible.left
    have hitems := wellFormed_of_items hitems hlegible.right.tail
    simp only [wellFormedItems, hitem, hitems, Bool.and_self]

private theorem wellFormed_of_pair {pair : Expr × Expr} {tokens : List Token} :
    Pair pair tokens → Legible tokens → (pair.1.wellFormed && pair.2.wellFormed) = true
  | .pair hkey hvalue, hlegible => by
    have hkey := wellFormed_of_expression hkey hlegible.left
    have hvalue := wellFormed_of_expression hvalue hlegible.right.tail
    simp only [hkey, hvalue, Bool.and_self]

private theorem wellFormed_of_pairs {pairs : List (Expr × Expr)} {tokens : List Token} :
    CommaList Pair pairs tokens → Legible tokens → wellFormedPairs pairs = true
  | .nil, _ => rfl
  | .one hpair, hlegible => by
    have hpair := wellFormed_of_pair hpair hlegible
    simp only [wellFormedPairs, hpair, Bool.and_self]
  | .more hpair hpairs _, hlegible => by
    have hpair := wellFormed_of_pair hpair hlegible.left
    have hpairs := wellFormed_of_pairs hpairs hlegible.right.tail
    simp only [wellFormedPairs, hpair, hpairs, Bool.and_self]

private theorem wellFormed_of_braced {block : Block} {tokens : List Token} :
    Braced block tokens → Legible tokens → wellFormed block = true
  | .braces hblock, hlegible => wellFormed_of_statements hblock hlegible.tail

private theorem wellFormed_of_statement {stmt : Stmt} {tokens : List Token} {next : Kind} :
    Statement stmt tokens next → Legible tokens → stmt.wellFormed = true
  | .bind hvalue _, hlegible => by
    have hname := hlegible.tail.head.isName
    have hvalue := wellFormed_of_expression hvalue hlegible.tail.tail.tail
    simp only [Stmt.wellFormed, hname, hvalue, Bool.and_self]
  | .ret hvalue _, hlegible => wellFormed_of_expression hvalue hlegible.tail
  | .retNothing _, _ => rfl
  | .expr hvalue _, hlegible => wellFormed_of_expression hvalue hlegible

private theorem wellFormed_of_statements {last tokens : List Token} {stmts : List Stmt} :
    Statements last stmts tokens → Legible tokens → wellFormed stmts = true
  | .nil _, _ => rfl
  | .semicolon hstmts, hlegible => wellFormed_of_statements hstmts hlegible.tail
  | .cons hstmt hstmts, hlegible => by
    have hstmt := wellFormed_of_statement hstmt hlegible.left
    have hstmts := wellFormed_of_statements hstmts hlegible.right
    simp only [wellFormed, hstmt, hstmts, Bool.and_self]

end

/-- Every statement that is read from legible tokens can be written, also if others are broken. -/
theorem wellFormed_ofTokens {tokens : List Token}
    (hlegible : ∀ token ∈ tokens, token.kind ≠ .eof → token.Legible) :
    wellFormed (Program.ofTokens tokens).stmts = true := by
  fun_induction Program.ofTokens tokens with
  | case1 => rfl
  | case2 => rfl
  | case3 token rest _ _ ih => exact ih (List.forall_mem_cons.mp hlegible).2
  | case4 token rest _ _ stmt left hread ih =>
    obtain ⟨taken, after, htokens, rfl, hstmt, htaken⟩ := statement_eq_ok hread
    rw [htokens, List.forall_mem_append] at hlegible
    have hfirst := wellFormed_of_statement hstmt fun token hmem =>
      hlegible.1 token hmem (htaken token hmem)
    have hrest := ih fun token hmem =>
      hlegible.2 token ((dropSemicolon_suffix after).subset hmem)
    simp only [Program.addStmt, wellFormed, hfirst, hrest, Bool.and_self]
  | case5 token rest _ _ error _ ih =>
    exact ih fun other hmem => hlegible other ((skipFrom_suffix 0 _).subset hmem)

theorem wellFormed_parse (code : String) : wellFormed (Program.parse code).stmts = true :=
  wellFormed_ofTokens fun _ hmem heof => Token.written_of_mem_scanAll hmem heof

/-- Every program that can be written is read back from its source text, and whatever is read
from a text can be written. So reading is the same before and after printing. -/
theorem printing_then_parsing :
    (∀ stmts : List Stmt, wellFormed stmts = true →
      Program.parse (source stmts) = { stmts, errors := [] }) ∧
    ∀ code : String, wellFormed (Program.parse code).stmts = true ∧
      Program.parse (source (Program.parse code).stmts) =
        { stmts := (Program.parse code).stmts, errors := [] } := by
  refine ⟨fun stmts hstmts => parse_source hstmts, fun code => ?_⟩
  have hstmts := wellFormed_parse code
  exact ⟨hstmts, parse_source hstmts⟩

/-- A bare `return` in a block, a conditional expression as the key of a hash, and a subtraction
that needs its parentheses. -/
theorem printing_then_parsing_nested :
    let stmts : List Stmt :=
      [.bind "f" (.function ["a"] [.ret none]),
        .expr (.unary .negate (.index (.hash [(.ternary (.bool true) (.int 1) .null, .string "x")])
          (.binary (.ident "f") .sub (.binary (.int 2) .sub (.int 3)))))]
    source stmts = "let f = fn ( a ) \x7b return ; \x7d ; " ++
        "- \x7b true ? 1 : null : \x22x\x22 \x7d [ f - ( 2 - 3 ) ] ;" ∧
      Program.parse (source stmts) = { stmts, errors := [] } :=
  ⟨by decide +kernel, printing_then_parsing.1 _ rfl⟩

end MonkeyLang
