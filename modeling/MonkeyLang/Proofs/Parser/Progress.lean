import MonkeyLang.Proofs.Parser.Agreement
import MonkeyLang.Proofs.Parser.Soundness

namespace MonkeyLang

open MonkeyLang.Parser

namespace Rules

/-- Rules that have been unfolded often enough read a statement as it is read token by token. They
come to an end, and where they come to nothing no other rule could be tried. -/
theorem statement_unfolded {depth : Nat} {tokens : List Token} (hdepth : tokens.length < depth) :
    (unfolded depth).statement tokens =
      match MonkeyLang.statement tokens with
      | .ok result => .ok result
      | .error error => .error (.failed (.named error)) := by
  have hfollows := (agrees_unfolded depth).statement tokens [] hdepth
  match (unfolded depth).statement tokens, hfollows with
  | .ok (stmt, rest), hok =>
    have hstmt : MonkeyLang.statement tokens = .ok (stmt, rest) := hok.2
    rw [hstmt]
  | .error (.failed (.named error)), hfailed =>
    have hstmt : MonkeyLang.statement tokens = .error error := hfailed
    rw [hstmt]

theorem round_cons {token : Token} (heof : token.kind ≠ .eof)
    (hsemicolon : token.kind ≠ .semicolon) (rest : List Token) :
    round (token :: rest) =
      match MonkeyLang.statement (token :: rest) with
      | .ok (stmt, left) => .goesOn (some (.ok stmt)) left
      | .error error => .goesOn (some (.error (.named error))) (skipStatement (token :: rest)) := by
  rw [round, if_neg heof, if_neg hsemicolon, statement_unfolded (Nat.lt_succ_self _)]
  cases MonkeyLang.statement (token :: rest) <;> rfl

/-- A round that goes on leaves less to read than there was. -/
theorem round_shortens {tokens rest : List Token} {found : Option (Except Reason Stmt)}
    (hround : round tokens = .goesOn found rest) :
    rest <:+ tokens ∧ rest.length < tokens.length := by
  cases tokens with
  | nil => cases hround
  | cons token tail =>
    by_cases heof : token.kind = .eof
    · rw [round, if_pos heof] at hround
      cases hround
    by_cases hsemicolon : token.kind = .semicolon
    · rw [round, if_neg heof, if_pos hsemicolon] at hround
      cases hround
      exact ⟨List.suffix_cons token _, Nat.lt_succ_self _⟩
    rw [round_cons heof hsemicolon] at hround
    cases hstmt : MonkeyLang.statement (token :: tail) with
    | ok result =>
      rw [hstmt] at hround
      cases hround
      exact ⟨statement_suffix hstmt, length_lt_of_statement hstmt⟩
    | error error =>
      rw [hstmt] at hround
      cases hround
      exact ⟨skipStatement_suffix _, length_skipStatement_lt heof tail⟩

private theorem program_of_round {tokens rest : List Token} {found : Option (Except Reason Stmt)}
    (hround : round tokens = .goesOn found rest) :
    program tokens = (program rest).map (record found) := by
  have hshorter := (round_shortens hround).2
  rw [program, hround]
  exact if_pos hshorter

/-- Reading a program by the rules finds the same statements and the same errors, and the rounds
come to an end. -/
theorem program_eq_some (tokens : List Token) :
    program tokens = some ((Program.ofTokens tokens).stmts,
      (Program.ofTokens tokens).errors.map .named) := by
  fun_induction Program.ofTokens tokens with
  | case1 =>
    rw [program, round]
    rfl
  | case2 token rest heof =>
    rw [program, round, if_pos heof]
    rfl
  | case3 token rest heof hsemicolon ih =>
    have hround : round (token :: rest) = .goesOn none rest := by
      rw [round, if_neg heof, if_pos hsemicolon]
    rw [program_of_round hround, ih]
    rfl
  | case4 token rest heof hsemicolon stmt left hstmt ih =>
    have hround : round (token :: rest) = .goesOn (some (.ok stmt)) left := by
      rw [round_cons heof hsemicolon, hstmt]
    rw [program_of_round hround, ih]
    rfl
  | case5 token rest heof hsemicolon error hstmt ih =>
    have hround : round (token :: rest) =
        .goesOn (some (.error (.named error))) (skipStatement (token :: rest)) := by
      rw [round_cons heof hsemicolon, hstmt]
    rw [program_of_round hround, ih]
    rfl

end Rules

/-- Whatever has been taken, the first token was, so fewer tokens are left that count. -/
private theorem countP_lt_of_suffix {token : Token} {tail rest : List Token}
    (heof : token.kind ≠ .eof) (hsuffix : rest <:+ token :: tail)
    (hshorter : rest.length < (token :: tail).length) :
    rest.countP (·.kind ≠ .eof) < (token :: tail).countP (·.kind ≠ .eof) := by
  have htail : rest <:+ tail := by
    rcases List.suffix_cons_iff.mp hsuffix with rfl | htail
    · exact absurd hshorter (Nat.lt_irrefl _)
    · exact htail
  have hle := htail.sublist.countP_le (p := fun other : Token => decide (other.kind ≠ .eof))
  rw [List.countP_cons_of_pos (by simpa using heof)]
  omega

/-- Every statement and every error accounts for a token of its own. -/
theorem Program.length_ofTokens_le (tokens : List Token) :
    (ofTokens tokens).stmts.length + (ofTokens tokens).errors.length ≤
      tokens.countP (·.kind ≠ .eof) := by
  fun_induction ofTokens tokens with
  | case1 => exact Nat.zero_le _
  | case2 => exact Nat.zero_le _
  | case3 token rest heof hsemicolon ih =>
    exact Nat.le_trans ih (List.sublist_cons_self token rest).countP_le
  | case4 token rest heof hsemicolon stmt left hstmt ih =>
    have hfewer := countP_lt_of_suffix heof (statement_suffix hstmt) (length_lt_of_statement hstmt)
    simp only [addStmt, List.length_cons]
    omega
  | case5 token rest heof hsemicolon error hstmt ih =>
    have hfewer := countP_lt_of_suffix heof (skipStatement_suffix _)
      (length_skipStatement_lt heof rest)
    simp only [addError, List.length_cons]
    omega

/-- Reading always comes to an end and fails in the ways that are reported only. Following the rules
reads a statement and leaves a proper suffix, or it fails for good and for a reason with a name.
Each round of reading a program leaves less to read, no reason without a name turns up, and there is
a token for every statement and every error. -/
theorem parsing_finishes (tokens : List Token) :
    (∀ depth, tokens.length < depth →
      (∃ stmt rest, (Rules.unfolded depth).statement tokens = .ok (stmt, rest) ∧
        statement tokens = .ok (stmt, rest) ∧ rest <:+ tokens ∧ rest ≠ tokens) ∨
      ∃ error, (Rules.unfolded depth).statement tokens = .error (.failed (.named error)) ∧
        statement tokens = .error error) ∧
    (∀ found rest, Rules.round tokens = .goesOn found rest →
      rest <:+ tokens ∧ rest.length < tokens.length) ∧
    Rules.program tokens = some ((Program.ofTokens tokens).stmts,
      (Program.ofTokens tokens).errors.map .named) ∧
    (Program.ofTokens tokens).stmts.length + (Program.ofTokens tokens).errors.length ≤
      tokens.countP (·.kind ≠ .eof) := by
  refine ⟨fun depth hdepth => ?_, fun _ _ => Rules.round_shortens, Rules.program_eq_some tokens,
    Program.length_ofTokens_le tokens⟩
  have hrules := Rules.statement_unfolded hdepth
  cases hstmt : statement tokens with
  | ok result =>
    rw [hstmt] at hrules
    refine .inl ⟨result.1, result.2, hrules, rfl, statement_suffix hstmt, ?_⟩
    intro hsame
    have hshorter := length_lt_of_statement hstmt
    rw [hsame] at hshorter
    exact Nat.lt_irrefl _ hshorter
  | error error =>
    rw [hstmt] at hrules
    exact .inr ⟨error, hrules, rfl⟩

/-- The end of the input stands in the middle, inside a block that is closed only behind it. -/
theorem parsing_finishes_early_end :
    let tokens : List Token := [⟨.kwFn, "fn"⟩, ⟨.lparen, "("⟩, ⟨.rparen, ")"⟩, ⟨.lbrace, "\x7b"⟩,
      .eof, ⟨.rbrace, "\x7d"⟩]
    (∃ error, (Rules.unfolded 7).statement tokens = .error (.failed (.named error)) ∧
      statement tokens = .error error) ∧
    (∃ found rest, Rules.round tokens = .goesOn found rest ∧ rest <:+ tokens ∧ rest.length < 6) ∧
    ∃ stmts, Rules.program tokens = some (stmts, [.named (.expected .rbrace .eof)]) := by
  intro tokens
  obtain ⟨hstmt, hround, hprogram, -⟩ := parsing_finishes tokens
  have herror : statement tokens = .error (.expected .rbrace .eof) := rfl
  have herrors : (Program.ofTokens tokens).errors = [.expected .rbrace .eof] := by decide +kernel
  have hfirst : Rules.round tokens =
      .goesOn (some (.error (.named (.expected .rbrace .eof)))) (skipStatement tokens) :=
    Rules.round_cons (by decide) (by decide) tokens.tail
  refine ⟨?_, ⟨_, _, hfirst, hround _ _ hfirst⟩, _, hprogram.trans (by rw [herrors]; rfl)⟩
  rcases hstmt 7 (by decide) with ⟨stmt, rest, -, hok, -⟩ | hfailed
  · cases hok.symm.trans herror
  · exact hfailed

end MonkeyLang
