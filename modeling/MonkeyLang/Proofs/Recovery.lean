import MonkeyLang.Proofs.Parser.Completeness
import MonkeyLang.Proofs.Parser.Depth

namespace MonkeyLang

/-- Tokens whose brackets are all closed, none of them before it is opened. A bracket of one kind
may close one of another kind. -/
def Balanced (tokens : List Token) : Prop :=
  (∀ n ≤ tokens.length, 0 ≤ bracketDepth (tokens.take n)) ∧ bracketDepth tokens = 0

instance (tokens : List Token) : Decidable (Balanced tokens) := inferInstanceAs (Decidable (_ ∧ _))

/-- What follows the place where no bracket is open is balanced too. -/
theorem Balanced.of_append {taken left : List Token} (hbalanced : Balanced (taken ++ left))
    (htaken : bracketDepth taken ≤ 0) : Balanced left := by
  obtain ⟨hnever, hclosed⟩ := hbalanced
  have hzero : bracketDepth taken = 0 := by
    have hsome := hnever taken.length (by simp)
    rw [List.take_left] at hsome
    omega
  refine ⟨?_, ?_⟩
  · intro n hn
    have hprefix := hnever (taken.length + n) (by simpa using hn)
    rw [List.take_length_add_append, bracketDepth_append, hzero, Int.zero_add] at hprefix
    exact hprefix
  · rw [bracketDepth_append, hzero, Int.zero_add] at hclosed
    exact hclosed

namespace Parser

/-- A semicolon outside all brackets bounds what a statement can see. Whether and how it is read
is decided by the tokens before that semicolon, which stays where it is. -/
theorem Config.run_before_semicolon {config : Config} {tokens : List Token}
    (hdepth : config.depth + bracketDepth tokens = 0) (text : String) :
    (∃ error, ∀ others, config.run (tokens ++ ⟨.semicolon, text⟩ :: others) = .error error) ∨
      ∃ stmt taken left, tokens = taken ++ left ∧ config.depth + bracketDepth taken = 0 ∧
        ∀ others, config.run (tokens ++ ⟨.semicolon, text⟩ :: others) =
          .ok (stmt, left ++ ⟨.semicolon, text⟩ :: others) := by
  induction tokens generalizing config with
  | nil =>
    cases hstep : config.step ⟨.semicolon, text⟩ with
    | error error =>
      refine .inl ⟨error, fun others => ?_⟩
      simp only [List.nil_append, Config.run, hstep]
    | ok step =>
      have hnests := Config.step_nests hstep
      cases step with
      | accept stmt =>
        refine .inr ⟨stmt, [], [], rfl, hdepth, fun others => ?_⟩
        simp only [List.nil_append, Config.run, hstep]
      | shift next =>
        have hopen := hnests.2 rfl
        rw [bracketDepth] at hdepth
        simp only [List.countP_nil] at hdepth
        omega
  | cons token tokens ih =>
    cases hstep : config.step token with
    | error error =>
      refine .inl ⟨error, fun others => ?_⟩
      simp only [List.cons_append, Config.run, hstep]
    | ok step =>
      have hnests := Config.step_nests hstep
      cases step with
      | accept stmt =>
        refine .inr ⟨stmt, [], token :: tokens, rfl, ?_, fun others => ?_⟩
        · rw [show config.depth = 0 from hnests]
          rfl
        · simp only [List.cons_append, Config.run, hstep]
      | shift next =>
        have hrun (others : List Token) : config.run (token :: tokens ++ others) =
            next.run (tokens ++ others) := by simp only [List.cons_append, Config.run, hstep]
        rw [bracketDepth_cons] at hdepth
        have hnext : next.depth + bracketDepth tokens = 0 := by
          rw [hnests.1]
          omega
        rcases ih hnext with ⟨error, herror⟩ | ⟨stmt, taken, left, rfl, htaken, hread⟩
        · exact .inl ⟨error, fun others => (hrun _).trans (herror others)⟩
        · refine .inr ⟨stmt, token :: taken, left, rfl, ?_, fun others => ?_⟩
          · rw [bracketDepth_cons]
            rw [hnests.1] at htaken
            omega
          · exact (hrun _).trans (hread others)

end Parser

open MonkeyLang.Parser

private theorem statement_before_semicolon {tokens : List Token} (hclosed : bracketDepth tokens = 0)
    (text : String) :
    (∃ error, ∀ others, statement (tokens ++ ⟨.semicolon, text⟩ :: others) = .error error) ∨
      ∃ stmt taken left, tokens = taken ++ left ∧ left.length < tokens.length ∧
        bracketDepth taken = 0 ∧
        ∀ others, statement (tokens ++ ⟨.semicolon, text⟩ :: others) =
          .ok (stmt, dropSemicolon (left ++ ⟨.semicolon, text⟩ :: others)) := by
  have hdepth : Config.start.depth + bracketDepth tokens = 0 := by
    rw [hclosed]
    rfl
  rcases Config.run_before_semicolon hdepth text with
    ⟨error, herror⟩ | ⟨stmt, taken, left, htokens, htaken, hread⟩
  · refine .inl ⟨error, fun others => ?_⟩
    rw [statement, herror]
    rfl
  · have hshorter := Config.length_lt_of_run_start (hread [])
    simp only [List.length_append] at hshorter
    refine .inr ⟨stmt, taken, left, htokens, by omega, ?_, fun others => ?_⟩
    · rw [show Config.start.depth = 0 from rfl] at htaken
      omega
    · rw [statement, hread]
      rfl

/-- Passing over a statement goes by the same depth, but for the tokens at which it ends. -/
theorem skipFrom_cons {depth : Int} {token : Token} (heof : token.kind ≠ .eof)
    (hopen : token.kind = .semicolon → 0 < depth) (rest : List Token) :
    skipFrom depth (token :: rest) = skipFrom (depth + token.kind.nesting) rest := by
  obtain ⟨kind, text⟩ := token
  cases kind with
  | eof => contradiction
  | semicolon =>
    have hinside := hopen rfl
    simp [skipFrom, Kind.isOpening, Kind.isClosing, Kind.nesting, Int.not_le.mpr hinside]
  | _ => simp [skipFrom, Kind.isOpening, Kind.isClosing, Kind.nesting, Int.sub_eq_add_neg]

/-- Passing over a broken statement ends at such a semicolon at the latest. -/
theorem skipFrom_before_semicolon {depth : Int} {tokens : List Token}
    (heof : ∀ token ∈ tokens, token.kind ≠ .eof) (hclosed : depth + bracketDepth tokens ≤ 0)
    (text : String) :
    (∀ others, skipFrom depth (tokens ++ ⟨.semicolon, text⟩ :: others) = others) ∨
      ∃ taken left, tokens = taken ++ left ∧ left.length < tokens.length ∧
        depth + bracketDepth taken ≤ 0 ∧
        ∀ others, skipFrom depth (tokens ++ ⟨.semicolon, text⟩ :: others) =
          left ++ ⟨.semicolon, text⟩ :: others := by
  have hsemicolon {depth : Int} (hdepth : depth ≤ 0) (text : String) (rest : List Token) :
      skipFrom depth (⟨.semicolon, text⟩ :: rest) = rest := by
    simp [skipFrom, Kind.isOpening, Kind.isClosing, hdepth]
  induction tokens generalizing depth with
  | nil =>
    have hdepth : depth ≤ 0 := by simpa [bracketDepth] using hclosed
    exact .inl fun others => hsemicolon hdepth text others
  | cons token tokens ih =>
    obtain ⟨htoken, htokens⟩ := List.forall_mem_cons.mp heof
    rw [bracketDepth_cons] at hclosed
    by_cases hend : token.kind = .semicolon ∧ depth ≤ 0
    · obtain ⟨kind, symbol⟩ := token
      obtain ⟨rfl, hdepth⟩ := hend
      refine .inr ⟨[⟨.semicolon, symbol⟩], tokens, rfl, by simp, ?_, fun others => ?_⟩
      · simpa [bracketDepth, Kind.isOpening, Kind.isClosing] using hdepth
      · exact hsemicolon hdepth symbol _
    · have hstep (others : List Token) : skipFrom depth (token :: tokens ++ others) =
          skipFrom (depth + token.kind.nesting) (tokens ++ others) :=
        skipFrom_cons htoken (fun hkind => Int.not_le.mp fun hdepth => hend ⟨hkind, hdepth⟩) _
      have hafter : depth + token.kind.nesting + bracketDepth tokens ≤ 0 := by omega
      rcases ih htokens hafter with hskip | ⟨taken, left, rfl, hshorter, htaken, hskip⟩
      · exact .inl fun others => (hstep _).trans (hskip others)
      · refine .inr ⟨token :: taken, left, rfl, ?_, ?_, fun others => ?_⟩
        · rw [List.length_cons]
          omega
        · rw [bracketDepth_cons]
          omega
        · exact (hstep _).trans (hskip others)

namespace Program

private theorem addError_append (error : SyntaxError) (first second : Program) :
    first.addError error ++ second = (first ++ second).addError error := rfl

theorem ofTokens_of_statement_eq_error {tokens : List Token} {error : SyntaxError}
    (hstmt : statement tokens = .error error) (heof : nextKind tokens ≠ .eof)
    (hsemicolon : nextKind tokens ≠ .semicolon) :
    ofTokens tokens = (ofTokens (skipStatement tokens)).addError error := by
  cases tokens with
  | nil => contradiction
  | cons token tokens =>
    simp only [nextKind] at heof hsemicolon
    rw [ofTokens, dif_neg heof, if_neg hsemicolon]
    split <;> simp_all

/-- Tokens before a semicolon outside all brackets and those behind it are read independently,
however broken they are. The recursion is that of reading: each statement, broken or not, leaves
a balanced rest of the first part. -/
theorem ofTokens_append_semicolon {tokens : List Token} (heof : ∀ token ∈ tokens, token.kind ≠ .eof)
    (hbalanced : Balanced tokens) (text : String) (others : List Token) :
    ofTokens (tokens ++ ⟨.semicolon, text⟩ :: others) =
      ofTokens (tokens ++ [⟨.semicolon, text⟩]) ++ ofTokens others := by
  have hrest {taken left : List Token} (htokens : tokens = taken ++ left)
      (hshorter : left.length < tokens.length) (htaken : bracketDepth taken ≤ 0) :
      ofTokens (left ++ ⟨.semicolon, text⟩ :: others) =
        ofTokens (left ++ [⟨.semicolon, text⟩]) ++ ofTokens others := by
    rw [htokens] at hbalanced heof
    exact ofTokens_append_semicolon (List.forall_mem_append.mp heof).2
      (hbalanced.of_append htaken) text others
  cases tokens with
  | nil =>
    have hnothing : ofTokens [⟨.semicolon, text⟩] = {} := by
      rw [ofTokens_cons_semicolon, ofTokens_of_eof rfl]
    rw [List.nil_append, List.nil_append, ofTokens_cons_semicolon, hnothing]
    rfl
  | cons token tokens =>
    obtain ⟨htoken, -⟩ := List.forall_mem_cons.mp heof
    by_cases hkind : token.kind = .semicolon
    · obtain ⟨kind, symbol⟩ := token
      subst hkind
      simp only [List.cons_append, ofTokens_cons_semicolon]
      exact @hrest [⟨.semicolon, symbol⟩] tokens rfl (by simp) (Int.le_refl 0)
    · rcases statement_before_semicolon hbalanced.2 text with
        ⟨error, herror⟩ | ⟨stmt, taken, left, htokens, hshorter, htaken, hread⟩
      · rw [ofTokens_of_statement_eq_error (herror _) htoken hkind,
          ofTokens_of_statement_eq_error (herror _) htoken hkind, addError_append]
        have hclosed : 0 + bracketDepth (token :: tokens) ≤ 0 := by
          rw [hbalanced.2]
          decide
        rcases skipFrom_before_semicolon heof hclosed text with
          hskip | ⟨taken, left, htokens, hshorter, htaken, hskip⟩
        · rw [skipStatement, skipStatement, hskip, hskip, @ofTokens_of_eof [] rfl]
          rfl
        · rw [skipStatement, skipStatement, hskip, hskip, hrest htokens hshorter (by omega)]
      · rw [ofTokens_of_statement_eq_ok (hread _) htoken hkind,
          ofTokens_of_statement_eq_ok (hread _) htoken hkind, addStmt_append,
          ofTokens_dropSemicolon, ofTokens_dropSemicolon,
          hrest htokens hshorter (Int.le_of_eq htaken)]
termination_by tokens.length

/-- A `let` without its name is passed over together with brackets of different kinds and the
semicolon between them, and what follows is not closed at all. -/
theorem ofTokens_append_semicolon_mismatched :
    let broken : List Token := [⟨.kwLet, "let"⟩, ⟨.assign, "="⟩, ⟨.lparen, "("⟩, ⟨.semicolon, ";"⟩,
      ⟨.rbracket, "]"⟩, ⟨.semicolon, ";"⟩, ⟨.ident, "a"⟩]
    let others : List Token := [⟨.rbrace, "\x7d"⟩, ⟨.semicolon, ";"⟩, ⟨.lparen, "("⟩]
    Balanced broken ∧
      ofTokens (broken ++ ⟨.semicolon, ";"⟩ :: others) =
        ofTokens (broken ++ [⟨.semicolon, ";"⟩]) ++ ofTokens others :=
  ⟨by decide, ofTokens_append_semicolon (by decide) (by decide) ";" _⟩

end Program

end MonkeyLang
