import MonkeyLang.Proofs.Parser.Progress
import MonkeyLang.Proofs.Recovery

namespace MonkeyLang

open MonkeyLang.Parser

section

variable (text : String) (rest : List Token)

/-- Reading a statement goes as far as the end of the input at most, whether a token says so or the
tokens have run out. What stands behind that end is left as it is. -/
theorem Parser.Config.run_append_eof (config : Config) (tokens : List Token) :
    config.run (tokens ++ ⟨.eof, text⟩ :: rest) =
      (config.run tokens).map fun (stmt, left) => (stmt, left ++ ⟨.eof, text⟩ :: rest) := by
  induction tokens generalizing config with
  | nil =>
    rw [List.nil_append, Config.run, Config.run, Config.step_of_eof]
    cases hstep : config.step .eof with
    | error error => rfl
    | ok step =>
      cases step with
      | accept stmt => rfl
      | shift next => exact absurd hstep (Config.step_eof rfl next config)
  | cons token tokens ih =>
    rw [List.cons_append, Config.run, Config.run]
    cases config.step token with
    | error error => rfl
    | ok step =>
      cases step with
      | accept stmt => rfl
      | shift next => exact ih next

private theorem dropSemicolon_append_eof (tokens : List Token) :
    dropSemicolon (tokens ++ ⟨.eof, text⟩ :: rest) =
      dropSemicolon tokens ++ ⟨.eof, text⟩ :: rest := by
  cases tokens with
  | nil => rfl
  | cons token tokens =>
    rw [List.cons_append, dropSemicolon, dropSemicolon]
    split <;> rfl

private theorem statement_append_eof (tokens : List Token) :
    statement (tokens ++ ⟨.eof, text⟩ :: rest) =
      (statement tokens).map fun (stmt, left) => (stmt, left ++ ⟨.eof, text⟩ :: rest) := by
  rw [statement, statement, Config.run_append_eof]
  cases Config.start.run tokens with
  | error error => rfl
  | ok result => simp only [Except.map, dropSemicolon_append_eof]

/-- Passing over a broken statement does not go past the end of the input either, however many
brackets are open there. -/
theorem skipFrom_append_eof (depth : Int) (tokens : List Token) :
    skipFrom depth (tokens ++ ⟨.eof, text⟩ :: rest) =
      skipFrom depth tokens ++ ⟨.eof, text⟩ :: rest := by
  fun_induction skipFrom depth tokens with
  | case1 => rfl
  | case2 depth token tokens hopening ih => rw [List.cons_append, skipFrom, if_pos hopening, ih]
  | case3 depth token tokens hopening hclosing ih =>
    rw [List.cons_append, skipFrom, if_neg hopening, if_pos hclosing, ih]
  | case4 depth token tokens hopening hclosing hends =>
    rw [List.cons_append, skipFrom, if_neg hopening, if_neg hclosing, if_pos hends]
  | case5 depth token tokens hopening hclosing hends heof =>
    rw [List.cons_append, skipFrom, if_neg hopening, if_neg hclosing, if_neg hends, if_pos heof]
  | case6 depth token tokens hopening hclosing hends heof ih =>
    rw [List.cons_append, skipFrom, if_neg hopening, if_neg hclosing, if_neg hends, if_neg heof, ih]

/-- The induction is that of reading: whatever a round leaves to read, it leaves before the same
end. -/
theorem Program.ofTokens_append_eof (tokens : List Token) :
    ofTokens (tokens ++ ⟨.eof, text⟩ :: rest) = ofTokens tokens := by
  fun_induction ofTokens tokens with
  | case1 => exact ofTokens_of_eof rfl
  | case2 token tokens heof => exact ofTokens_of_eof heof
  | case3 token tokens heof hsemicolon ih =>
    rw [List.cons_append, ofTokens, dif_neg heof, if_pos hsemicolon, ih]
  | case4 token tokens heof hsemicolon stmt left hstmt ih =>
    have hread := statement_append_eof text rest (token :: tokens)
    rw [hstmt] at hread
    rw [ofTokens_of_statement_eq_ok hread heof hsemicolon, ih]
  | case5 token tokens heof hsemicolon error hstmt ih =>
    have hread := statement_append_eof text rest (token :: tokens)
    rw [hstmt] at hread
    rw [ofTokens_of_statement_eq_error hread heof hsemicolon, skipStatement, skipFrom_append_eof]
    exact congrArg (Program.addError error) ih

end

/-- The end of the input and the end of the tokens are the same thing. Wherever a token says that
the input ends, the same statements and the same errors are found as if the tokens ended there, and
nothing behind it matters. The rules of the grammar find the same in both cases too. -/
theorem nothing_matters_behind_the_end (tokens rest : List Token) (text : String) :
    Program.ofTokens (tokens ++ ⟨.eof, text⟩ :: rest) = Program.ofTokens tokens ∧
      Rules.program (tokens ++ ⟨.eof, text⟩ :: rest) = Rules.program tokens := by
  have hprogram := Program.ofTokens_append_eof text rest tokens
  refine ⟨hprogram, ?_⟩
  rw [Rules.program_eq_some, Rules.program_eq_some, hprogram]

end MonkeyLang
