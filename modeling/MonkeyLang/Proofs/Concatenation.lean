import MonkeyLang.Proofs.Eval.Interruption
import MonkeyLang.Proofs.Parser.Completeness
import MonkeyLang.Proofs.Parser.Soundness
import MonkeyLang.Proofs.Token.Separation

namespace MonkeyLang

namespace Grammar

/-- A statement at the end of the input is one before a semicolon too. -/
theorem Statement.before_semicolon {stmt : Stmt} {tokens : List Token}
    (hstmt : Statement stmt tokens .eof) : Statement stmt tokens .semicolon := by
  cases hstmt with
  | bind hvalue => exact .bind hvalue rfl
  | ret hvalue => exact .ret hvalue rfl
  | retNothing => exact .retNothing rfl
  | expr hvalue => exact .expr hvalue rfl

theorem Statements.before_semicolon {stmts : List Stmt} {last tokens : List Token} (text : String)
    (rest : List Token) : Statements last stmts tokens → last = [] →
      Statements (⟨.semicolon, text⟩ :: rest) stmts (tokens ++ ⟨.semicolon, text⟩ :: rest)
  | .nil _, hlast => by
    rw [hlast]
    exact .nil _
  | .semicolon hstmts, hlast => (hstmts.before_semicolon text rest hlast).semicolon
  | @Statements.cons _ _ _ tokens others hstmt hstmts, hlast => by
    rw [List.append_assoc]
    refine .cons ?_ (hstmts.before_semicolon text rest hlast)
    cases others with
    | nil => exact hstmt.before_semicolon
    | cons token others => exact hstmt

end Grammar

open Grammar

/-- The tokens of a text in which every string is closed stay as they are in front of a
semicolon, and so do those behind it. -/
theorem tokenize_append_semicolon {first : String} (hquotes : quotes first.toList % 2 = 0)
    (second : String) :
    tokenize (first ++ ";" ++ second) =
      beforeEnd (tokenize first) ++ ⟨.semicolon, ";"⟩ :: tokenize second := by
  obtain ⟨tokens, htokens, heof⟩ := Token.scanAll_eq_append_eof first.toList
  have hbefore : beforeEnd (tokens ++ [Token.eof]) = tokens := by
    rw [beforeEnd_append heof]
    exact List.append_nil tokens
  have hsemicolon : Token.scanAll (';' :: second.toList) = ⟨.semicolon, ";"⟩ :: tokenize second :=
    Token.scanAll_of_scan_eq_some rfl
  have hjoined : (first ++ ";" ++ second).toList = first.toList ++ ';' :: second.toList := by simp
  rw [tokenize, tokenize, hjoined, Token.scanAll_append ⟨rfl, by decide⟩ hquotes, hsemicolon,
    htokens, List.dropLast_concat, hbefore]

/-- A text without errors spells its statements, which are read as such in front of a semicolon
too, whatever follows it. -/
theorem parse_append_semicolon {first : String} (hquotes : quotes first.toList % 2 = 0)
    (herrors : (Program.parse first).errors = []) (second : String) :
    Program.parse (first ++ ";" ++ second) =
      { stmts := (Program.parse first).stmts } ++ Program.parse second := by
  have hspelled := statements_of_ofTokens herrors
  have hjoined := hspelled.before_semicolon ";" (tokenize second) rfl
  rw [Program.parse, tokenize_append_semicolon hquotes,
    Program.ofTokens_of_statements hjoined (by simp [nextKind]), Program.ofTokens_cons_semicolon]
  rfl

section

variable {run : Nat → Block → Eval Value} {scope : Nat} {stmts : List Stmt} {state : State}

/-- If nothing stops the first statements, a program goes on with the others where they end. -/
theorem evalProgram_append_of_ok {value : Option Value} {middle : State}
    (hstmts : evalStmts run scope none stmts state = .ok value middle) (more : List Stmt) :
    evalProgram run scope (stmts ++ more) state = (do
      let value ← evalProgram run scope stmts
      let other ← evalProgram run scope more
      return if more.isEmpty then value else other) state := by
  have hfirst : evalProgram run scope stmts state = .ok value middle := by
    simp only [evalProgram, hstmts]
  have hjoined : evalStmts run scope none (stmts ++ more) state =
      evalStmts run scope value more middle := by
    simp only [evalStmts_append, bind, EStateM.bind, hstmts]
  simp only [bind, EStateM.bind, hfirst]
  cases more with
  | nil =>
    rw [evalProgram, hjoined, evalProgram, evalStmts, evalStmts]
    rfl
  | cons stmt more =>
    have hlast := @evalStmts_of_ne_nil run scope (stmt :: more) (by simp) value
    rw [evalProgram, hjoined, hlast, evalProgram]
    rcases evalStmts run scope none (stmt :: more) middle with ⟨found, after⟩ | ⟨signal, after⟩
    · rfl
    · cases signal <;> rfl

/-- If something stops the first statements, nothing of the others happens. -/
theorem evalProgram_append_of_error {signal : Signal} {after : State}
    (hstmts : evalStmts run scope none stmts state = .error signal after) (more : List Stmt) :
    evalProgram run scope (stmts ++ more) state = evalProgram run scope stmts state := by
  have hjoined : evalStmts run scope none (stmts ++ more) state = .error signal after := by
    simp only [evalStmts_append, bind, EStateM.bind, hstmts]
  rw [evalProgram, evalProgram, hjoined, hstmts]

end

/-- A program in two pieces with a semicolon between them is the same as one piece after the
other. The first one has all its strings closed and nothing wrong in it. What it does and what
comes out of it stands alone if one of its statements stops it. -/
theorem running_in_pieces {first : String} (hquotes : quotes first.toList % 2 = 0)
    (herrors : (Program.parse first).errors = []) (second : String) (depth scope : Nat)
    (state : State) :
    let whole := Program.parse (first ++ ";" ++ second)
    let one := Program.parse first
    let two := Program.parse second
    whole.stmts = one.stmts ++ two.stmts ∧ whole.errors = two.errors ∧
    ((¬ ∃ signal after, Stops (runBody depth) scope one.stmts state signal after) →
      evalProgram (runBody depth) scope whole.stmts state = (do
        let value ← evalProgram (runBody depth) scope one.stmts
        let other ← evalProgram (runBody depth) scope two.stmts
        return if two.stmts.isEmpty then value else other) state) ∧
    ((∃ signal after, Stops (runBody depth) scope one.stmts state signal after) →
      evalProgram (runBody depth) scope whole.stmts state =
        evalProgram (runBody depth) scope one.stmts state) := by
  intro whole one two
  have hwhole : whole = { stmts := one.stmts } ++ two :=
    parse_append_semicolon hquotes herrors second
  have hstmts : whole.stmts = one.stmts ++ two.stmts := by
    rw [hwhole]
    rfl
  have hreported : whole.errors = two.errors := by
    rw [hwhole]
    rfl
  refine ⟨hstmts, hreported, fun hgoes => ?_, fun hstops => ?_⟩
  · rw [hstmts]
    cases hone : evalStmts (runBody depth) scope none one.stmts state with
    | ok value middle => exact evalProgram_append_of_ok hone two.stmts
    | error signal after => exact absurd ⟨signal, after, stops_iff.mpr hone⟩ hgoes
  · obtain ⟨signal, after, hstops⟩ := hstops
    rw [hstmts]
    exact evalProgram_append_of_error (stops_iff.mp hstops) two.stmts

/-- A string with a semicolon in it ends the first piece, and the second one is broken but starts
with a statement that is run. It is not run behind a name that is unknown. -/
theorem running_in_pieces_broken :
    let state : State := ⟨{ scopes := #[{}] }, {}⟩
    let program := evalProgram (runBody 0) 0
    let two := Program.parse "puts(a) let"
    let one := Program.parse "let a = \x22x;\x22"
    let whole := Program.parse ("let a = \x22x;\x22" ++ ";" ++ "puts(a) let")
    let unknown := Program.parse "a"
    (whole.stmts = one.stmts ++ two.stmts ∧ whole.errors = two.errors ∧ two.errors ≠ [] ∧
      program whole.stmts state = (do
        let _ ← program one.stmts
        program two.stmts) state) ∧
    program (Program.parse ("a" ++ ";" ++ "puts(a) let")).stmts state =
      program unknown.stmts state := by
  intro state program two one whole unknown
  have hone : (evalStmts (runBody 0) 0 none one.stmts state matches .ok _ _) = true := by
    decide +kernel
  have hunknown : (evalStmts (runBody 0) 0 none unknown.stmts state matches .ok _ _) = false := by
    decide +kernel
  obtain ⟨hstmts, herrors, hgoes, -⟩ := @running_in_pieces "let a = \x22x;\x22" (by decide)
    (by decide +kernel) "puts(a) let" 0 0 state
  obtain ⟨-, -, -, hstops⟩ := @running_in_pieces "a" (by decide) (by decide +kernel)
    "puts(a) let" 0 0 state
  refine ⟨⟨hstmts, herrors, by decide +kernel, ?_⟩, hstops ?_⟩
  · have hempty : two.stmts.isEmpty = false := by decide +kernel
    have hrun := hgoes fun ⟨signal, after, hstopped⟩ => by
      rw [stops_iff.mp hstopped] at hone
      cases hone
    rw [hempty] at hrun
    simp only [Bool.false_eq_true, if_false, bind_pure] at hrun
    exact hrun
  · cases hstmts : evalStmts (runBody 0) 0 none unknown.stmts state with
    | ok value after =>
      rw [hstmts] at hunknown
      cases hunknown
    | error signal after => exact ⟨signal, after, stops_iff.mpr hstmts⟩

end MonkeyLang
