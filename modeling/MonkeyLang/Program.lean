import MonkeyLang.Parser.Step
import MonkeyLang.Token.Scan

namespace MonkeyLang

open MonkeyLang.Parser

/-- Leaves out a semicolon that stands first. -/
def dropSemicolon : List Token → List Token
  | [] => []
  | token :: rest => if token.kind = .semicolon then rest else token :: rest

/-- Reads one statement together with the semicolon that may close it, and gives back what
follows. -/
def statement (tokens : List Token) : Except SyntaxError (Stmt × List Token) :=
  (Config.start.run tokens).map fun (stmt, rest) => (stmt, dropSemicolon rest)

/-- What follows the first semicolon outside brackets. The depth counts brackets of any
kind, and a closing bracket without an opening one takes it below zero. The count has no
bound, and one kept in 32 bits with a sign agrees with it as long as no more than 2^31 - 1
brackets are unclosed, or stray. -/
def skipFrom (depth : Int) : List Token → List Token
  | [] => []
  | token :: rest =>
    if token.kind.isOpening then skipFrom (depth + 1) rest
    else if token.kind.isClosing then skipFrom (depth - 1) rest
    else if token.kind = .semicolon ∧ depth ≤ 0 then rest
    else if token.kind = .eof then token :: rest
    else skipFrom depth rest

/-- Passes over a statement that cannot be read, with all the blocks inside it. -/
def skipStatement (tokens : List Token) : List Token := skipFrom 0 tokens

private theorem length_dropSemicolon_le (tokens : List Token) :
    (dropSemicolon tokens).length ≤ tokens.length := by
  cases tokens with
  | nil => simp [dropSemicolon]
  | cons token rest =>
    simp only [dropSemicolon]
    split <;> simp

private theorem length_skipFrom_le (depth : Int) (tokens : List Token) :
    (skipFrom depth tokens).length ≤ tokens.length := by
  induction tokens generalizing depth with
  | nil => simp [skipFrom]
  | cons token rest ih =>
    have hopen := ih (depth + 1)
    have hclose := ih (depth - 1)
    have hsame := ih depth
    simp only [skipFrom]
    split
    · simp only [List.length_cons]; omega
    split
    · simp only [List.length_cons]; omega
    split
    · simp
    split
    · simp
    · simp only [List.length_cons]; omega

theorem length_skipStatement_lt {token : Token} (htoken : token.kind ≠ .eof) (rest : List Token) :
    (skipStatement (token :: rest)).length < (token :: rest).length := by
  have hopen := length_skipFrom_le (0 + 1) rest
  have hclose := length_skipFrom_le (0 - 1) rest
  have hsame := length_skipFrom_le 0 rest
  simp only [skipStatement, skipFrom, List.length_cons, if_neg htoken]
  split
  · omega
  split
  · omega
  split <;> omega

/-- Reading never gives back more tokens than it was given. -/
theorem Parser.Config.length_le_of_run {config : Config} {tokens rest : List Token} {stmt : Stmt}
    (hrun : config.run tokens = .ok (stmt, rest)) : rest.length ≤ tokens.length := by
  induction tokens generalizing config with
  | nil =>
    simp only [Config.run] at hrun
    split at hrun <;> simp_all
  | cons token tail ih =>
    simp only [Config.run] at hrun
    split at hrun
    · cases hrun
    · simp_all
    · have htail := ih hrun
      simp only [List.length_cons]
      omega

/-- The first token of a statement is always taken. -/
theorem Parser.Config.length_lt_of_run_start {tokens rest : List Token} {stmt : Stmt}
    (hrun : Config.start.run tokens = .ok (stmt, rest)) : rest.length < tokens.length := by
  cases tokens with
  | nil =>
    simp [Config.run, Config.start, Config.step, readHead, readStart, readOperand, Token.eof,
      Except.map] at hrun
  | cons token tail =>
    simp only [Config.run, Config.start, Config.step, readHead] at hrun
    cases hstart : readStart [] token with
    | error error => simp [hstart, Except.map] at hrun
    | ok next =>
      simp only [hstart, Except.map] at hrun
      have htail := length_le_of_run hrun
      simp only [List.length_cons]
      omega

theorem length_lt_of_statement {tokens rest : List Token} {stmt : Stmt}
    (hstmt : statement tokens = .ok (stmt, rest)) : rest.length < tokens.length := by
  cases hrun : Config.start.run tokens with
  | error error => simp [statement, hrun, Except.map] at hstmt
  | ok result =>
    obtain ⟨read, left⟩ := result
    simp only [statement, hrun, Except.map, Except.ok.injEq, Prod.mk.injEq] at hstmt
    obtain ⟨_, rfl⟩ := hstmt
    exact Nat.lt_of_le_of_lt (length_dropSemicolon_le left) (Config.length_lt_of_run_start hrun)

/-- What reading a whole text yields: the statements that could be read and a reason for
each one that could not, both in order. -/
structure Program where
  stmts : List Stmt := []
  errors : List SyntaxError := []

namespace Program

/-- Puts a statement before all others. -/
def addStmt (stmt : Stmt) (program : Program) : Program :=
  { program with stmts := stmt :: program.stmts }

/-- Puts an error before all others. -/
def addError (error : SyntaxError) (program : Program) : Program :=
  { program with errors := error :: program.errors }

/-- Reads statements until the input ends. A broken statement is recorded and passed over
from its first token on. -/
def ofTokens (tokens : List Token) : Program :=
  match tokens with
  | [] => {}
  | token :: rest =>
    if _heof : token.kind = .eof then {}
    else if token.kind = .semicolon then ofTokens rest
    else
      match _hstmt : statement (token :: rest) with
      | .ok (stmt, left) => (ofTokens left).addStmt stmt
      | .error error => (ofTokens (skipStatement (token :: rest))).addError error
termination_by tokens.length
decreasing_by
  · simp
  · exact length_lt_of_statement _hstmt
  · exact length_skipStatement_lt _heof rest

/-- Reads a source text. -/
def parse (code : String) : Program := ofTokens (tokenize code)

end Program

end MonkeyLang
