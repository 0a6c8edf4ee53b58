import Mathlib.Data.List.Infix
import MonkeyLang.Expr.Render
import MonkeyLang.Proofs.Recovery

namespace MonkeyLang

namespace Kind

variable {kind : Kind}

theorem nesting_of_isOpening (hkind : kind.isOpening = true) : kind.nesting = 1 := by
  cases kind <;> simp_all [isOpening, nesting]

theorem nesting_of_isClosing (hkind : kind.isClosing = true) : kind.nesting = -1 := by
  cases kind <;> simp_all [isClosing, nesting]

theorem nesting_nonpos (hkind : ¬ kind.isOpening = true) : kind.nesting ≤ 0 := by
  cases kind <;> simp_all [isOpening, nesting]

theorem nesting_nonneg (hkind : ¬ kind.isClosing = true) : 0 ≤ kind.nesting := by
  cases kind <;> simp_all [isClosing, nesting]

end Kind

/-- Every opening bracket has a closing one behind it, and the brackets between the two are
balanced. A closing bracket that no opening one waits for closes nothing. -/
def AllClosed (tokens : List Token) : Prop :=
  ∀ before opening behind, tokens = before ++ opening :: behind → opening.kind.isOpening = true →
    ∃ inner closing rest, behind = inner ++ closing :: rest ∧ closing.kind.isClosing = true ∧
      Balanced inner

/-- Brackets that are all closed are outnumbered by closing ones, from wherever one counts. The
recursion passes over each pair of brackets as a whole. -/
theorem AllClosed.bracketDepth_nonpos {tokens behind : List Token} (hclosed : AllClosed tokens)
    (hbehind : behind <:+ tokens) : bracketDepth behind ≤ 0 := by
  match behind with
  | [] => exact Int.le_refl 0
  | token :: rest =>
    rw [bracketDepth_cons]
    by_cases hopening : token.kind.isOpening = true
    · obtain ⟨before, hbefore⟩ := hbehind
      obtain ⟨inner, closing, after, rfl, hclosing, hinner⟩ :=
        hclosed before token rest hbefore.symm hopening
      have hafter : after <:+ tokens := by
        refine ⟨before ++ token :: (inner ++ [closing]), ?_⟩
        rw [← hbefore]
        simp
      have hdepth := hclosed.bracketDepth_nonpos hafter
      rw [bracketDepth_append, bracketDepth_cons, hinner.2, Kind.nesting_of_isOpening hopening,
        Kind.nesting_of_isClosing hclosing]
      omega
    · have hdepth := hclosed.bracketDepth_nonpos ((List.suffix_cons token rest).trans hbehind)
      have hnesting := Kind.nesting_nonpos hopening
      omega
termination_by behind.length

/-- The first closing bracket that is one too many closes what was open at the start. -/
theorem exists_closing {depth : Int} {tokens : List Token} (hdepth : 0 ≤ depth)
    (hbelow : depth + bracketDepth tokens < 0) :
    ∃ inner closing rest, tokens = inner ++ closing :: rest ∧ closing.kind.isClosing = true ∧
      (∀ n ≤ inner.length, 0 ≤ depth + bracketDepth (inner.take n)) ∧
      depth + bracketDepth inner = 0 := by
  induction tokens generalizing depth with
  | nil =>
    have hzero : bracketDepth [] = 0 := rfl
    omega
  | cons token tokens ih =>
    by_cases hclosing : token.kind.isClosing = true ∧ depth = 0
    · obtain ⟨hclosing, rfl⟩ := hclosing
      refine ⟨[], token, tokens, rfl, hclosing, fun n _ => ?_, rfl⟩
      rw [List.take_nil]
      exact Int.le_refl 0
    · have hnext : 0 ≤ depth + token.kind.nesting := by
        by_cases hkind : token.kind.isClosing = true
        · have hpositive : depth ≠ 0 := fun hzero => hclosing ⟨hkind, hzero⟩
          rw [Kind.nesting_of_isClosing hkind]
          omega
        · have hnesting := Kind.nesting_nonneg hkind
          omega
      rw [bracketDepth_cons] at hbelow
      obtain ⟨inner, closing, rest, rfl, hkind, hprefixes, hinner⟩ := ih hnext (by omega)
      refine ⟨token :: inner, closing, rest, rfl, hkind, fun n hn => ?_, ?_⟩
      · cases n with
        | zero => simpa [bracketDepth] using hdepth
        | succ n =>
          have hprefix := hprefixes n (Nat.le_of_succ_le_succ hn)
          rw [List.take_succ_cons, bracketDepth_cons]
          omega
      · rw [bracketDepth_cons]
        omega

private theorem allClosed_iff (tokens : List Token) :
    AllClosed tokens ↔ ∀ behind, behind <:+ tokens → bracketDepth behind ≤ 0 := by
  refine ⟨fun hclosed behind => hclosed.bracketDepth_nonpos, fun hdepth => ?_⟩
  rintro before opening behind rfl hopening
  have hbehind := hdepth (opening :: behind) (List.suffix_append _ _)
  rw [bracketDepth_cons, Kind.nesting_of_isOpening hopening] at hbehind
  obtain ⟨inner, closing, rest, hrest, hclosing, hprefixes, hinner⟩ :=
    exists_closing (Int.le_refl 0) (show 0 + bracketDepth behind < 0 by omega)
  simp only [Int.zero_add] at hprefixes hinner
  exact ⟨inner, closing, rest, hrest, hclosing, hprefixes, hinner⟩

instance (tokens : List Token) : Decidable (AllClosed tokens) :=
  decidable_of_iff (∀ behind ∈ tokens.tails, bracketDepth behind ≤ 0) (by
    simp only [allClosed_iff, List.mem_tails])

/-- Whenever a bracket is opened, no more brackets have been closed than opened before. -/
def OpensInTurn (tokens : List Token) : Prop :=
  ∀ n < tokens.length, (nextKind (tokens.drop n)).isOpening = true →
    0 ≤ bracketDepth (tokens.take n)

instance (tokens : List Token) : Decidable (OpensInTurn tokens) :=
  inferInstanceAs (Decidable (∀ n < tokens.length, _))

/-- Then the number of brackets tells whether all of them are closed. -/
theorem OpensInTurn.allClosed {before behind : List Token} (hturn : OpensInTurn (before ++ behind))
    (hdepth : bracketDepth before ≤ 0) : AllClosed before := by
  rw [allClosed_iff]
  rintro inner ⟨front, rfl⟩
  induction inner generalizing front with
  | nil => exact Int.le_refl 0
  | cons token rest ih =>
    by_cases hopening : token.kind.isOpening = true
    · have hfront : 0 ≤ bracketDepth front := by
        have hzero := hturn front.length (by simp) (by simpa [nextKind] using hopening)
        simpa using hzero
      rw [bracketDepth_append] at hdepth
      omega
    · have hrest := ih (front ++ [token]) (by simpa using hturn) (by simpa using hdepth)
      have hnesting := Kind.nesting_nonpos hopening
      rw [bracketDepth_cons]
      omega

/-- A semicolon at some position, behind tokens that satisfy a condition. -/
def Breaks (closed : List Token → Prop) (tokens : List Token) (n : Nat) : Prop :=
  tokens[n]?.map Token.kind = some .semicolon ∧ closed (tokens.take n)

instance (closed : List Token → Prop) [DecidablePred closed] (tokens : List Token) (n : Nat) :
    Decidable (Breaks closed tokens n) := inferInstanceAs (Decidable (_ ∧ _))

/-- What is left behind the first semicolon that stands behind tokens with a condition and before
the end of the input. If there is none, the end of the input is left. -/
def Resumes (closed : List Token → Prop) (tokens rest : List Token) : Prop :=
  (∃ n, Breaks closed (beforeEnd tokens) n ∧ (∀ m < n, ¬ Breaks closed (beforeEnd tokens) m) ∧
    rest = tokens.drop (n + 1)) ∨
  (∀ n, ¬ Breaks closed (beforeEnd tokens) n) ∧ rest = tokens.drop (beforeEnd tokens).length

namespace Resumes

variable {closed stricter : List Token → Prop} {token : Token} {tokens rest other : List Token}

theorem unique (hrest : Resumes closed tokens rest) (hother : Resumes closed tokens other) :
    rest = other := by
  rcases hrest with ⟨n, hn, hfirst, rfl⟩ | ⟨hnone, rfl⟩ <;>
    rcases hother with ⟨m, hm, hearlier, rfl⟩ | ⟨hnever, rfl⟩
  · rcases Nat.lt_trichotomy n m with hlt | rfl | hlt
    · exact absurd hn (hearlier n hlt)
    · rfl
    · exact absurd hm (hfirst m hlt)
  · exact absurd hn (hnever n)
  · exact absurd hm (hnone m)
  · rfl

theorem nil : Resumes closed [] [] :=
  .inr ⟨fun n hbreaks => by simp [Breaks, beforeEnd] at hbreaks, rfl⟩

theorem eof (heof : token.kind = .eof) : Resumes closed (token :: tokens) (token :: tokens) := by
  have hend : beforeEnd (token :: tokens) = [] := List.takeWhile_cons_of_neg (by simpa using heof)
  refine .inr ⟨fun n hbreaks => ?_, ?_⟩
  · simp [Breaks, hend] at hbreaks
  · rw [hend]
    rfl

theorem semicolon (hkind : token.kind = .semicolon) (hclosed : closed []) :
    Resumes closed (token :: tokens) tokens := by
  have heof : token.kind ≠ .eof := by simp [hkind]
  refine .inl ⟨0, ?_, fun m hm => absurd hm (Nat.not_lt_zero m), rfl⟩
  rw [beforeEnd_cons heof]
  exact ⟨congrArg some hkind, hclosed⟩

theorem cons (heof : token.kind ≠ .eof) (hkind : ¬ (token.kind = .semicolon ∧ closed []))
    (hrest : Resumes (fun before => closed (token :: before)) tokens rest) :
    Resumes closed (token :: tokens) rest := by
  have hend := beforeEnd_cons heof tokens
  have hzero : ¬ Breaks closed (beforeEnd (token :: tokens)) 0 := by
    rw [hend]
    exact fun ⟨hsemicolon, hclosed⟩ => hkind ⟨Option.some.inj hsemicolon, hclosed⟩
  have hsucc (n : Nat) : Breaks closed (beforeEnd (token :: tokens)) (n + 1) ↔
      Breaks (fun before => closed (token :: before)) (beforeEnd tokens) n := by
    rw [hend]
    rfl
  rcases hrest with ⟨n, hn, hfirst, rfl⟩ | ⟨hnone, rfl⟩
  · refine .inl ⟨n + 1, (hsucc n).mpr hn, fun m hm => ?_, rfl⟩
    cases m with
    | zero => exact hzero
    | succ m => exact mt (hsucc m).mp (hfirst m (Nat.lt_of_succ_lt_succ hm))
  · refine .inr ⟨fun n => ?_, by rw [hend]; rfl⟩
    cases n with
    | zero => exact hzero
    | succ n => exact mt (hsucc n).mp (hnone n)

/-- A stricter condition is met no earlier. -/
private theorem suffix_of_imp (himp : ∀ before, stricter before → closed before)
    (hrest : Resumes closed tokens rest) (hother : Resumes stricter tokens other) :
    other <:+ rest := by
  have hdrop {n m : Nat} (hle : n ≤ m) : tokens.drop m <:+ tokens.drop n := by
    rw [← Nat.add_sub_cancel' hle, ← List.drop_drop]
    exact List.drop_suffix _ _
  have hbreaks (n : Nat) (hn : Breaks stricter (beforeEnd tokens) n) :
      Breaks closed (beforeEnd tokens) n := ⟨hn.1, himp _ hn.2⟩
  rcases hrest with ⟨n, hn, hfirst, rfl⟩ | ⟨hnone, rfl⟩ <;>
    rcases hother with ⟨m, hm, hearlier, rfl⟩ | ⟨hnever, rfl⟩
  · exact hdrop (Nat.succ_le_succ (Nat.not_lt.mp fun hlt => hfirst m hlt (hbreaks m hm)))
  · obtain ⟨token, htoken, -⟩ := Option.map_eq_some_iff.mp hn.1
    exact hdrop (List.getElem?_eq_some_iff.mp htoken).1
  · exact absurd (hbreaks m hm) (hnone m)
  · exact List.suffix_refl _

theorem congr (hiff : ∀ n, closed ((beforeEnd tokens).take n) ↔ stricter ((beforeEnd tokens).take n))
    (hrest : Resumes closed tokens rest) : Resumes stricter tokens rest := by
  have hbreaks (n : Nat) : Breaks closed (beforeEnd tokens) n ↔
      Breaks stricter (beforeEnd tokens) n := and_congr_right fun _ => hiff n
  rcases hrest with ⟨n, hn, hfirst, rfl⟩ | ⟨hnone, rfl⟩
  · exact .inl ⟨n, (hbreaks n).mp hn, fun m hm => mt (hbreaks m).mpr (hfirst m hm), rfl⟩
  · exact .inr ⟨fun n => mt (hbreaks n).mpr (hnone n), rfl⟩

end Resumes

/-- Passing over a statement goes by the number of brackets that have been opened and closed. -/
theorem resumes_skipFrom (depth : Int) (tokens : List Token) :
    Resumes (fun before => depth + bracketDepth before ≤ 0) tokens (skipFrom depth tokens) := by
  induction tokens generalizing depth with
  | nil => exact .nil
  | cons token tokens ih =>
    by_cases heof : token.kind = .eof
    · have hskip : skipFrom depth (token :: tokens) = token :: tokens := by
        simp [skipFrom, heof, Kind.isOpening, Kind.isClosing]
      rw [hskip]
      exact .eof heof
    by_cases hsemicolon : token.kind = .semicolon ∧ depth ≤ 0
    · have hskip : skipFrom depth (token :: tokens) = tokens := by
        simp [skipFrom, hsemicolon, Kind.isOpening, Kind.isClosing]
      rw [hskip]
      exact .semicolon hsemicolon.1 (by simpa [bracketDepth] using hsemicolon.2)
    · have hopen : token.kind = .semicolon → 0 < depth := fun hkind =>
        Int.not_le.mp fun hdepth => hsemicolon ⟨hkind, hdepth⟩
      rw [skipFrom_cons heof hopen]
      refine .cons heof (by simpa [bracketDepth] using hsemicolon) ?_
      simp only [bracketDepth_cons, ← Int.add_assoc]
      exact ih (depth + token.kind.nesting)

/-- How a broken statement is passed over. Reading goes on behind the first semicolon before which
no more brackets have been opened than closed, whatever their order. That is never behind the first
semicolon outside all brackets, and it is the same one unless a bracket is opened after one closing
bracket too many. -/
theorem skipping_goes_by_count (tokens : List Token) :
    Resumes (fun before => bracketDepth before ≤ 0) tokens (skipStatement tokens) ∧
    (∀ rest, Resumes AllClosed tokens rest → rest <:+ skipStatement tokens) ∧
    (OpensInTurn (beforeEnd tokens) → Resumes AllClosed tokens (skipStatement tokens)) ∧
    ∀ error, statement tokens = .error error → nextKind tokens ≠ .eof →
      nextKind tokens ≠ .semicolon →
      Program.ofTokens tokens = (Program.ofTokens (skipStatement tokens)).addError error := by
  have hcount : Resumes (fun before => bracketDepth before ≤ 0) tokens (skipStatement tokens) := by
    have hskip := resumes_skipFrom 0 tokens
    simp only [Int.zero_add] at hskip
    exact hskip
  have hnonpos (before : List Token) (hclosed : AllClosed before) : bracketDepth before ≤ 0 :=
    hclosed.bracketDepth_nonpos (List.suffix_refl before)
  refine ⟨hcount, fun rest => hcount.suffix_of_imp hnonpos, fun hturn => ?_, fun error =>
    Program.ofTokens_of_statement_eq_error⟩
  refine hcount.congr fun n => ⟨fun hdepth => ?_, hnonpos _⟩
  rw [← List.take_append_drop n (beforeEnd tokens)] at hturn
  exact hturn.allClosed hdepth

/-- A block with a semicolon in it is passed over, and so is the closing bracket too many behind
it, as no bracket is opened after that. -/
theorem skipping_goes_by_count_block :
    let tokens : List Token := [⟨.kwLet, "let"⟩, ⟨.lbrace, "\x7b"⟩, ⟨.ident, "a"⟩, ⟨.semicolon, ";"⟩,
      ⟨.ident, "b"⟩, ⟨.rbrace, "\x7d"⟩, ⟨.rparen, ")"⟩, ⟨.semicolon, ";"⟩, ⟨.ident, "c"⟩]
    OpensInTurn (beforeEnd tokens) ∧ Resumes AllClosed tokens [⟨.ident, "c"⟩] := by
  intro tokens
  have hturn : OpensInTurn (beforeEnd tokens) := by decide
  have hskip : skipStatement tokens = [⟨.ident, "c"⟩] := by decide
  obtain ⟨-, -, hresumes, -⟩ := skipping_goes_by_count tokens
  exact ⟨hturn, hskip ▸ hresumes hturn⟩

/-- The closing bracket at the start makes up for the opening one behind it, and so the second
statement of the block is read as one outside all blocks. -/
theorem skipping_stops_inside_a_block :
    let tokens : List Token := [⟨.rparen, ")"⟩, ⟨.lbrace, "\x7b"⟩, ⟨.ident, "a"⟩, ⟨.semicolon, ";"⟩,
      ⟨.ident, "b"⟩, ⟨.semicolon, ";"⟩, ⟨.rbrace, "\x7d"⟩, ⟨.semicolon, ";"⟩, ⟨.ident, "c"⟩]
    Resumes AllClosed tokens [⟨.ident, "c"⟩] ∧ ¬ Resumes AllClosed tokens (skipStatement tokens) ∧
      (Program.ofTokens tokens).stmts.map Stmt.render = ["b", "c"] := by
  intro tokens
  have hwhole : Resumes AllClosed tokens [⟨.ident, "c"⟩] := .inl ⟨7, by decide, by decide, rfl⟩
  refine ⟨hwhole, fun hskip => ?_, by decide +kernel⟩
  have hlength : (skipStatement tokens).length = 5 := by decide
  rw [← hwhole.unique hskip] at hlength
  cases hlength

end MonkeyLang
