import MonkeyLang.Proofs.Token.Written

namespace MonkeyLang

/-- The number of quotes in a text. Each of them begins or ends a string. -/
def quotes (cs : List Char) : Nat := cs.count '\x22'

private theorem takeWhile_append_of_neg {p : Char → Bool} {c : Char} (hc : p c = false)
    (cs rest : List Char) :
    (cs ++ c :: rest).takeWhile p = cs.takeWhile p ∧
      (cs ++ c :: rest).dropWhile p = cs.dropWhile p ++ c :: rest := by
  induction cs with
  | nil => simp [hc]
  | cons d cs ih =>
    by_cases hd : p d = true
    · simp [hd, ih]
    · simp [hd]

private theorem quotes_dropWhile {p : Char → Bool} (hquote : p '\x22' = false) (cs : List Char) :
    quotes (cs.dropWhile p) = quotes cs := by
  induction cs with
  | nil => rfl
  | cons c cs ih =>
    rw [List.dropWhile_cons]
    split
    · rename_i hc
      have hne : c ≠ '\x22' := by
        rintro rfl
        rw [hquote] at hc
        cases hc
      rw [ih, quotes, quotes, List.count_cons_of_ne hne]
    · rfl

private theorem quotes_cons_of_ne {c : Char} (hc : c ≠ '\x22') (cs : List Char) :
    quotes (c :: cs) = quotes cs := by
  rw [quotes, quotes, List.count_cons_of_ne hc]

/-- A text with quotes goes on behind the first of them. -/
private theorem dropWhile_isStringPart {cs : List Char} (hquotes : quotes cs ≠ 0) :
    ∃ before after, cs = before ++ '\x22' :: after ∧ quotes cs = quotes after + 1 ∧
      ∀ rest, (before ++ '\x22' :: rest).takeWhile isStringPart = before ∧
        (before ++ '\x22' :: rest).dropWhile isStringPart = '\x22' :: rest := by
  have hmem : '\x22' ∈ cs := List.count_pos_iff.mp (Nat.pos_of_ne_zero hquotes)
  obtain ⟨before, after, rfl, hbefore⟩ := List.eq_append_cons_of_mem hmem
  have hall : ∀ c ∈ before, isStringPart c = true := fun c hc => by
    simp only [isStringPart, bne_iff_ne]
    rintro rfl
    exact hbefore hc
  refine ⟨before, after, rfl, ?_, fun rest => ?_⟩
  · simp [quotes, List.count_eq_zero_of_not_mem hbefore]
  · rw [List.takeWhile_append_of_pos hall, List.dropWhile_append_of_pos hall]
    simp [isStringPart]

/-- A text with quotes has a last one. -/
private theorem exists_last_quote {cs : List Char} (hquotes : quotes cs ≠ 0) :
    ∃ before after, cs = before ++ '\x22' :: after ∧ quotes after = 0 ∧
      quotes cs = quotes before + 1 := by
  have hmem : '\x22' ∈ cs.reverse :=
    List.mem_reverse.mpr (List.count_pos_iff.mp (Nat.pos_of_ne_zero hquotes))
  obtain ⟨after, before, hreverse, hafter⟩ := List.eq_append_cons_of_mem hmem
  have hcs : cs = before.reverse ++ '\x22' :: after.reverse := by
    rw [← List.reverse_reverse cs, hreverse]
    simp
  have hnone : quotes after.reverse = 0 :=
    List.count_eq_zero_of_not_mem fun hquote => hafter (List.mem_reverse.mp hquote)
  refine ⟨before.reverse, after.reverse, hcs, hnone, ?_⟩
  rw [quotes] at hnone
  rw [hcs, quotes, List.count_append, List.count_cons_self, hnone, quotes]

namespace Token

/-- The first token of a text is the same with a separating character somewhere behind it, and a
string that is closed takes two quotes. -/
private theorem startingWith_append {c : Char} {cs : List Char} {separator : Char}
    (hseparator : Separates separator) (hquotes : quotes (c :: cs) % 2 = 0) (rest : List Char) :
    startingWith c (cs ++ separator :: rest) =
        ((startingWith c cs).1, (startingWith c cs).2 ++ separator :: rest) ∧
      quotes (startingWith c cs).2 % 2 = 0 := by
  have hnumber := isDigit_of_separates hseparator
  obtain ⟨hword, hequals⟩ := hseparator
  by_cases hquote : c = '\x22'
  · subst hquote
    have hopen : quotes ('\x22' :: cs) = quotes cs + 1 := List.count_cons_self
    obtain ⟨before, after, rfl, hcount, hspan⟩ := @dropWhile_isStringPart cs (by omega)
    simp only [startingWith_quote, List.append_assoc, List.cons_append, hspan, List.drop_one,
      List.tail_cons]
    exact ⟨trivial, by omega⟩
  rw [quotes_cons_of_ne hquote] at hquotes
  by_cases hstart : isWordStart c = true
  · obtain ⟨htake, hdrop⟩ := takeWhile_append_of_neg hword cs rest
    simp only [startingWith, hstart, if_true, htake, hdrop]
    exact ⟨trivial, by rw [quotes_dropWhile rfl, hquotes]⟩
  by_cases hdigit : c.isDigit = true
  · obtain ⟨htake, hdrop⟩ := takeWhile_append_of_neg hnumber cs rest
    simp only [startingWith, hstart, hdigit, if_true, if_false, htake, hdrop, Bool.false_eq_true]
    exact ⟨trivial, by rw [quotes_dropWhile rfl, hquotes]⟩
  rw [Bool.not_eq_true] at hstart hdigit
  by_cases hpair : ∃ others, cs = '=' :: others ∧ (c = '=' ∨ c = '!')
  · -- Two characters make one token here, and both stand before the separator.
    obtain ⟨others, rfl, rfl | rfl⟩ := hpair
    · exact ⟨rfl, hquotes⟩
    · exact ⟨rfl, hquotes⟩
  · have hfew (others : List Char) (hcs : cs = '=' :: others) : ¬ (c = '=' ∨ c = '!') :=
      fun hc => hpair ⟨others, hcs, hc⟩
    have hmore (others : List Char) (hcs : cs ++ separator :: rest = '=' :: others) :
        ¬ (c = '=' ∨ c = '!') := by
      cases cs with
      | nil => exact absurd (List.cons.inj hcs).1 hequals
      | cons d cs => exact hfew cs (by rw [(List.cons.inj hcs).1])
    rw [startingWith_single hstart hdigit hquote hfew,
      startingWith_single hstart hdigit hquote hmore]
    exact ⟨rfl, hquotes⟩

/-- A text in which every string is closed keeps its first token, whatever follows a separating
character behind it. -/
theorem scan_append {cs tail : List Char} {token : Token} {separator : Char}
    (hseparator : Separates separator) (hquotes : quotes cs % 2 = 0)
    (hscan : scan cs = some (token, tail)) (rest : List Char) :
    scan (cs ++ separator :: rest) = some (token, tail ++ separator :: rest) ∧
      quotes tail % 2 = 0 := by
  rw [← quotes_dropWhile (p := isSpace) rfl] at hquotes
  unfold scan at hscan ⊢
  cases hskip : cs.dropWhile isSpace with
  | nil => simp [hskip] at hscan
  | cons c others =>
    rw [hskip] at hquotes
    simp only [hskip, Option.some.injEq] at hscan
    have hfirst := startingWith_append hseparator hquotes rest
    rw [hscan] at hfirst
    rw [List.dropWhile_append, hskip]
    simp only [List.isEmpty_cons, Bool.false_eq_true, if_false, List.cons_append]
    exact ⟨by rw [hfirst.1], hfirst.2⟩

private theorem scanAll_congr {cs others : List Char} (hscan : scan cs = scan others) :
    scanAll cs = scanAll others := by
  cases hothers : scan others with
  | none => rw [scanAll_of_scan_eq_none hothers, scanAll_of_scan_eq_none (hscan.trans hothers)]
  | some result =>
    obtain ⟨token, rest⟩ := result
    rw [scanAll_of_scan_eq_some hothers, scanAll_of_scan_eq_some (hscan.trans hothers)]

private theorem scanAll_ne_nil (cs : List Char) : scanAll cs ≠ [] := by
  rw [scanAll]
  split <;> simp

/-- A text in which every string is closed is split into the same tokens, whatever follows a
separating character behind it. -/
theorem scanAll_append {cs : List Char} {separator : Char} (hseparator : Separates separator)
    (hquotes : quotes cs % 2 = 0) (rest : List Char) :
    scanAll (cs ++ separator :: rest) = (scanAll cs).dropLast ++ scanAll (separator :: rest) := by
  fun_induction scanAll cs with
  | case1 cs hscan =>
    have hspace := all_isSpace_of_scan_eq_none hscan
    rw [scanAll_congr (scan_append_of_space hspace)]
    rfl
  | case2 cs token tail hscan ih =>
    obtain ⟨hfirst, htail⟩ := scan_append hseparator hquotes hscan rest
    rw [scanAll_of_scan_eq_some hfirst, ih htail,
      List.dropLast_cons_of_ne_nil (scanAll_ne_nil tail)]
    rfl

/-- The end of a text is behind all its tokens, and none of them is an end too. -/
theorem scanAll_eq_append_eof (cs : List Char) :
    ∃ tokens, scanAll cs = tokens ++ [eof] ∧ ∀ token ∈ tokens, token.kind ≠ .eof := by
  obtain ⟨tokens, hscan, hkinds, -⟩ := munched_scanAll cs
  exact ⟨tokens, hscan, hkinds⟩

/-- White space is passed over, and a semicolon is a token by itself. -/
theorem scanAll_separator {separator : Char}
    (hseparator : isSpace separator = true ∨ separator = ';') (rest : List Char) :
    scanAll (separator :: rest) =
      (if separator = ';' then [⟨.semicolon, ";"⟩] else []) ++ scanAll rest := by
  rcases hseparator with hspace | rfl
  · have hother : separator ≠ ';' := by
      rintro rfl
      cases hspace
    rw [if_neg hother, List.nil_append]
    exact scanAll_congr (@scan_append_of_space [separator] rest (by simpa using hspace))
  · exact scanAll_of_scan_eq_some rfl

/-- A string that is never closed takes all that follows its quote. -/
theorem scanAll_unclosed {cs : List Char} (hquotes : quotes cs = 0) :
    scanAll ('\x22' :: cs) = [⟨.string, .ofList cs⟩, eof] := by
  have hcs : cs.all isStringPart = true := by
    rw [List.all_eq_true]
    intro c hc
    simp only [isStringPart, bne_iff_ne]
    rintro rfl
    exact List.count_eq_zero.mp hquotes hc
  have hmunched := (Munches.unclosed hcs).munched (.nil rfl)
  rw [List.append_nil] at hmunched
  exact hmunched.scanAll_eq

end Token

/-- Texts are split into tokens piece by piece. Outside all strings, white space and semicolons keep
what stands before them apart from what stands behind them, so that both have the tokens that they
have by themselves. A text with an odd number of quotes ends inside a string: its last token begins
with the last quote and goes on to the end, behind the tokens of the text before that quote. -/
theorem tokenizing_goes_by_pieces (first : String) :
    (quotes first.toList % 2 = 0 → ∃ tokens, tokenize first = tokens ++ [Token.eof] ∧
      ∀ (second : String) (separator : Char), isSpace separator = true ∨ separator = ';' →
        tokenize (first ++ String.singleton separator ++ second) =
          tokens ++ (if separator = ';' then [⟨.semicolon, ";"⟩] else []) ++ tokenize second) ∧
    (quotes first.toList % 2 = 1 → ∃ before literal tokens,
      first = before ++ "\x22" ++ literal ∧ quotes literal.toList = 0 ∧
      tokenize before = tokens ++ [Token.eof] ∧
      tokenize first = tokens ++ [⟨.string, literal⟩, Token.eof]) := by
  refine ⟨fun heven => ?_, fun hodd => ?_⟩
  · obtain ⟨tokens, htokens, -⟩ := Token.scanAll_eq_append_eof first.toList
    refine ⟨tokens, htokens, fun second separator hseparator => ?_⟩
    have hseparates : Separates separator := by
      rcases hseparator with hspace | rfl
      · exact separates_of_isSpace hspace
      · exact separates_of_standsAlone rfl
    have hjoined : (first ++ String.singleton separator ++ second).toList =
        first.toList ++ separator :: second.toList := by simp
    rw [tokenize, tokenize, hjoined, Token.scanAll_append hseparates heven,
      Token.scanAll_separator hseparator, htokens, List.dropLast_concat, List.append_assoc]
  · obtain ⟨before, literal, hfirst, hliteral, hcount⟩ := @exists_last_quote first.toList (by omega)
    obtain ⟨tokens, htokens, -⟩ := Token.scanAll_eq_append_eof before
    have htext : first = .ofList before ++ "\x22" ++ .ofList literal :=
      String.toList_inj.mp (by simp [hfirst])
    refine ⟨.ofList before, .ofList literal, tokens, htext, by simpa using hliteral,
      by simpa [tokenize] using htokens, ?_⟩
    -- The quote itself keeps the string apart from what stands before it.
    rw [tokenize, hfirst, Token.scanAll_append ⟨rfl, by decide⟩ (by omega),
      Token.scanAll_unclosed hliteral, htokens, List.dropLast_concat]

/-- The string in the first text ends before the line does, and the last one in the other text does
not end. Equals signs on two lines stay apart. -/
theorem tokenizing_goes_by_pieces_lines :
    tokenize ("let a = \x22;\x22 =" ++ "\n" ++ "=b") =
      [⟨.kwLet, "let"⟩, ⟨.ident, "a"⟩, ⟨.assign, "="⟩, ⟨.string, ";"⟩, ⟨.assign, "="⟩] ++
        tokenize "=b" ∧
    ∃ before literal tokens, "a \x22b\x22 \x22; é\n" = before ++ "\x22" ++ literal ∧
      quotes literal.toList = 0 ∧ tokenize before = tokens ++ [Token.eof] ∧
      tokenize "a \x22b\x22 \x22; é\n" = tokens ++ [⟨.string, literal⟩, Token.eof] := by
  refine ⟨?_, (tokenizing_goes_by_pieces _).2 (by decide)⟩
  obtain ⟨tokens, htokens, hjoined⟩ :=
    (tokenizing_goes_by_pieces "let a = \x22;\x22 =").1 (by decide)
  have hfirst : tokenize "let a = \x22;\x22 =" =
      [⟨.kwLet, "let"⟩, ⟨.ident, "a"⟩, ⟨.assign, "="⟩, ⟨.string, ";"⟩, ⟨.assign, "="⟩] ++
        [Token.eof] := by decide +kernel
  obtain rfl := List.append_cancel_right (htokens.symm.trans hfirst)
  exact hjoined "=b" '\n' (.inl rfl)

end MonkeyLang
