import MonkeyLang.Token.Scan

namespace MonkeyLang

private theorem isSpace_iff {c : Char} :
    isSpace c = true ↔ c = ' ' ∨ c = '\t' ∨ c = '\r' ∨ c = '\n' := by
  simp [isSpace, or_assoc]

theorem isWordPart_of_isSpace {c : Char} (hc : isSpace c = true) : isWordPart c = false := by
  rcases isSpace_iff.mp hc with rfl | rfl | rfl | rfl <;> decide

private theorem isDigit_of_isSpace {c : Char} (hc : isSpace c = true) : c.isDigit = false := by
  rcases isSpace_iff.mp hc with rfl | rfl | rfl | rfl <;> decide

theorem isWordPart_of_isWordStart {c : Char} (hc : isWordStart c = true) : isWordPart c = true := by
  simp only [isWordStart, isWordPart, Char.isAlphanum, Bool.or_eq_true] at hc ⊢
  exact hc.imp_left .inl

private theorem isSpace_of_isWordStart {c : Char} (hc : isWordStart c = true) :
    isSpace c = false := by
  rw [Bool.eq_false_iff]
  intro hspace
  rcases isSpace_iff.mp hspace with rfl | rfl | rfl | rfl <;> cases hc

private theorem isSpace_of_isDigit {c : Char} (hc : c.isDigit = true) : isSpace c = false := by
  rw [Bool.eq_false_iff]
  intro hspace
  rw [isDigit_of_isSpace hspace] at hc
  cases hc

private theorem isWordStart_of_isDigit {c : Char} (hc : c.isDigit = true) :
    isWordStart c = false := by
  obtain ⟨hfirst, hlast⟩ := Char.isDigit_iff_toNat.mp hc
  simp only [Char.reduceToNat] at hfirst hlast
  have hdigit : c.toNat = 48 ∨ c.toNat = 49 ∨ c.toNat = 50 ∨ c.toNat = 51 ∨ c.toNat = 52 ∨
      c.toNat = 53 ∨ c.toNat = 54 ∨ c.toNat = 55 ∨ c.toNat = 56 ∨ c.toNat = 57 := by omega
  rw [← Char.ofNat_toNat c]
  rcases hdigit with hc | hc | hc | hc | hc | hc | hc | hc | hc | hc
  all_goals
    rw [hc]
    rfl

/-- A run of characters ends where it ends if nothing behind it carries it on. -/
private theorem takeWhile_append_of_head {p : Char → Bool} {cs rest : List Char}
    (hcs : cs.all p = true) (hrest : ∀ c ∈ rest.head?, p c = false) :
    (cs ++ rest).takeWhile p = cs ∧ (cs ++ rest).dropWhile p = rest := by
  rw [List.all_eq_true] at hcs
  rw [List.takeWhile_append_of_pos hcs, List.dropWhile_append_of_pos hcs]
  cases rest with
  | nil => simp
  | cons c rest => simp [hrest c rfl]

private theorem head_dropWhile (p : Char → Bool) (cs : List Char) :
    ∀ c ∈ (cs.dropWhile p).head?, p c = false := by
  intro c hc
  have hhead := List.head?_dropWhile_not p cs
  rw [Option.mem_def.mp hc] at hhead
  simpa using hhead

/-- The characters with which a token can begin that is not illegal. -/
def startsToken (c : Char) : Bool :=
  isWordStart c || c.isDigit || c = '\x22' || Kind.ofChar c ≠ .illegal

theorem startsToken_eq_false_iff {c : Char} : startsToken c = false ↔
    isWordStart c = false ∧ c.isDigit = false ∧ c ≠ '\x22' ∧ Kind.ofChar c = .illegal := by
  simp [startsToken, and_assoc]

/-- Punctuation begins nothing but itself. -/
theorem not_starts_of_ofChar {c : Char} (hc : Kind.ofChar c ≠ .illegal) :
    isSpace c = false ∧ isWordStart c = false ∧ c.isDigit = false ∧ c ≠ '\x22' := by
  unfold Kind.ofChar at hc
  split at hc
  all_goals first
    | exact absurd rfl hc
    | exact ⟨rfl, rfl, rfl, by decide⟩

namespace Token

/-- How a token stands in a source text: what it is read from, and what follows directly behind
that, which does not carry it on. Only a string is read from anything but its text, and the quote
that closes it is only missing at the very end. -/
inductive Munches : Token → List Char → List Char → Prop where
  | word {c : Char} {cs rest : List Char} (hc : isWordStart c = true)
      (hcs : cs.all isWordPart = true) (hrest : ∀ d ∈ rest.head?, isWordPart d = false) :
      Munches ⟨.ofWord (.ofList (c :: cs)), .ofList (c :: cs)⟩ (c :: cs) rest
  | number {c : Char} {cs rest : List Char} (hc : c.isDigit = true)
      (hcs : cs.all Char.isDigit = true) (hrest : ∀ d ∈ rest.head?, d.isDigit = false) :
      Munches ⟨.int, .ofList (c :: cs)⟩ (c :: cs) rest
  | string {cs rest : List Char} (hcs : cs.all isStringPart = true) :
      Munches ⟨.string, .ofList cs⟩ ('\x22' :: (cs ++ ['\x22'])) rest
  | unclosed {cs : List Char} (hcs : cs.all isStringPart = true) :
      Munches ⟨.string, .ofList cs⟩ ('\x22' :: cs) []
  | equal {rest : List Char} : Munches ⟨.equal, "=="⟩ ['=', '='] rest
  | notEqual {rest : List Char} : Munches ⟨.notEqual, "!="⟩ ['!', '='] rest
  | mark {c : Char} {rest : List Char} (hc : Kind.ofChar c ≠ .illegal)
      (hrest : c = '=' ∨ c = '!' → ∀ d ∈ rest.head?, d ≠ '=') :
      Munches ⟨.ofChar c, .singleton c⟩ [c] rest
  | illegal {c : Char} {rest : List Char} (hspace : isSpace c = false)
      (hc : startsToken c = false) : Munches ⟨.illegal, .singleton c⟩ [c] rest

/-- A text is white space and tokens in turn, with white space at the end. There may be none of it
wherever it may stand. -/
inductive Munched : List Token → List Char → Prop where
  | nil {ws : List Char} (hws : ws.all isSpace = true) : Munched [] ws
  | cons {token : Token} {tokens : List Token} {ws text rest : List Char}
      (hws : ws.all isSpace = true) (htoken : Munches token text rest)
      (hrest : Munched tokens rest) : Munched (token :: tokens) (ws ++ (text ++ rest))

theorem Munches.munched {token : Token} {tokens : List Token} {text rest : List Char}
    (htoken : Munches token text rest) (hrest : Munched tokens rest) :
    Munched (token :: tokens) (text ++ rest) :=
  @Munched.cons _ _ [] _ _ rfl htoken hrest

theorem scan_append_of_space {ws cs : List Char} (hws : ws.all isSpace = true) :
    scan (ws ++ cs) = scan cs := by
  rw [List.all_eq_true] at hws
  rw [scan, scan, List.dropWhile_append_of_pos hws]

theorem scan_cons {c : Char} (hc : isSpace c = false) (cs : List Char) :
    scan (c :: cs) = some (startingWith c cs) := by
  simp only [scan, List.dropWhile_cons, hc, Bool.false_eq_true, if_false]

/-- A character that begins nothing longer is a token by itself. -/
theorem startingWith_single {c : Char} {cs : List Char} (hword : isWordStart c = false)
    (hdigit : c.isDigit = false) (hquote : c ≠ '\x22')
    (hpair : ∀ others, cs = '=' :: others → ¬ (c = '=' ∨ c = '!')) :
    startingWith c cs = (⟨.ofChar c, .singleton c⟩, cs) := by
  unfold startingWith
  rw [if_neg (by simp [hword]), if_neg (by simp [hdigit]), if_neg hquote]
  split
  · exact absurd (.inl rfl) (hpair _ rfl)
  · exact absurd (.inr rfl) (hpair _ rfl)
  · rfl

theorem startingWith_quote (cs : List Char) : startingWith '\x22' cs =
    (⟨.string, .ofList (cs.takeWhile isStringPart)⟩, (cs.dropWhile isStringPart).drop 1) :=
  rfl

/-- A token is read from where it stands. -/
theorem Munches.scan_append {token : Token} {text rest : List Char}
    (htoken : Munches token text rest) : scan (text ++ rest) = some (token, rest) := by
  cases htoken with
  | word hc hcs hrest =>
    obtain ⟨htake, hdrop⟩ := takeWhile_append_of_head hcs hrest
    rw [List.cons_append, scan_cons (isSpace_of_isWordStart hc)]
    simp only [startingWith, hc, htake, hdrop, if_true]
  | number hc hcs hrest =>
    obtain ⟨htake, hdrop⟩ := takeWhile_append_of_head hcs hrest
    rw [List.cons_append, scan_cons (isSpace_of_isDigit hc)]
    simp only [startingWith, isWordStart_of_isDigit hc, hc, htake, hdrop, if_true,
      Bool.false_eq_true, if_false]
  | string hcs =>
    obtain ⟨htake, hdrop⟩ :=
      @takeWhile_append_of_head _ _ ('\x22' :: rest) hcs (by simp [isStringPart])
    rw [List.cons_append, List.append_assoc, List.singleton_append, scan_cons rfl,
      startingWith_quote, htake, hdrop]
    rfl
  | unclosed hcs =>
    obtain ⟨htake, hdrop⟩ := @takeWhile_append_of_head _ _ [] hcs (by simp)
    rw [List.cons_append, scan_cons rfl, startingWith_quote, htake, hdrop]
    rfl
  | equal => rfl
  | notEqual => rfl
  | mark hc hrest =>
    obtain ⟨hspace, hword, hdigit, hquote⟩ := not_starts_of_ofChar hc
    rw [List.singleton_append, scan_cons hspace, startingWith_single hword hdigit hquote]
    rintro others rfl hpair
    exact hrest hpair '=' rfl rfl
  | @illegal c _ hspace hc =>
    obtain ⟨hword, hdigit, hquote, hkind⟩ := startsToken_eq_false_iff.mp hc
    rw [List.singleton_append, scan_cons hspace, startingWith_single hword hdigit hquote, hkind]
    rintro others - (rfl | rfl)
    · cases hkind
    · cases hkind

theorem scanAll_of_scan_eq_none {cs : List Char} (hscan : scan cs = none) : scanAll cs = [eof] := by
  rw [scanAll]
  split <;> simp_all

theorem scanAll_of_scan_eq_some {cs rest : List Char} {token : Token}
    (hscan : scan cs = some (token, rest)) : scanAll cs = token :: scanAll rest := by
  rw [scanAll]
  split <;> simp_all

/-- There is only one way to split a text into tokens. -/
theorem Munched.scanAll_eq {tokens : List Token} {cs : List Char} (hmunched : Munched tokens cs) :
    scanAll cs = tokens ++ [eof] := by
  induction hmunched with
  | @nil ws hws =>
    have hscan := @scan_append_of_space ws [] hws
    rw [List.append_nil] at hscan
    exact scanAll_of_scan_eq_none hscan
  | cons hws htoken _ ih =>
    have hscan := htoken.scan_append
    rw [← scan_append_of_space hws] at hscan
    rw [scanAll_of_scan_eq_some hscan, ih]
    rfl

/-- The token that begins with a character takes as much of the text as it can. -/
theorem munches_startingWith {c : Char} (hc : isSpace c = false) (cs : List Char) :
    ∃ text, c :: cs = text ++ (startingWith c cs).2 ∧
      Munches (startingWith c cs).1 text (startingWith c cs).2 := by
  by_cases hstart : isWordStart c = true
  · simp only [startingWith, hstart, if_true]
    refine ⟨c :: cs.takeWhile isWordPart, ?_, .word hstart List.all_takeWhile (head_dropWhile _ cs)⟩
    rw [List.cons_append, List.takeWhile_append_dropWhile]
  by_cases hdigit : c.isDigit = true
  · simp only [startingWith, hstart, hdigit, if_true, Bool.false_eq_true, if_false]
    refine ⟨c :: cs.takeWhile Char.isDigit, ?_,
      .number hdigit List.all_takeWhile (head_dropWhile _ cs)⟩
    rw [List.cons_append, List.takeWhile_append_dropWhile]
  by_cases hquote : c = '\x22'
  · subst hquote
    have hsplit := @List.takeWhile_append_dropWhile _ isStringPart cs
    have hclose := head_dropWhile isStringPart cs
    have hcs := @List.all_takeWhile _ isStringPart cs
    rw [startingWith_quote]
    cases hdrop : cs.dropWhile isStringPart with
    | nil =>
      rw [hdrop, List.append_nil] at hsplit
      refine ⟨'\x22' :: cs, by simp, ?_⟩
      rw [hsplit] at hcs ⊢
      exact .unclosed hcs
    | cons d rest =>
      rw [hdrop] at hsplit hclose
      have hd : d = '\x22' := by simpa [isStringPart] using hclose d rfl
      subst hd
      refine ⟨'\x22' :: (cs.takeWhile isStringPart ++ ['\x22']), ?_, .string hcs⟩
      rw [List.cons_append, List.append_assoc]
      exact congrArg ('\x22' :: ·) hsplit.symm
  rw [Bool.not_eq_true] at hstart hdigit
  by_cases hpair : ∃ others, cs = '=' :: others ∧ (c = '=' ∨ c = '!')
  · obtain ⟨others, rfl, rfl | rfl⟩ := hpair
    · exact ⟨['=', '='], rfl, .equal⟩
    · exact ⟨['!', '='], rfl, .notEqual⟩
  · have hlast (others : List Char) (hcs : cs = '=' :: others) : ¬ (c = '=' ∨ c = '!') :=
      fun hc => hpair ⟨others, hcs, hc⟩
    rw [startingWith_single hstart hdigit hquote hlast]
    refine ⟨[c], rfl, ?_⟩
    by_cases hkind : Kind.ofChar c = .illegal
    · rw [hkind]
      exact .illegal hc (startsToken_eq_false_iff.mpr ⟨hstart, hdigit, hquote, hkind⟩)
    · refine .mark hkind fun hpair d hd hequals => ?_
      subst hequals
      obtain ⟨others, hcs⟩ := List.head?_eq_some_iff.mp hd
      exact hlast others hcs hpair

/-- Reading a token loses nothing of the text. -/
theorem munches_of_scan {cs rest : List Char} {token : Token}
    (hscan : scan cs = some (token, rest)) :
    ∃ ws text, cs = ws ++ (text ++ rest) ∧ ws.all isSpace = true ∧ Munches token text rest := by
  have hsplit := @List.takeWhile_append_dropWhile _ isSpace cs
  have hhead := head_dropWhile isSpace cs
  unfold scan at hscan
  cases hdrop : cs.dropWhile isSpace with
  | nil => simp [hdrop] at hscan
  | cons c tail =>
    rw [hdrop] at hsplit hhead
    simp only [hdrop, Option.some.injEq] at hscan
    obtain ⟨text, htext, hmunches⟩ := munches_startingWith (hhead c rfl) tail
    rw [hscan] at htext hmunches
    refine ⟨cs.takeWhile isSpace, text, ?_, List.all_takeWhile, hmunches⟩
    rw [← htext, hsplit]

theorem all_isSpace_of_scan_eq_none {cs : List Char} (hscan : scan cs = none) :
    cs.all isSpace = true := by
  unfold scan at hscan
  split at hscan
  · rename_i hskip
    rw [← @List.takeWhile_append_dropWhile _ isSpace cs, hskip, List.append_nil]
    exact List.all_takeWhile
  · cases hscan

theorem Munches.kind_ne_eof {token : Token} {text rest : List Char}
    (htoken : Munches token text rest) : token.kind ≠ .eof := by
  cases htoken with
  | word =>
    unfold Kind.ofWord
    split <;> simp
  | mark =>
    unfold Kind.ofChar
    split <;> simp
  | _ => simp

/-- Every text is split into tokens, and its end follows the last one. -/
theorem munched_scanAll (cs : List Char) :
    ∃ tokens, scanAll cs = tokens ++ [eof] ∧ (∀ token ∈ tokens, token.kind ≠ .eof) ∧
      Munched tokens cs := by
  fun_induction scanAll cs with
  | case1 cs hscan => exact ⟨[], rfl, by simp, .nil (all_isSpace_of_scan_eq_none hscan)⟩
  | case2 cs token rest hscan ih =>
    obtain ⟨tokens, hrest, hkinds, hmunched⟩ := ih
    obtain ⟨ws, text, rfl, hws, htoken⟩ := munches_of_scan hscan
    refine ⟨token :: tokens, by rw [hrest]; rfl, ?_, .cons hws htoken hmunched⟩
    exact List.forall_mem_cons.mpr ⟨htoken.kind_ne_eof, hkinds⟩

/-- What is left of a text after so many tokens have been read from it. -/
def unread (cs : List Char) : Nat → List Char
  | 0 => cs
  | count + 1 => (next (unread cs count)).2

private theorem unread_succ (cs : List Char) (count : Nat) :
    unread cs (count + 1) = unread (next cs).2 count := by
  induction count with
  | zero => rfl
  | succ count ih => rw [unread, ih, unread]

/-- Reading token after token gives those of the whole text, and then the end over and over. -/
private theorem next_unread (cs : List Char) (count : Nat) :
    (next (unread cs count)).1 = (scanAll cs)[count]?.getD eof := by
  induction count generalizing cs with
  | zero =>
    rw [unread, next]
    cases hscan : scan cs with
    | none => rw [scanAll_of_scan_eq_none hscan]; rfl
    | some result => rw [scanAll_of_scan_eq_some hscan]; rfl
  | succ count ih =>
    rw [unread_succ, ih, next]
    cases hscan : scan cs with
    | none =>
      rw [scanAll_of_scan_eq_none hscan, Option.getD_none, scanAll_of_scan_eq_none rfl]
      cases count <;> rfl
    | some result => rw [scanAll_of_scan_eq_some hscan]; rfl

private theorem unread_nil (count : Nat) : unread [] count = [] := by
  induction count with
  | zero => rfl
  | succ count ih =>
    rw [unread_succ]
    exact ih

theorem unread_eq_nil (cs : List Char) {count : Nat} (hcount : (scanAll cs).length ≤ count) :
    unread cs count = [] := by
  induction count generalizing cs with
  | zero =>
    obtain ⟨tokens, htokens, -⟩ := munched_scanAll cs
    simp [htokens] at hcount
  | succ count ih =>
    rw [unread_succ, next]
    cases hscan : scan cs with
    | none => exact unread_nil count
    | some result =>
      rw [scanAll_of_scan_eq_some hscan, List.length_cons] at hcount
      exact ih result.2 (by omega)

end Token

/-- Splitting a text into tokens loses nothing of it and always takes as much as it can. It is white
space and tokens in turn, each of which nothing behind it carries on, and no other tokens can be
found in it that way. The end of the text is the last token, and it is read again as often as there
are further calls. -/
theorem tokenizing_loses_nothing (code : String) :
    (∃ tokens, tokenize code = tokens ++ [Token.eof] ∧ (∀ token ∈ tokens, token.kind ≠ .eof) ∧
      Token.Munched tokens code.toList) ∧
    (∀ tokens, Token.Munched tokens code.toList → tokenize code = tokens ++ [Token.eof]) ∧
    ∀ count,
      (Token.next (Token.unread code.toList count)).1 = (tokenize code)[count]?.getD Token.eof ∧
      ((tokenize code).length ≤ count → Token.unread code.toList count = []) := by
  refine ⟨Token.munched_scanAll code.toList, fun tokens hmunched => hmunched.scanAll_eq, ?_⟩
  intro count
  exact ⟨Token.next_unread code.toList count, Token.unread_eq_nil code.toList⟩

/-- A number runs into a word, two equals signs are one token and a third one is another, and the
string is never closed. -/
theorem tokenizing_loses_nothing_unclosed :
    let code := "1a ==\t=\x22é;\n"
    let tokens : List Token :=
      [⟨.int, "1"⟩, ⟨.ident, "a"⟩, ⟨.equal, "=="⟩, ⟨.assign, "="⟩, ⟨.string, "é;\n"⟩]
    Token.Munched tokens code.toList ∧ tokenize code = tokens ++ [Token.eof] ∧
      (tokenize code).length ≤ 7 ∧ Token.unread code.toList 7 = [] := by
  intro code tokens
  obtain ⟨⟨found, hfound, -, hmunched⟩, hunique, hnext⟩ := tokenizing_loses_nothing code
  have htokens : tokenize code = tokens ++ [Token.eof] := by decide +kernel
  have hsame : found = tokens := List.append_cancel_right (hfound.symm.trans htokens)
  have hlength : (tokenize code).length ≤ 7 := by rw [htokens]; decide
  subst hsame
  exact ⟨hmunched, hunique _ hmunched, hlength, (hnext 7).2 hlength⟩

end MonkeyLang
