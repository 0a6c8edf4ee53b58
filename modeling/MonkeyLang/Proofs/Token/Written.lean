import MonkeyLang.Proofs.Token.Munch

namespace MonkeyLang

/-- A character that carries no token on, whatever token stands before it. -/
def Separates (c : Char) : Prop := isWordPart c = false ∧ c ≠ '='

/-- A text that a token before it cannot run into, since it is empty or begins with white
space. -/
def Detached (rest : List Char) : Prop := ∀ c ∈ rest.head?, isSpace c = true

theorem separates_of_isSpace {c : Char} (hc : isSpace c = true) : Separates c :=
  ⟨isWordPart_of_isSpace hc, by rintro rfl; cases hc⟩

theorem isDigit_of_separates {c : Char} (hc : Separates c) : c.isDigit = false := by
  have hword := hc.1
  simp only [isWordPart, Char.isAlphanum, Bool.or_eq_false_iff] at hword
  exact hword.1.2

/-- A mark that is a token by itself, whatever stands around it. The others are halves of longer
ones. -/
def standsAlone (c : Char) : Bool := Kind.ofChar c ≠ .illegal ∧ ¬ (c = '=' ∨ c = '!')

theorem separates_of_standsAlone {c : Char} (hc : standsAlone c = true) : Separates c := by
  obtain ⟨hkind, hpair⟩ := of_decide_eq_true hc
  obtain ⟨-, hword, hdigit, -⟩ := not_starts_of_ofChar hkind
  refine ⟨?_, fun hequals => hpair (.inl hequals)⟩
  simp only [isWordStart, Bool.or_eq_false_iff] at hword
  simp only [isWordPart, Char.isAlphanum, hword, hdigit, Bool.or_self]

namespace Token

/-- How a token is written. A word is classified as a whole, and only a string is written
otherwise than it reads. -/
inductive Written : Token → List Char → Prop where
  | word {c : Char} {cs : List Char} (hc : isWordStart c = true) (hcs : cs.all isWordPart = true) :
      Written ⟨.ofWord (.ofList (c :: cs)), .ofList (c :: cs)⟩ (c :: cs)
  | number {c : Char} {cs : List Char} (hc : c.isDigit = true) (hcs : cs.all Char.isDigit = true) :
      Written ⟨.int, .ofList (c :: cs)⟩ (c :: cs)
  | string {cs : List Char} (hcs : cs.all isStringPart = true) :
      Written ⟨.string, .ofList cs⟩ ('\x22' :: (cs ++ ['\x22']))
  | equal : Written ⟨.equal, "=="⟩ ['=', '=']
  | notEqual : Written ⟨.notEqual, "!="⟩ ['!', '=']
  | single {c : Char} (hspace : isSpace c = false) (hword : isWordStart c = false)
      (hdigit : c.isDigit = false) (hquote : c ≠ '\x22') :
      Written ⟨.ofChar c, .singleton c⟩ [c]

/-- A token stands in a text as it is written, unless something carries it on. -/
theorem Written.munches {token : Token} {text rest : List Char} (htoken : Written token text)
    (hrest : ∀ c ∈ rest.head?, Separates c) : Munches token text rest := by
  cases htoken with
  | word hc hcs => exact .word hc hcs fun d hd => (hrest d hd).1
  | number hc hcs => exact .number hc hcs fun d hd => isDigit_of_separates (hrest d hd)
  | string hcs => exact .string hcs
  | equal => exact .equal
  | notEqual => exact .notEqual
  | @single c hspace hword hdigit hquote =>
    by_cases hkind : Kind.ofChar c = .illegal
    · rw [hkind]
      exact .illegal hspace (startsToken_eq_false_iff.mpr ⟨hword, hdigit, hquote, hkind⟩)
    · exact .mark hkind fun _ d hd => (hrest d hd).2

/-- A text is split into certain tokens before any other text that does not carry on the last of
them. -/
def Spells (cs : List Char) (tokens : List Token) : Prop :=
  ∀ (rest : List Char) (more : List Token), (∀ c ∈ rest.head?, Separates c) → Munched more rest →
    Munched (tokens ++ more) (cs ++ rest)

theorem Munched.space {tokens : List Token} {cs : List Char} (hmunched : Munched tokens cs) :
    Munched tokens (' ' :: cs) := by
  cases hmunched with
  | nil hws => exact .nil (List.all_cons.trans hws)
  | cons hws htoken hrest =>
    exact @Munched.cons _ _ (' ' :: _) _ _ (List.all_cons.trans hws) htoken hrest

theorem Written.spells {token : Token} {cs : List Char} (htoken : Written token cs) :
    Spells cs [token] :=
  fun _ _ hrest hmore => (htoken.munches hrest).munched hmore

namespace Spells

theorem munched {cs : List Char} {tokens : List Token} (hspells : Spells cs tokens) :
    Munched tokens cs := by
  have hmunched := hspells [] [] (by simp) (.nil rfl)
  rwa [List.append_nil, List.append_nil] at hmunched

theorem nil : Spells [] [] := fun _ _ _ hmore => hmore

theorem mark {c : Char} (hc : standsAlone c = true) {cs : List Char} {tokens : List Token}
    (hspells : Spells cs tokens) : Spells (c :: cs) (⟨.ofChar c, .singleton c⟩ :: tokens) := by
  intro rest more hrest hmore
  obtain ⟨hkind, hpair⟩ := of_decide_eq_true hc
  have hmark : Munches ⟨.ofChar c, .singleton c⟩ [c] (cs ++ rest) :=
    .mark hkind fun hhalf => absurd hhalf hpair
  exact hmark.munched (hspells rest more hrest hmore)

/-- A mark keeps the tokens around it apart. -/
theorem join {c : Char} (hc : standsAlone c = true) {cs ds : List Char}
    {tokens others : List Token} (hfirst : Spells cs tokens) (hsecond : Spells ds others) :
    Spells (cs ++ c :: ds) (tokens ++ ⟨.ofChar c, .singleton c⟩ :: others) := by
  intro rest more hrest hmore
  rw [List.append_assoc, List.append_assoc]
  refine hfirst _ _ ?_ (hsecond.mark hc rest more hrest hmore)
  intro d hd
  cases hd
  exact separates_of_standsAlone hc

theorem space {cs : List Char} {tokens : List Token} (hspells : Spells cs tokens) :
    Spells (' ' :: cs) tokens :=
  fun rest more hrest hmore => (hspells rest more hrest hmore).space

/-- White space keeps the tokens around it apart. -/
theorem gap {cs ds : List Char} {tokens others : List Token} (hfirst : Spells cs tokens)
    (hsecond : Spells ds others) : Spells (cs ++ ' ' :: ds) (tokens ++ others) := by
  intro rest more hrest hmore
  rw [List.append_assoc, List.append_assoc]
  refine hfirst _ _ ?_ (hsecond.space rest more hrest hmore)
  intro c hc
  cases hc
  exact separates_of_isSpace rfl

end Spells

/-- A text with white space between the tokens that it is made of. -/
inductive Spaced : List Token → List Char → Prop where
  | nil {ws : List Char} (hws : ws.all isSpace = true) : Spaced [] ws
  | cons {token : Token} {tokens : List Token} {ws cs rest : List Char}
      (hws : ws.all isSpace = true) (htoken : Written token cs) (hdetached : Detached rest)
      (hrest : Spaced tokens rest) : Spaced (token :: tokens) (ws ++ (cs ++ rest))

theorem Spaced.munched {tokens : List Token} {cs : List Char} (hspaced : Spaced tokens cs) :
    Munched tokens cs := by
  induction hspaced with
  | nil hws => exact .nil hws
  | cons hws htoken hdetached _ ih =>
    exact .cons hws (htoken.munches fun c hc => separates_of_isSpace (hdetached c hc)) ih

/-- Tokens are read back from any text in which white space keeps them apart. -/
theorem Spaced.scanAll_eq {tokens : List Token} {cs : List Char} (hspaced : Spaced tokens cs) :
    scanAll cs = tokens ++ [eof] :=
  hspaced.munched.scanAll_eq

/-- Every token of a text can be written, if only with the quote that is missing at the end. -/
theorem Munches.written {token : Token} {text rest : List Char}
    (htoken : Munches token text rest) : ∃ text, Written token text := by
  cases htoken with
  | word hc hcs => exact ⟨_, .word hc hcs⟩
  | number hc hcs => exact ⟨_, .number hc hcs⟩
  | string hcs => exact ⟨_, .string hcs⟩
  | unclosed hcs => exact ⟨_, .string hcs⟩
  | equal => exact ⟨_, .equal⟩
  | notEqual => exact ⟨_, .notEqual⟩
  | mark hc =>
    obtain ⟨hspace, hword, hdigit, hquote⟩ := not_starts_of_ofChar hc
    exact ⟨_, .single hspace hword hdigit hquote⟩
  | illegal hspace hc =>
    obtain ⟨hword, hdigit, hquote, hkind⟩ := startsToken_eq_false_iff.mp hc
    rw [← hkind]
    exact ⟨_, .single hspace hword hdigit hquote⟩

theorem written_of_scan {cs rest : List Char} {token : Token}
    (hscan : scan cs = some (token, rest)) : ∃ text, Written token text := by
  obtain ⟨-, text, -, -, htoken⟩ := munches_of_scan hscan
  exact htoken.written

theorem written_of_mem_scanAll {cs : List Char} {token : Token} (hmem : token ∈ scanAll cs)
    (heof : token.kind ≠ .eof) : ∃ text, Written token text := by
  fun_induction scanAll cs with
  | case1 => simp_all [eof]
  | case2 cs first rest hscan ih =>
    rcases List.mem_cons.mp hmem with rfl | hmem
    · exact written_of_scan hscan
    · exact ih hmem

end Token

end MonkeyLang
