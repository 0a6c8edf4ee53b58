import MonkeyLang.Proofs.Decimal
import MonkeyLang.Proofs.Token.Written

namespace MonkeyLang

/-- The words that can name something, which are all but the keywords. -/
def isName (word : String) : Bool :=
  word.toList.head?.any isWordStart && word.toList.all isWordPart && Kind.ofWord word = .ident

/-- How a token is written in a source text. -/
def Token.source (token : Token) : String :=
  if token.kind = .string then "\x22" ++ token.text ++ "\x22" else token.text

/-- The text of the tokens that are written in one way only. -/
def Kind.spelling? : Kind → Option String
  | illegal | eof | ident | int | string => none
  | assign => some "="
  | plus => some "+"
  | minus => some "-"
  | bang => some "!"
  | asterisk => some "*"
  | slash => some "/"
  | less => some "<"
  | greater => some ">"
  | equal => some "=="
  | notEqual => some "!="
  | question => some "?"
  | comma => some ","
  | semicolon => some ";"
  | colon => some ":"
  | lparen => some "("
  | rparen => some ")"
  | lbrace => some "\x7b"
  | rbrace => some "\x7d"
  | lbracket => some "["
  | rbracket => some "]"
  | kwFn => some "fn"
  | kwLet => some "let"
  | kwTrue => some "true"
  | kwFalse => some "false"
  | kwIf => some "if"
  | kwElse => some "else"
  | kwReturn => some "return"
  | kwNull => some "null"

namespace Kind

/-- A word is a name, or else the one way to write its keyword. -/
theorem spelling?_ofWord (word : String) :
    ofWord word = .ident ∨ (ofWord word).spelling? = some word := by
  unfold ofWord
  split <;> simp [spelling?]

/-- A character is illegal, or else the one way to write its token. -/
theorem spelling?_ofChar (c : Char) :
    ofChar c = .illegal ∨ (ofChar c).spelling? = some (.singleton c) := by
  unfold ofChar
  split
  iterate 18 exact .inr rfl
  exact .inl rfl

theorem ofWord_ne_string (word : String) : ofWord word ≠ .string := by
  unfold ofWord
  split <;> simp

theorem ofChar_ne_string (c : Char) : ofChar c ≠ .string := by
  unfold ofChar
  split <;> simp

end Kind

namespace Token

/-- A token that some text is read as. -/
def Legible (token : Token) : Prop := ∃ text, Written token text

theorem legible_of_spelling? {kind : Kind} {text : String} (htext : kind.spelling? = some text) :
    Legible ⟨kind, text⟩ := by
  have hscan : scan text.toList = some (⟨kind, text⟩, []) := by
    cases kind <;> cases htext <;> rfl
  exact written_of_scan hscan

theorem legible_name {name : String} (hname : isName name = true) : Legible ⟨.ident, name⟩ := by
  simp only [isName, Bool.and_eq_true, decide_eq_true_eq] at hname
  obtain ⟨⟨hstart, hparts⟩, hkind⟩ := hname
  rw [← hkind]
  cases hword : name.toList with
  | nil => simp [hword] at hstart
  | cons c cs =>
    simp only [hword, List.head?_cons, Option.any_some, List.all_cons, Bool.and_eq_true]
      at hstart hparts
    rw [← name.ofList_toList, hword]
    exact ⟨_, .word hstart hparts.2⟩

private theorem legible_digits {text : String} (hfilled : text ≠ "")
    (hdigits : text.toList.all Char.isDigit = true) : Legible ⟨.int, text⟩ := by
  rw [← text.ofList_toList]
  cases htext : text.toList with
  | nil => exact absurd (String.toList_eq_nil_iff.mp htext) hfilled
  | cons c cs =>
    rw [htext, List.all_cons, Bool.and_eq_true] at hdigits
    exact ⟨_, .number hdigits.1 hdigits.2⟩

theorem legible_number {value : Int64} (hvalue : 0 ≤ value.toInt) :
    Legible ⟨.int, Decimal.write value⟩ := by
  have hwrite := Decimal.toList_write hvalue
  refine legible_digits ?_ (hwrite ▸ Decimal.all_isDigit_toDigits value.toInt.toNat)
  rw [Ne, ← String.toList_eq_nil_iff, hwrite]
  exact Nat.toDigits_ne_nil

theorem legible_string {text : String} (htext : text.toList.all isStringPart = true) :
    Legible ⟨.string, text⟩ := by
  rw [← text.ofList_toList]
  exact ⟨_, .string htext⟩

private theorem legible_illegal {c : Char} (hstarts : startsToken c = false)
    (hspace : isSpace c = false) : Legible ⟨.illegal, .singleton c⟩ := by
  obtain ⟨hword, hdigit, hquote, hkind⟩ := startsToken_eq_false_iff.mp hstarts
  rw [← hkind]
  exact ⟨_, .single hspace hword hdigit hquote⟩

/-- There is no other way to write a token. -/
theorem Written.eq_source {token : Token} {cs : List Char} (htoken : Written token cs) :
    cs = token.source.toList := by
  cases htoken with
  | word => simp [source, Kind.ofWord_ne_string]
  | number => simp [source]
  | string => simp [source]
  | equal => rfl
  | notEqual => rfl
  | single => simp [source, Kind.ofChar_ne_string]

theorem Legible.spells {token : Token} (htoken : token.Legible) :
    Spells token.source.toList [token] := by
  obtain ⟨text, htext⟩ := htoken
  rw [← htext.eq_source]
  exact htext.spells

/-- Whether a token can be read from a text. A keyword or a piece of punctuation has the one text of
its class, and an illegal token is a character with which nothing else begins. -/
def isReadable (token : Token) : Bool :=
  match token.kind with
  | .eof => false
  | .ident => isName token.text
  | .int => token.text ≠ "" && token.text.toList.all Char.isDigit
  | .string => token.text.toList.all isStringPart
  | .illegal =>
    match token.text.toList with
    | [c] => !startsToken c && !isSpace c
    | _ => false
  | kind => kind.spelling? = some token.text

private theorem isReadable_of_spelling? {kind : Kind} {text : String}
    (htext : kind.spelling? = some text) : isReadable ⟨kind, text⟩ = true := by
  cases kind with
  | eof | ident | int | string | illegal => cases htext
  | _ => exact decide_eq_true htext

theorem Written.isReadable {token : Token} {cs : List Char} (htoken : Written token cs) :
    token.isReadable = true := by
  cases htoken with
  | @word c cs hc hcs =>
    rcases Kind.spelling?_ofWord (.ofList (c :: cs)) with hkind | htext
    · simp only [Token.isReadable, isName, hkind, String.toList_ofList, List.head?_cons,
        Option.any_some, List.all_cons, hc, hcs, isWordPart_of_isWordStart hc]
      rfl
    · exact isReadable_of_spelling? htext
  | number hc hcs => simp [Token.isReadable, hc, hcs, ← String.toList_eq_nil_iff]
  | string hcs => simpa [Token.isReadable] using hcs
  | equal => rfl
  | notEqual => rfl
  | @single c hspace hword hdigit hquote =>
    rcases Kind.spelling?_ofChar c with hkind | htext
    · have hstarts := startsToken_eq_false_iff.mpr ⟨hword, hdigit, hquote, hkind⟩
      simp [Token.isReadable, hkind, hstarts, hspace]
    · exact isReadable_of_spelling? htext

/-- The tokens that can be written are told by their class and their text. -/
theorem legible_iff_isReadable {token : Token} : token.Legible ↔ token.isReadable = true := by
  refine ⟨fun ⟨_, htoken⟩ => htoken.isReadable, fun htoken => ?_⟩
  obtain ⟨kind, text⟩ := token
  cases kind with
  | eof => cases htoken
  | ident => exact legible_name htoken
  | int =>
    simp only [isReadable, Bool.and_eq_true, decide_eq_true_eq] at htoken
    exact legible_digits htoken.1 htoken.2
  | string => exact legible_string htoken
  | illegal =>
    simp only [isReadable] at htoken
    split at htoken
    · rename_i c htext
      simp only [Bool.and_eq_true, Bool.not_eq_true'] at htoken
      obtain rfl : text = .singleton c := String.toList_inj.mp (by simp [htext])
      exact legible_illegal htoken.1 htoken.2
    · cases htoken
  | _ => exact legible_of_spelling? (of_decide_eq_true htoken)

theorem Legible.isName {name : String} (htoken : Legible ⟨.ident, name⟩) : isName name = true :=
  legible_iff_isReadable.mp htoken

theorem Legible.all_isDigit {literal : String} (htoken : Legible ⟨.int, literal⟩) :
    literal.toList.all Char.isDigit = true :=
  (Bool.and_eq_true_iff.mp (legible_iff_isReadable.mp htoken)).2

theorem Legible.all_isStringPart {content : String} (htoken : Legible ⟨.string, content⟩) :
    content.toList.all isStringPart = true :=
  legible_iff_isReadable.mp htoken

end Token

/-- Tokens each of which can be written. -/
def Legible (tokens : List Token) : Prop := ∀ token ∈ tokens, token.Legible

namespace Legible

theorem nil : Legible [] := by simp [Legible]

theorem cons {token : Token} {tokens : List Token} (htoken : token.Legible)
    (htokens : Legible tokens) : Legible (token :: tokens) :=
  List.forall_mem_cons.mpr ⟨htoken, htokens⟩

theorem spelling {kind : Kind} {text : String} {tokens : List Token}
    (htext : kind.spelling? = some text) (htokens : Legible tokens) :
    Legible (⟨kind, text⟩ :: tokens) :=
  cons (Token.legible_of_spelling? htext) htokens

theorem append {front back : List Token} (hfront : Legible front) (hback : Legible back) :
    Legible (front ++ back) :=
  List.forall_mem_append.mpr ⟨hfront, hback⟩

theorem head {token : Token} {tokens : List Token} (hlegible : Legible (token :: tokens)) :
    token.Legible :=
  (List.forall_mem_cons.mp hlegible).1

theorem tail {token : Token} {tokens : List Token} (hlegible : Legible (token :: tokens)) :
    Legible tokens :=
  (List.forall_mem_cons.mp hlegible).2

theorem left {front back : List Token} (hlegible : Legible (front ++ back)) : Legible front :=
  (List.forall_mem_append.mp hlegible).1

theorem right {front back : List Token} (hlegible : Legible (front ++ back)) : Legible back :=
  (List.forall_mem_append.mp hlegible).2

end Legible

end MonkeyLang
