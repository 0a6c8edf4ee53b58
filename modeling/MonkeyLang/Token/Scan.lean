import MonkeyLang.Token

namespace MonkeyLang

/-- The characters that may separate tokens. -/
def isSpace (c : Char) : Bool :=
  c = ' ' || c = '\t' || c = '\r' || c = '\n'

/-- The characters that begin a word: ASCII letters and the underscore. -/
def isWordStart (c : Char) : Bool := c.isAlpha || c = '_'

/-- The characters that continue a word: those that begin one, and ASCII digits. -/
def isWordPart (c : Char) : Bool := c.isAlphanum || c = '_'

/-- Everything but the quote, which ends a string wherever it stands. -/
def isStringPart (c : Char) : Bool := c != '\x22'

namespace Token

/-- The longest token that begins with `c`, and the text behind it. A string that is
never closed takes the rest of the input. -/
def startingWith (c : Char) (cs : List Char) : Token × List Char :=
  if isWordStart c then
    let word := String.ofList (c :: cs.takeWhile isWordPart)
    (⟨.ofWord word, word⟩, cs.dropWhile isWordPart)
  else if c.isDigit then
    (⟨.int, String.ofList (c :: cs.takeWhile Char.isDigit)⟩, cs.dropWhile Char.isDigit)
  else if c = '\x22' then
    (⟨.string, String.ofList (cs.takeWhile isStringPart)⟩, (cs.dropWhile isStringPart).drop 1)
  else
    match c, cs with
    | '=', '=' :: rest => (⟨.equal, "=="⟩, rest)
    | '!', '=' :: rest => (⟨.notEqual, "!="⟩, rest)
    | _, _ => (⟨.ofChar c, String.singleton c⟩, cs)

private theorem length_startingWith_le (c : Char) (cs : List Char) :
    (startingWith c cs).2.length ≤ cs.length := by
  have hword := (List.dropWhile_sublist isWordPart (l := cs)).length_le
  have hdigit := (List.dropWhile_sublist Char.isDigit (l := cs)).length_le
  have hstring := (List.dropWhile_sublist isStringPart (l := cs)).length_le
  unfold startingWith
  split
  · exact hword
  split
  · exact hdigit
  split
  · simp only [List.length_drop]
    omega
  split <;> simp

/-- The first token of a text and what follows it. There is none if the text is
white space only. -/
def scan (cs : List Char) : Option (Token × List Char) :=
  match cs.dropWhile isSpace with
  | [] => none
  | c :: rest => some (startingWith c rest)

theorem length_lt_of_scan {cs rest : List Char} {token : Token}
    (hscan : scan cs = some (token, rest)) : rest.length < cs.length := by
  have hskip := (List.dropWhile_sublist isSpace (l := cs)).length_le
  unfold scan at hscan
  split at hscan
  · cases hscan
  case _ c tail htail =>
    have hrest := length_startingWith_le c tail
    simp only [Option.some.injEq] at hscan
    simp only [hscan] at hrest
    simp only [htail, List.length_cons] at hskip
    omega

/-- Reads one token. At the end of the text this is the end-of-input token, however
often it is asked for. -/
def next (cs : List Char) : Token × List Char := (scan cs).getD (eof, [])

/-- All tokens of a text, closed by one end-of-input token. -/
def scanAll (cs : List Char) : List Token :=
  match _hscan : scan cs with
  | none => [eof]
  | some (token, rest) => token :: scanAll rest
termination_by cs.length
decreasing_by exact length_lt_of_scan _hscan

end Token

/-- The tokens of a source text. This never fails, because a character that begins no
token is a token by itself. -/
def tokenize (code : String) : List Token := Token.scanAll code.toList

end MonkeyLang
