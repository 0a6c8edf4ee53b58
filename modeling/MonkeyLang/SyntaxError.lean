import MonkeyLang.Token

namespace MonkeyLang

/-- The reasons for which a statement cannot be read. Each one names the token at which
reading stopped. -/
inductive SyntaxError where
  /-- The construct begun so far can only go on with another class of token. -/
  | expected (wanted found : Kind)
  /-- An expression was due and this class of token begins none. -/
  | noOperand (found : Kind)
  /-- The literal is no signed 64-bit decimal number. -/
  | integer (literal : String)
deriving DecidableEq

/-- The wording of a syntax error. -/
def SyntaxError.message : SyntaxError → String
  | expected wanted found =>
    "expected next token to be " ++ wanted.name ++ ", got " ++ found.name ++ " instead"
  | noOperand found => "no prefix parse function for " ++ found.name ++ " found"
  | integer literal => "could not parse " ++ literal ++ " as integer"

end MonkeyLang
