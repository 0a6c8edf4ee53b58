namespace MonkeyLang

/-- The classes of tokens. Every keyword and every operator is a class of its own,
so the parser never looks at the text of those. -/
inductive Kind where
  | illegal | eof
  | ident | int | string
  | assign | plus | minus | bang | asterisk | slash
  | less | greater | equal | notEqual | question
  | comma | semicolon | colon
  | lparen | rparen | lbrace | rbrace | lbracket | rbracket
  | kwFn | kwLet | kwTrue | kwFalse | kwIf | kwElse | kwReturn | kwNull
deriving DecidableEq

namespace Kind

/-- The name by which messages mention a class of tokens. -/
def name : Kind → String
  | illegal => "ILLEGAL"
  | eof => "EOF"
  | ident => "IDENT"
  | int => "INT"
  | string => "STRING"
  | assign => "="
  | plus => "+"
  | minus => "-"
  | bang => "!"
  | asterisk => "*"
  | slash => "/"
  | less => "<"
  | greater => ">"
  | equal => "=="
  | notEqual => "!="
  | question => "?"
  | comma => ","
  | semicolon => ";"
  | colon => ":"
  | lparen => "("
  | rparen => ")"
  | lbrace => "\x7b"
  | rbrace => "\x7d"
  | lbracket => "["
  | rbracket => "]"
  | kwFn => "FUNCTION"
  | kwLet => "LET"
  | kwTrue => "TRUE"
  | kwFalse => "FALSE"
  | kwIf => "IF"
  | kwElse => "ELSE"
  | kwReturn => "RETURN"
  | kwNull => "NULL"

/-- The class of a word: its keyword, or an identifier if it is none. -/
def ofWord (word : String) : Kind :=
  match word with
  | "fn" => kwFn
  | "let" => kwLet
  | "true" => kwTrue
  | "false" => kwFalse
  | "if" => kwIf
  | "else" => kwElse
  | "return" => kwReturn
  | "null" => kwNull
  | _ => ident

/-- The class of a token that is a single character of punctuation. A character
that begins no token at all is illegal. -/
def ofChar (c : Char) : Kind :=
  match c with
  | '=' => assign
  | '+' => plus
  | '-' => minus
  | '!' => bang
  | '*' => asterisk
  | '/' => slash
  | '<' => less
  | '>' => greater
  | '?' => question
  | ',' => comma
  | ';' => semicolon
  | ':' => colon
  | '(' => lparen
  | ')' => rparen
  | '\x7b' => lbrace
  | '\x7d' => rbrace
  | '[' => lbracket
  | ']' => rbracket
  | _ => illegal

/-- The three opening brackets. -/
def isOpening : Kind → Bool
  | lparen | lbrace | lbracket => true
  | _ => false

/-- The three closing brackets. -/
def isClosing : Kind → Bool
  | rparen | rbrace | rbracket => true
  | _ => false

end Kind

/-- A token is a class together with the text it was read from. The text of a
string leaves out the quotes, and the end of the input has none. -/
structure Token where
  kind : Kind
  text : String
deriving DecidableEq

/-- The token at the end of every input. -/
def Token.eof : Token := ⟨.eof, ""⟩

/-- The class of the next token. A list that has run out reads as the end of input. -/
def nextKind : List Token → Kind
  | [] => .eof
  | token :: _ => token.kind

end MonkeyLang
