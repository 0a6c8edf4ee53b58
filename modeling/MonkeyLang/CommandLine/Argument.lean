namespace MonkeyLang

/-- The reasons for which the arguments of the command line are not carried out. -/
inductive Refusal where
  | help (long : Bool)
  | unexpected (arg : String)
  | unexpectedValue (value : String)
  | missing (name : String)
  | repeated (name : String)
deriving DecidableEq

/-- A single argument of the command line, taken by itself. -/
inductive Argument where
  | code (attached : Option String)
  | noHistory
  | onlyPathsFollow
  | path (path : String)
  | refused (refusal : Refusal)
deriving DecidableEq

/-- The name and the value of an option that is written out. An equals sign stands between
them. -/
def splitOption (chars : List Char) : String × Option String :=
  match chars.span (· ≠ '=') with
  | (name, []) => (String.ofList name, none)
  | (name, _ :: value) => (String.ofList name, some (String.ofList value))

/-- Reads an option that is written out, without its two dashes. -/
def Argument.ofLong (chars : List Char) : Argument :=
  match splitOption chars with
  | ("code", value) => .code value
  | ("no-history", none) => .noHistory
  | ("no-history", some value) => .refused (.unexpectedValue value)
  | ("help", none) => .refused (.help true)
  | (name, _) => .refused (.unexpected ("--" ++ name))

/-- Reads an option of one letter. What follows the letter is its value, after an equals
sign if there is one. -/
def Argument.ofShort (letter : Char) (rest : List Char) : Argument :=
  match letter, rest with
  | 'c', [] => .code none
  | 'c', '=' :: value => .code (some (String.ofList value))
  | 'c', value => .code (some (String.ofList value))
  | 'h', _ => .refused (.help false)
  | letter, _ => .refused (.unexpected ("-" ++ letter.toString))

/-- Reads an argument. A dash alone is a path, and two dashes leave only paths behind
them. -/
def Argument.of (arg : String) : Argument :=
  match arg.toList with
  | ['-', '-'] => .onlyPathsFollow
  | '-' :: '-' :: chars => .ofLong chars
  | '-' :: letter :: rest => .ofShort letter rest
  | _ => .path arg

/-- Whether an argument can be the value of the option before it. -/
def Argument.isValue : Argument → Bool
  | path _ => true
  | _ => false

end MonkeyLang
