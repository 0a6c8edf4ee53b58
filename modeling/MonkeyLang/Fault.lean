import MonkeyLang.Expr

namespace MonkeyLang

/-- The types that values have at run time. -/
inductive ValueType where
  | integer | boolean | string | null | array | hash | function | builtin | error
deriving DecidableEq

/-- The name by which messages mention a type. -/
def ValueType.name : ValueType → String
  | integer => "INTEGER"
  | boolean => "BOOLEAN"
  | string => "STRING"
  | null => "NULL"
  | array => "ARRAY"
  | hash => "HASH"
  | function => "FUNCTION"
  | builtin => "BUILTIN"
  | error => "ERROR"

/-- The functions that are part of the language. -/
inductive Builtin where
  | len | first | last | rest | push | set | puts | sputs
deriving DecidableEq

namespace Builtin

/-- The name under which a builtin function is found. -/
def name : Builtin → String
  | len => "len"
  | first => "first"
  | last => "last"
  | rest => "rest"
  | push => "push"
  | set => "set"
  | puts => "puts"
  | sputs => "sputs"

/-- The builtin function of a given name. -/
def ofName? (word : String) : Option Builtin :=
  match word with
  | "len" => some len
  | "first" => some first
  | "last" => some last
  | "rest" => some rest
  | "push" => some push
  | "set" => some set
  | "puts" => some puts
  | "sputs" => some sputs
  | _ => none

end Builtin

/-- The reasons for which evaluation fails. -/
inductive Fault where
  | tooFew (expected received : Nat)
  | tooMany (expected received : Nat)
  /-- The operator does not take an operand of this type. -/
  | operand (op : UnaryOp) (type : ValueType)
  /-- The operator does not take two operands of this type. -/
  | operands (op : BinaryOp) (type : ValueType)
  /-- The operands have different types and the operator takes no such pair. -/
  | mismatch (left : ValueType) (op : BinaryOp) (right : ValueType)
  | unsupportedArg (callee : Builtin) (received : ValueType)
  | wrongArg (callee : Builtin) (expected received : ValueType)
  | emptyArray (callee : Builtin)
  | unbound (name : String)
  /-- A `let` may not take the name of a builtin function. -/
  | reserved (name : String)
  | notIndexable (type : ValueType)
  | notCallable (type : ValueType)
  | unhashable (type : ValueType)
  | divisionByZero
  | output
deriving DecidableEq

namespace Fault

/-- The wording of a fault. -/
def message : Fault → String
  | tooFew expected received =>
    "Too few arguments, expected " ++ expected.repr ++ ", got " ++ received.repr
  | tooMany expected received =>
    "Too many arguments, expected " ++ expected.repr ++ ", got " ++ received.repr
  | operand op type => "unknown operator: " ++ op.symbol ++ type.name
  | operands op type =>
    "unknown operator: " ++ type.name ++ " " ++ op.symbol ++ " " ++ type.name
  | mismatch left op right =>
    "type mismatch: " ++ left.name ++ " " ++ op.symbol ++ " " ++ right.name
  | unsupportedArg callee received =>
    "argument to `" ++ callee.name ++ "` not supported, got " ++ received.name
  | wrongArg callee expected received =>
    "argument to `" ++ callee.name ++ "` must be " ++ expected.name ++ ", got " ++ received.name
  | emptyArray callee => "argument to `" ++ callee.name ++ "` must be a non-empty ARRAY"
  | unbound name => "identifier not found: " ++ name
  | reserved name => "can't assign to " ++ name ++ ", it is a builtin function"
  | notIndexable type => "index operator not supported: " ++ type.name
  | notCallable type => "not a function: " ++ type.name
  | unhashable type => "unusable as hash key: " ++ type.name
  | divisionByZero => "division by zero"
  | output => "could not write output"

/-- The fault of a call whose argument count is not the expected one. -/
def arity (expected received : Nat) : Fault :=
  if received < expected then tooFew expected received else tooMany expected received

/-- Checks an argument count. -/
def arity? (expected received : Nat) : Option Fault :=
  if received = expected then none else some (arity expected received)

end Fault

end MonkeyLang
