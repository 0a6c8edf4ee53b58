namespace MonkeyLang.Decimal

/-- The number that a run of ASCII digits denotes. An empty run denotes none. -/
def readNat? (cs : List Char) : Option Nat :=
  if cs ≠ [] ∧ cs.all Char.isDigit then some (Nat.ofDigitChars 10 cs 0) else none

/-- The number that digits behind at most one sign denote. -/
def readInt? (cs : List Char) : Option Int :=
  match cs with
  | '-' :: digits => (readNat? digits).map fun n => -(n : Int)
  | '+' :: digits => (readNat? digits).map fun n => (n : Int)
  | digits => (readNat? digits).map fun n => (n : Int)

/-- Reads a signed 64-bit number. A number outside that range is refused and not
wrapped. -/
def read? (text : String) : Option Int64 :=
  (readInt? text.toList).bind fun n =>
    if Int64.minValue.toInt ≤ n ∧ n ≤ Int64.maxValue.toInt then some (Int64.ofInt n) else none

/-- Writes a number with as few digits as it has, and a minus sign below zero. -/
def write (value : Int64) : String := value.toInt.repr

end MonkeyLang.Decimal
