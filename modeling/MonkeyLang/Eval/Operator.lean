import MonkeyLang.Heap

namespace MonkeyLang

/-- Applies a unary operator. Every value can be negated logically, and only integers
arithmetically. -/
def UnaryOp.apply : UnaryOp → Value → Except Fault Value
  | .not, operand => .ok (.bool !operand.truthy)
  | .negate, .int x => .ok (.int (-x))
  | .negate, operand => .error (.operand .negate operand.type)

namespace BinaryOp

/-- Applies a binary operator to integers. Arithmetic wraps around and division drops the
fraction. -/
def applyInt (op : BinaryOp) (x y : Int64) : Except Fault Value :=
  match op with
  | add => .ok (.int (x + y))
  | sub => .ok (.int (x - y))
  | mul => .ok (.int (x * y))
  | div => if y = 0 then .error .divisionByZero else .ok (.int (x / y))
  | less => .ok (.bool (decide (x < y)))
  | greater => .ok (.bool (decide (y < x)))
  | equal => .ok (.bool (x == y))
  | notEqual => .ok (.bool (x != y))

/-- The operands other than integers that can be compared: null with anything, and
booleans with each other. -/
def comparable : Value → Value → Bool
  | .null, _ => true
  | _, .null => true
  | .bool _, .bool _ => true
  | _, _ => false

/-- The fault of an operator that does not take its operands. -/
def refuse (op : BinaryOp) (left right : Value) : Fault :=
  if left.type = right.type then .operands op left.type else .mismatch left.type op right.type

/-- Applies a binary operator. -/
def apply (op : BinaryOp) (left right : Value) : Except Fault Value :=
  match left, op, right with
  | .int x, op, .int y => op.applyInt x y
  | .string x, .add, .string y => .ok (.string (x ++ y))
  | left, .equal, right =>
    if comparable left right then .ok (.bool (left.same right))
    else .error (refuse .equal left right)
  | left, .notEqual, right =>
    if comparable left right then .ok (.bool !left.same right)
    else .error (refuse .notEqual left right)
  | left, op, right => .error (refuse op left right)

end BinaryOp

/-- The element of an array or the value of a hash at an index. Where there is none the
result is null. -/
def Heap.subscript (heap : Heap) (left index : Value) : Except Fault Value :=
  match left, index with
  | .array id, .int i =>
    .ok (if 0 ≤ i.toInt then ((heap.sequence id).get? i.toInt.toNat).getD .null else .null)
  | .hash id, index => index.hashKey.map fun key =>
    (((heap.contents id).get? key).map Entry.value).getD .null
  | left, _ => .error (.notIndexable left.type)

end MonkeyLang
