import Mathlib.Data.Int.ModEq
import MonkeyLang.Eval

namespace MonkeyLang

/-- What becomes of an exact number in 64 bits: a number in range that differs from it by a multiple
of 2^64. -/
structure Wraps (exact wrapped : Int) : Prop where
  lower : -2 ^ 63 ≤ wrapped
  upper : wrapped < 2 ^ 63
  congruent : wrapped ≡ exact [ZMOD 2 ^ 64]

/-- Every number wraps to exactly one number. -/
theorem wraps_iff {exact wrapped : Int} :
    Wraps exact wrapped ↔ wrapped = (Int64.ofInt exact).toInt := by
  have hsize : (0 : Nat) < Int64.size := by decide
  rw [Int64.toInt_ofInt, eq_comm, Int.bmod_eq_iff hsize]
  constructor
  · rintro ⟨hlower, hupper, hcongruent⟩
    have hdvd := hcongruent.symm.dvd
    refine ⟨?_, ?_, ?_⟩ <;> simp only [Int64.size] <;> omega
  · rintro ⟨hlower, hupper, hdvd⟩
    simp only [Int64.size] at hlower hupper hdvd
    exact ⟨by omega, by omega, (Int.modEq_iff_dvd.mpr (by omega)).symm⟩

namespace Expr

/-- The exact value of an expression that is made of integer literals with negations, sums,
differences and products. -/
inductive Denotes : Expr → Int → Prop where
  | int (value : Int64) : Denotes (.int value) value.toInt
  | negate {operand : Expr} {n : Int} (hoperand : Denotes operand n) :
      Denotes (.unary .negate operand) (-n)
  | add {left right : Expr} {m n : Int} (hleft : Denotes left m) (hright : Denotes right n) :
      Denotes (.binary left .add right) (m + n)
  | sub {left right : Expr} {m n : Int} (hleft : Denotes left m) (hright : Denotes right n) :
      Denotes (.binary left .sub right) (m - n)
  | mul {left right : Expr} {m n : Int} (hleft : Denotes left m) (hright : Denotes right n) :
      Denotes (.binary left .mul right) (m * n)

/-- An expression that is made of integer literals with negations and the four operations of
arithmetic. -/
inductive Arithmetic : Expr → Prop where
  | int (value : Int64) : Arithmetic (.int value)
  | negate {operand : Expr} (hoperand : Arithmetic operand) : Arithmetic (.unary .negate operand)
  | binary {left right : Expr} {op : BinaryOp} (hop : op ∈ [.add, .sub, .mul, .div])
      (hleft : Arithmetic left) (hright : Arithmetic right) : Arithmetic (.binary left op right)

end Expr

private theorem evalExpr_int (run : Nat → Block → Eval Value) (scope : Nat) (value : Int64)
    (state : State) : evalExpr run scope (.int value) state = .ok (.int value) state := by
  rw [evalExpr]
  rfl

section

variable {run : Nat → Block → Eval Value} {scope : Nat} {state middle after : State}

private theorem evalExpr_negate {operand : Expr} {x : Int64}
    (hoperand : evalExpr run scope operand state = .ok (.int x) after) :
    evalExpr run scope (.unary .negate operand) state = .ok (.int (-x)) after := by
  simp only [evalExpr, bind, EStateM.bind, hoperand]
  rfl

/-- The operands of an operator are evaluated one after the other, and it depends on nothing but
their values. -/
theorem evalExpr_binary {left right : Expr} {op : BinaryOp} {x y : Int64}
    (hleft : evalExpr run scope left state = .ok (.int x) middle)
    (hright : evalExpr run scope right middle = .ok (.int y) after) :
    evalExpr run scope (.binary left op right) state =
      Eval.ofExcept (op.applyInt x y) after := by
  simp only [evalExpr, bind, EStateM.bind, hleft, hright]
  rfl

private theorem evalExpr_binary_of_ok {left right : Expr} {op : BinaryOp} {x y : Int64}
    {value : Value} (hleft : evalExpr run scope left state = .ok (.int x) middle)
    (hright : evalExpr run scope right middle = .ok (.int y) after)
    (hvalue : op.applyInt x y = .ok value) :
    evalExpr run scope (.binary left op right) state = .ok value after := by
  rw [evalExpr_binary hleft hright, hvalue]
  rfl

end

/-- Wrapping around at every step comes to the same as wrapping around once, at the end. -/
theorem Expr.Denotes.evalExpr {expr : Expr} {exact : Int} (hexpr : expr.Denotes exact)
    (run : Nat → Block → Eval Value) (scope : Nat) (state : State) :
    MonkeyLang.evalExpr run scope expr state = .ok (.int (.ofInt exact)) state := by
  induction hexpr with
  | int value => rw [evalExpr_int, Int64.ofInt_toInt]
  | negate _ ih => rw [evalExpr_negate ih, Int64.ofInt_neg]
  | add _ _ ihleft ihright =>
    rw [Int64.ofInt_add]
    exact evalExpr_binary_of_ok ihleft ihright rfl
  | sub _ _ ihleft ihright =>
    rw [Int64.ofInt_sub]
    exact evalExpr_binary_of_ok ihleft ihright rfl
  | mul _ _ ihleft ihright =>
    rw [Int64.ofInt_mul]
    exact evalExpr_binary_of_ok ihleft ihright rfl

namespace BinaryOp

theorem applyInt_div {x y : Int64} (hy : y ≠ 0) :
    applyInt .div x y = .ok (.int (.ofInt (x.toInt.tdiv y.toInt))) := by
  have hquotient : x / y = .ofInt (x.toInt.tdiv y.toInt) := by
    rw [eq_comm, Int64.ofInt_eq_iff_bmod_eq_toInt, Int64.toInt_div]
  rw [applyInt, if_neg hy, hquotient]

/-- The type of what an operator makes of integers. -/
def resultType : BinaryOp → ValueType
  | add | sub | mul | div => .integer
  | less | greater | equal | notEqual => .boolean

/-- Operators on integers fail in one way only. -/
theorem applyInt_cases (op : BinaryOp) (x y : Int64) :
    (∃ value, op.applyInt x y = .ok value ∧ value.type = op.resultType) ∨
      op.applyInt x y = .error .divisionByZero := by
  cases op with
  | add | sub | mul | less | greater | equal | notEqual => exact .inl ⟨_, rfl, rfl⟩
  | div =>
    by_cases hy : y = 0
    · exact .inr (if_pos hy)
    · exact .inl ⟨_, applyInt_div hy, rfl⟩

end BinaryOp

/-- In every state an expression comes to a value of a certain type, unless something is divided by
zero. The state stays as it is. -/
def Calculates (run : Nat → Block → Eval Value) (scope : Nat) (expr : Expr) (type : ValueType) :
    Prop :=
  ∀ state, (∃ value, evalExpr run scope expr state = .ok value state ∧ value.type = type) ∨
    evalExpr run scope expr state = .error (.fault .divisionByZero) state

theorem Value.eq_int_of_type {value : Value} (htype : value.type = .integer) :
    ∃ x, value = .int x := by
  cases value with
  | int x => exact ⟨x, rfl⟩
  | bool | string | null | array | hash | function | builtin | error => cases htype

namespace Calculates

variable {run : Nat → Block → Eval Value} {scope : Nat}

theorem negate {operand : Expr} (hoperand : Calculates run scope operand .integer) :
    Calculates run scope (.unary .negate operand) .integer := by
  intro state
  rcases hoperand state with ⟨value, hvalue, htype⟩ | hzero
  · obtain ⟨x, rfl⟩ := Value.eq_int_of_type htype
    exact .inl ⟨_, evalExpr_negate hvalue, rfl⟩
  · refine .inr ?_
    simp only [evalExpr, bind, EStateM.bind, hzero]

theorem binary {left right : Expr} (hleft : Calculates run scope left .integer)
    (hright : Calculates run scope right .integer) (op : BinaryOp) :
    Calculates run scope (.binary left op right) op.resultType := by
  intro state
  rcases hleft state with ⟨value, hvalue, htype⟩ | hzero
  · obtain ⟨x, rfl⟩ := Value.eq_int_of_type htype
    rcases hright state with ⟨other, hother, htype⟩ | hzero
    · obtain ⟨y, rfl⟩ := Value.eq_int_of_type htype
      rcases op.applyInt_cases x y with ⟨result, hresult, htype⟩ | hzero
      · exact .inl ⟨result, evalExpr_binary_of_ok hvalue hother hresult, htype⟩
      · rw [evalExpr_binary hvalue hother, hzero]
        exact .inr rfl
    · refine .inr ?_
      simp only [evalExpr, bind, EStateM.bind, hvalue, hzero]
  · refine .inr ?_
    simp only [evalExpr, bind, EStateM.bind, hzero]

theorem arithmetic {expr : Expr} (hexpr : expr.Arithmetic) :
    Calculates run scope expr .integer := by
  induction hexpr with
  | int value => exact fun state => .inl ⟨_, evalExpr_int run scope value state, rfl⟩
  | negate _ ih => exact ih.negate
  | @binary left right op hop _ _ ihleft ihright =>
    have hresult : op.resultType = .integer := by
      simp only [List.mem_cons, List.not_mem_nil, or_false] at hop
      rcases hop with rfl | rfl | rfl | rfl <;> rfl
    rw [← hresult]
    exact ihleft.binary ihright op

end Calculates

/-- Arithmetic goes modulo 2^64. However negations, sums, differences and products are nested, the
result is the one number in range that wraps the exact value. A quotient drops its fraction and
wraps around, and comparisons are those of the numbers themselves. Only division by zero fails. -/
theorem arithmetic_wraps_around (run : Nat → Block → Eval Value) (scope : Nat) :
    (∀ expr exact, expr.Denotes exact → ∀ state, ∃ value : Int64,
      evalExpr run scope expr state = .ok (.int value) state ∧
      ∀ n, Wraps exact n ↔ n = value.toInt) ∧
    (∀ left right x y state middle after,
      evalExpr run scope left state = .ok (.int x) middle →
      evalExpr run scope right middle = .ok (.int y) after →
      let outcome op := evalExpr run scope (.binary left op right) state
      (y = 0 → outcome .div = .error (.fault .divisionByZero) after) ∧
      (y ≠ 0 → ∃ value : Int64, outcome .div = .ok (.int value) after ∧
        ∀ n, Wraps (x.toInt.tdiv y.toInt) n ↔ n = value.toInt) ∧
      outcome .less = .ok (.bool (x.toInt < y.toInt)) after ∧
      outcome .greater = .ok (.bool (x.toInt > y.toInt)) after ∧
      outcome .equal = .ok (.bool (x.toInt = y.toInt)) after ∧
      outcome .notEqual = .ok (.bool (x.toInt ≠ y.toInt)) after) ∧
    (∀ expr, expr.Arithmetic → Calculates run scope expr .integer) ∧
    (∀ left right op, left.Arithmetic → right.Arithmetic →
      Calculates run scope (.binary left op right) op.resultType) ∧
    Fault.divisionByZero.message = "division by zero" := by
  refine ⟨fun expr exact hexpr state => ?_, ?_, fun expr => .arithmetic, ?_, rfl⟩
  · exact ⟨_, hexpr.evalExpr run scope state, fun n => wraps_iff⟩
  · intro left right x y state middle after hleft hright outcome
    have happly (op : BinaryOp) {value : Value} (hvalue : op.applyInt x y = .ok value) :
        outcome op = .ok value after := evalExpr_binary_of_ok hleft hright hvalue
    refine ⟨fun hy => ?_, fun hy => ⟨_, happly .div (BinaryOp.applyInt_div hy), fun n => wraps_iff⟩,
      happly .less ?_, happly .greater ?_, happly .equal ?_, happly .notEqual ?_⟩
    · change evalExpr run scope (.binary left .div right) state = _
      rw [evalExpr_binary hleft hright, BinaryOp.applyInt, if_pos hy]
      rfl
    · simp only [BinaryOp.applyInt, Int64.lt_iff_toInt_lt]
    · simp only [BinaryOp.applyInt, Int64.lt_iff_toInt_lt, gt_iff_lt]
    · simp only [BinaryOp.applyInt, Int64.toInt_inj]
      rfl
    · simp only [BinaryOp.applyInt, Int64.toInt_inj, ne_eq, decide_not]
      rfl
  · exact fun left right op hleft hright => (Calculates.arithmetic hleft).binary
      (.arithmetic hright) op

/-- The lowest number is its own negation, and it is also what comes of dividing it by -1. -/
theorem arithmetic_wraps_around_lowest :
    let lowest : Expr := .binary (.unary .negate (.int 9223372036854775807)) .sub (.int 1)
    let quotient : Expr := .binary lowest .div (.int (-1))
    (Expr.unary .negate lowest).Denotes (2 ^ 63) ∧ quotient.Arithmetic ∧
    evalExpr (runBody 0) 0 (.unary .negate lowest) {} = .ok (.int Int64.minValue) {} ∧
    evalExpr (runBody 0) 0 quotient {} = .ok (.int Int64.minValue) {} ∧
    evalExpr (runBody 0) 0 (.binary quotient .div (.int 0)) {} =
      .error (.fault .divisionByZero) {} ∧
    evalExpr (runBody 0) 0 (.binary quotient .less (.int 0)) {} = .ok (.bool true) {} := by
  intro lowest quotient
  obtain ⟨hring, hdivide, -⟩ := arithmetic_wraps_around (runBody 0) 0
  have hlowest : lowest.Denotes (-(9223372036854775807 : Int64).toInt - (1 : Int64).toInt) :=
    .sub (.negate (.int _)) (.int _)
  have hnegated : (Expr.unary .negate lowest).Denotes (2 ^ 63) := hlowest.negate
  have hquotient : quotient.Arithmetic :=
    .binary (by decide) (.binary (by decide) (.negate (.int _)) (.int _)) (.int _)
  -- A result is known once a single number is known to wrap the exact value.
  have hmin {exact : Int} {value : Int64} (hvalue : ∀ n, Wraps exact n ↔ n = value.toInt)
      (hwraps : Wraps exact (-2 ^ 63)) : value = Int64.minValue :=
    Int64.toInt_inj.mp ((hvalue _).mp hwraps).symm
  obtain ⟨value, heval, hvalue⟩ := hring _ _ hnegated {}
  cases hmin hvalue ⟨by decide, by decide, by decide⟩
  obtain ⟨value, hleft, hvalue⟩ := hring _ _ hlowest {}
  cases hmin hvalue ⟨by decide, by decide, by decide⟩
  have hint (x : Int64) := evalExpr_int (runBody 0) 0 x {}
  obtain ⟨-, hnonzero, -⟩ := hdivide lowest _ _ _ _ _ _ hleft (hint (-1))
  obtain ⟨value, hquotient', hvalue⟩ := hnonzero (by decide)
  cases hmin hvalue ⟨by decide, by decide, by decide⟩
  obtain ⟨hzero, -, hless, -⟩ := hdivide quotient _ _ _ _ _ _ hquotient' (hint 0)
  exact ⟨hnegated, hquotient, heval, hquotient', hzero rfl, hless⟩

end MonkeyLang
