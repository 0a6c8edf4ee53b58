import Mathlib.Data.List.Induction
import MonkeyLang.Decimal

namespace MonkeyLang.Decimal

theorem all_isDigit_toDigits (n : Nat) : (Nat.toDigits 10 n).all Char.isDigit = true := by
  rw [List.all_eq_true]
  intro c hc
  exact Nat.isDigit_of_mem_toDigits (by decide) (by decide) hc

private theorem readNat?_toDigits (n : Nat) : readNat? (Nat.toDigits 10 n) = some n := by
  rw [readNat?, if_pos ⟨Nat.toDigits_ne_nil, all_isDigit_toDigits n⟩, Nat.ofDigitChars_ten_toDigits]

private theorem readInt?_of_all_isDigit {cs : List Char} (hcs : cs.all Char.isDigit = true) :
    readInt? cs = (readNat? cs).map Int.ofNat := by
  unfold readInt?
  split
  · simp at hcs
  · simp at hcs
  · cases readNat? cs <;> rfl

theorem readInt?_repr (n : Int) : readInt? n.repr.toList = some n := by
  rw [Int.repr_eq_if]
  split
  · rename_i hsign
    rw [Nat.toList_repr, readInt?_of_all_isDigit (all_isDigit_toDigits _), readNat?_toDigits]
    exact congrArg some (Int.toNat_of_nonneg hsign)
  · rename_i hsign
    have hneg : -((-n).toNat : Int) = n := by omega
    rw [String.toList_append, Nat.toList_repr]
    simp only [String.reduceToList, List.singleton_append, readInt?]
    rw [readNat?_toDigits]
    exact congrArg some hneg

/-- Every number is read back from how it is written. -/
theorem read?_write (value : Int64) : read? (write value) = some value := by
  have hlow := value.minValue_le_toInt
  have hhigh := value.toInt_le
  rw [read?, write, readInt?_repr, Option.bind_some, if_pos ⟨hlow, hhigh⟩, Int64.ofInt_toInt]

theorem toList_write {value : Int64} (hvalue : 0 ≤ value.toInt) :
    (write value).toList = Nat.toDigits 10 value.toInt.toNat := by
  rw [write, Int.repr_eq_if, if_pos hvalue, Nat.toList_repr]

/-- Digits without a sign denote nothing below zero. -/
theorem toInt_nonneg_of_read? {text : String} {value : Int64}
    (hdigits : text.toList.all Char.isDigit = true) (hread : read? text = some value) :
    0 ≤ value.toInt := by
  rw [read?, readInt?_of_all_isDigit hdigits] at hread
  obtain ⟨n, hn, hvalue⟩ := Option.bind_eq_some_iff.mp hread
  obtain ⟨m, -, rfl⟩ := Option.map_eq_some_iff.mp hn
  split at hvalue
  · rename_i hrange
    have hsign : 0 ≤ Int.ofNat m := Int.natCast_nonneg m
    have hhigh := hrange.2
    rw [Int64.toInt_maxValue] at hhigh
    rw [← Option.some.inj hvalue, Int64.toInt_ofInt_of_le (by omega) (by omega)]
    exact hsign
  · cases hvalue

/-- Only the smallest number has a negation that is out of range. -/
theorem toInt_neg_of_ne_minValue {value : Int64} (hvalue : value ≠ Int64.minValue) :
    (-value).toInt = -value.toInt := by
  have hlow := value.minValue_le_toInt
  have hhigh := value.toInt_le
  have hne : value.toInt ≠ Int64.minValue.toInt := fun heq => hvalue (Int64.toInt_inj.mp heq)
  rw [Int64.toInt_maxValue] at hhigh
  rw [Int64.toInt_minValue] at hlow hne
  rw [Int64.toInt_neg, Int.bmod_eq_of_le (by omega) (by omega)]

/-- A number below zero is written as a minus sign and the number without it. -/
theorem write_of_neg {value : Int64} (hvalue : value ≠ Int64.minValue) (hneg : value.toInt < 0) :
    write value = "-" ++ write (-value) := by
  have hpositive := toInt_neg_of_ne_minValue hvalue
  rw [write, write, hpositive, Int.repr_eq_if, if_neg (by omega), Int.repr_eq_if, if_pos (by omega)]

/-- The number that digits denote. One digit more makes ten times as much of those before it. -/
inductive Digits : List Char → Nat → Prop where
  | one {c : Char} (hc : c.isDigit = true) : Digits [c] (c.toNat - '0'.toNat)
  | more {cs : List Char} {n : Nat} {c : Char} (hcs : Digits cs n) (hc : c.isDigit = true) :
      Digits (cs ++ [c]) (10 * n + (c.toNat - '0'.toNat))

/-- The number that digits behind at most one sign denote. -/
inductive Denotes : List Char → Int → Prop where
  | plain {cs : List Char} {n : Nat} (hcs : Digits cs n) : Denotes cs n
  | plus {cs : List Char} {n : Nat} (hcs : Digits cs n) : Denotes ('+' :: cs) n
  | minus {cs : List Char} {n : Nat} (hcs : Digits cs n) : Denotes ('-' :: cs) (-n)

private theorem digits_iff (cs : List Char) (n : Nat) :
    Digits cs n ↔ (cs ≠ [] ∧ cs.all Char.isDigit = true) ∧ Nat.ofDigitChars 10 cs 0 = n := by
  constructor
  · intro hdigits
    induction hdigits with
    | one hc => simp [hc, Nat.ofDigitChars_cons, Nat.ofDigitChars_nil]
    | more hcs hc ih =>
      obtain ⟨⟨-, hall⟩, rfl⟩ := ih
      simp [hc, List.all_append, hall, Nat.ofDigitChars_append, Nat.ofDigitChars_cons,
        Nat.ofDigitChars_nil]
  · rintro ⟨⟨hne, hall⟩, rfl⟩
    induction cs using List.reverseRecOn with
    | nil => contradiction
    | append_singleton cs c ih =>
      simp only [List.all_append, Bool.and_eq_true] at hall
      have hc : c.isDigit = true := by simpa using hall.2
      rw [Nat.ofDigitChars_append, Nat.ofDigitChars_cons, Nat.ofDigitChars_nil]
      by_cases hcs : cs = []
      · subst hcs
        rw [Nat.ofDigitChars_nil, Nat.mul_zero, Nat.zero_add]
        exact .one hc
      · exact .more (ih hcs hall.1) hc

theorem readNat?_eq_some_iff (cs : List Char) (n : Nat) : readNat? cs = some n ↔ Digits cs n := by
  rw [digits_iff, readNat?]
  split
  · rename_i hcs
    rw [Option.some_inj, and_iff_right hcs]
  · rename_i hcs
    exact iff_of_false nofun fun hdigits => hcs hdigits.1

theorem Denotes.readInt? {cs : List Char} {n : Int} (hcs : Denotes cs n) :
    readInt? cs = some n := by
  cases hcs with
  | plain hcs =>
    rw [readInt?_of_all_isDigit ((digits_iff _ _).mp hcs).1.2, (readNat?_eq_some_iff _ _).mpr hcs]
    rfl
  | plus hcs | minus hcs =>
    rw [Decimal.readInt?, (readNat?_eq_some_iff _ _).mpr hcs]
    rfl

theorem readInt?_eq_some_iff (cs : List Char) (n : Int) : readInt? cs = some n ↔ Denotes cs n := by
  refine ⟨fun hread => ?_, Denotes.readInt?⟩
  unfold readInt? at hread
  split at hread <;> obtain ⟨m, hm, rfl⟩ := Option.map_eq_some_iff.mp hread <;>
    obtain ⟨k, hk, hm⟩ := Option.bind_eq_some_iff.mp hm <;> cases hm
  · exact .minus ((readNat?_eq_some_iff _ _).mp hk)
  · exact .plus ((readNat?_eq_some_iff _ _).mp hk)
  · exact .plain ((readNat?_eq_some_iff _ _).mp hk)

/-- A text is refused if it denotes no number, and if the number it denotes is out of range. -/
theorem read?_eq_none_iff (text : String) :
    read? text = none ↔ ∀ n, Denotes text.toList n →
      ¬ (Int64.minValue.toInt ≤ n ∧ n ≤ Int64.maxValue.toInt) := by
  rw [read?, Option.bind_eq_none_iff]
  refine forall_congr' fun n => ?_
  rw [readInt?_eq_some_iff]
  refine forall_congr' fun _ => ?_
  split
  · rename_i hrange
    exact iff_of_false nofun (not_not_intro hrange)
  · rename_i hrange
    exact iff_of_true rfl hrange

end MonkeyLang.Decimal
