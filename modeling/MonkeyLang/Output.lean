namespace MonkeyLang

/-- A stream of bytes that may have room for a limited number of them only. -/
structure Output where
  written : ByteArray := .empty
  limit : Option Nat := none

namespace Output

/-- The number of bytes that a limited stream still accepts. -/
def room (output : Output) : Option Nat := output.limit.map (· - output.written.size)

/-- Writes as much of a text as there is room for. The answer tells whether all of it
was. -/
def write (output : Output) (text : String) : Bool × Output :=
  let bytes := text.toUTF8
  match output.room with
  | none => (true, { output with written := output.written ++ bytes })
  | some room =>
    (decide (bytes.size ≤ room), { output with written := output.written ++ bytes.extract 0 room })

/-- Writing two texts one after the other, the second one only if there was room for all of
the first one, is the same as writing both at once. -/
theorem write_append (output : Output) (first second : String) :
    output.write (first ++ second) =
      match output.write first with
      | (true, output) => output.write second
      | (false, output) => (false, output) := by
  obtain ⟨written, limit⟩ := output
  cases limit with
  | none => simp [write, room, ByteArray.append_assoc]
  | some limit =>
    simp only [write, room, Option.map_some, String.toUTF8_eq_toByteArray,
      String.toByteArray_append, ByteArray.size_append, ByteArray.extract_append, Nat.zero_sub]
    by_cases hroom : first.toByteArray.size ≤ limit - written.size
    · have hwhole : first.toByteArray.extract 0 (limit - written.size) = first.toByteArray := by
        rw [← Nat.max_eq_left hroom, ByteArray.extract_zero_max_size]
      have hleft : limit - (written.size + first.toByteArray.size) =
          limit - written.size - first.toByteArray.size := by omega
      have hboth : first.toByteArray.size + second.toByteArray.size ≤ limit - written.size ↔
          second.toByteArray.size ≤ limit - written.size - first.toByteArray.size := by omega
      simp only [hroom, decide_true, hwhole, Option.map_some, ByteArray.size_append, hleft, hboth,
        ByteArray.append_assoc]
    · have hnone : second.toByteArray.extract 0 (limit - written.size - first.toByteArray.size) =
          ByteArray.empty := ByteArray.extract_eq_empty_iff.mpr (by omega)
      have hmore : ¬ first.toByteArray.size + second.toByteArray.size ≤ limit - written.size := by
        omega
      simp only [hroom, hmore, decide_false, hnone, ByteArray.append_empty]

end Output

end MonkeyLang
