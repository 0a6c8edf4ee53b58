import MonkeyLang.Output

namespace MonkeyLang

/-- Writing piece by piece, which ends at the first piece that there is no room for. -/
abbrev Printing := EStateM Unit Output Unit

namespace Printing

/-- Writes a text. -/
def text (text : String) : Printing := fun output =>
  match output.write text with
  | (true, output) => .ok () output
  | (false, output) => .error () output

/-- Writes several things with a text between them. -/
def separated (separator : String) : List Printing → Printing
  | [] => pure ()
  | [item] => item
  | item :: rest => do
    item
    text separator
    separated separator rest

private theorem text_empty : text "" = pure () := by
  funext output
  obtain ⟨written, limit⟩ := output
  cases limit with
  | none => simp [text, Output.write, Output.room, pure, EStateM.pure]
  | some limit =>
    have hempty : ByteArray.empty.extract 0 (limit - written.size) = ByteArray.empty :=
      ByteArray.extract_eq_empty_iff.mpr (by simp)
    simp [text, Output.write, Output.room, pure, EStateM.pure, hempty]

theorem text_append (first second : String) :
    text (first ++ second) = (do text first; text second) := by
  funext output
  simp only [text, Output.write_append, bind, EStateM.bind]
  rcases output.write first with ⟨_ | _, output⟩ <;> rfl

theorem separated_map_text {α : Type} (separator : String) (render : α → String) (items : List α) :
    separated separator (items.map fun item => text (render item)) =
      text (separator.intercalate (items.map render)) := by
  induction items with
  | nil => simp [separated, text_empty]
  | cons item rest ih =>
    cases rest with
    | nil => simp [separated]
    | cons next rest =>
      simp only [List.map_cons, separated, String.intercalate_cons_cons, text_append] at ih ⊢
      rw [ih, bind_assoc]

end Printing

end MonkeyLang
