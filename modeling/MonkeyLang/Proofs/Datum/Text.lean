import MonkeyLang.Proofs.Datum
import MonkeyLang.Proofs.Parser.Completeness
import MonkeyLang.Proofs.Source
import MonkeyLang.Value.Render

namespace MonkeyLang

namespace Heap

variable {heap : Heap} {trail : Trail}

theorem Enclosed.insert {datum : Datum} {container : Container}
    (htrail : heap.Enclosed (· ∈ trail) (sizeOf datum))
    (hdatum : heap.Represents datum container.value) {size : Nat} (hsize : size < sizeOf datum) :
    heap.Enclosed (· ∈ trail.insert container) size := by
  intro other hother
  exact htrail.enter hdatum hsize other (eq_or_mem_of_mem_insert hother)

private theorem renderWithin_atom (heap : Heap) (trail : Trail) (atom : Atom) :
    heap.renderWithin trail atom.value = atom.text := by
  rcases atom with number | (_ | _) <;> rw [Atom.value, renderWithin, Atom.text]

mutual

/-- A value is shown as what it stands for. None of its containers is met inside itself, so
nothing is only hinted at. -/
theorem Represents.renderWithin : {datum : Datum} → {value : Value} → {trail : Trail} →
    heap.Represents datum value → heap.Enclosed (· ∈ trail) (sizeOf datum) →
    heap.renderWithin trail value = datum.text
  | _, _, _, .null, _ => by rw [Heap.renderWithin, Datum.text]
  | _, _, _, .atom hvalue, _ => by rw [hvalue, renderWithin_atom, Datum.text]
  | .array items, .array id, _, .array hid hitems, htrail => by
    have harray : heap.Represents (.array items) (Container.array id).value := .array hid hitems
    have hmap := hitems.map_renderWithin (htrail.insert harray (by simp))
    rw [renderWithin_array, if_neg (htrail.not_around harray), elements, sequence_of_getElem? hid,
      hmap, Datum.text]
  | .hash pairs, .hash id, _, .hash hid hpairs, htrail => by
    have hhash : heap.Represents (.hash pairs) (Container.hash id).value := .hash hid hpairs
    have hmap := hpairs.map_renderWithin (htrail.insert hhash (by simp))
    rw [renderWithin_hash, if_neg (htrail.not_around hhash), contents_of_getElem? hid, hmap,
      Datum.text]

theorem RepresentsItems.map_renderWithin : {items : List Datum} → {values : List Value} →
    {trail : Trail} → heap.RepresentsItems items values →
    heap.Enclosed (· ∈ trail) (sizeOf items) →
    values.map (heap.renderWithin trail) = itemTexts items
  | _, _, _, .nil, _ => rfl
  | _, _, _, .cons hitem hitems, htrail => by
    rw [List.map_cons, hitem.renderWithin (htrail.of_le (by simp; omega)),
      hitems.map_renderWithin (htrail.of_le (by simp)), itemTexts]

theorem RepresentsPairs.map_renderWithin : {pairs : List (Atom × Datum)} →
    {entries : List (HashKey × Entry)} → {trail : Trail} → heap.RepresentsPairs pairs entries →
    heap.Enclosed (· ∈ trail) (sizeOf pairs) →
    (entries.map fun entry => heap.renderWithin trail entry.2.key ++ ": " ++
      heap.renderWithin trail entry.2.value) = pairTexts pairs
  | _, _, _, .nil, _ => rfl
  | _, _, _, .cons _ hkey hdatum hpairs, htrail => by
    rw [List.map_cons, hkey, renderWithin_atom, hdatum.renderWithin (htrail.of_le (by simp; omega)),
      hpairs.map_renderWithin (htrail.of_le (by simp)), pairTexts]

end

theorem Represents.render {datum : Datum} {value : Value} (hdatum : heap.Represents datum value) :
    heap.render value = datum.text :=
  hdatum.renderWithin fun container hcontainer => by simp at hcontainer

end Heap

open Grammar

namespace Token

theorem Spells.comma {cs next : List Char} {texts : List (List Char)} {tokens others : List Token}
    {parts : List (List Token)} (hfirst : Spells cs tokens)
    (hrest : Spells ([',', ' '].intercalate (next :: texts)) (commaTokens (others :: parts))) :
    Spells ([',', ' '].intercalate (cs :: next :: texts))
      (commaTokens (tokens :: others :: parts)) := by
  rw [commaTokens, List.intercalate_cons_cons, List.intercalate_cons_cons, List.append_assoc,
    List.append_assoc]
  exact hfirst.join rfl hrest.space

end Token

open Token

private theorem spells_atom : (atom : Atom) → Spells atom.text.toList atom.literal.tokens
  | .int number hnumber => by
    rw [Atom.text, Atom.literal]
    split
    · rename_i hsign
      exact (legible_number hsign).spells
    · -- The sign is a token of its own, so what follows it is a number above zero.
      rename_i hsign
      have hpositive := Decimal.toInt_neg_of_ne_minValue hnumber
      have hdigits := (@legible_number (-number) (by omega)).spells
      rw [Decimal.write_of_neg hnumber (by omega), String.toList_append]
      exact hdigits.mark (c := '-') rfl
  | .bool true => (legible_of_spelling? rfl).spells
  | .bool false => (legible_of_spelling? rfl).spells

private theorem spells_pair (key : Atom) {cs : List Char} {tokens : List Token}
    (hspells : Spells cs tokens) :
    Spells (key.text.toList ++ ':' :: ' ' :: cs) (key.literal.tokens ++ ⟨.colon, ":"⟩ :: tokens) :=
  (spells_atom key).join rfl hspells.space

mutual

/-- The text of a datum is split into the tokens of the expression that denotes it. -/
theorem spells_literal : (datum : Datum) → Spells datum.text.toList datum.literal.tokens
  | .null => (legible_of_spelling? rfl).spells
  | .atom atom => spells_atom atom
  | .array items => by
    rw [Datum.text, String.toList_append, String.toList_append, String.toList_intercalate]
    exact ((spells_itemLiterals items).join rfl .nil).mark rfl
  | .hash pairs => by
    rw [Datum.text, String.toList_append, String.toList_append, String.toList_intercalate]
    exact ((spells_pairLiterals pairs).join rfl .nil).mark rfl

private theorem spells_itemLiterals : (items : List Datum) →
    Spells ([',', ' '].intercalate ((itemTexts items).map String.toList))
      (commaTokens (itemTokens (itemLiterals items)))
  | [] => .nil
  | [item] => by
    have hitem := spells_literal item
    simpa [itemTexts, itemLiterals, itemTokens, commaTokens] using hitem
  | item :: next :: rest => (spells_literal item).comma (spells_itemLiterals (next :: rest))

private theorem spells_pairLiterals : (pairs : List (Atom × Datum)) →
    Spells ([',', ' '].intercalate ((pairTexts pairs).map String.toList))
      (commaTokens (pairTokens (pairLiterals pairs)))
  | [] => .nil
  | [(key, datum)] => by
    have hpair := spells_pair key (spells_literal datum)
    simpa [pairTexts, pairLiterals, pairTokens, commaTokens] using hpair
  | (key, datum) :: next :: rest => by
    have hpair := spells_pair key (spells_literal datum)
    simpa [pairTexts, pairLiterals, pairTokens] using
      hpair.comma (spells_pairLiterals (next :: rest))

end

/-- The text of a datum is a program without errors, which is the expression that denotes it. -/
theorem parse_text (datum : Datum) :
    Program.parse datum.text = { stmts := [.expr datum.literal] } := by
  have hexpression := (expression_tokens datum.literal).loosen
  have hstatements : Statements [Token.eof] [.expr datum.literal]
      (datum.literal.tokens ++ [Token.eof]) := .cons (.expr hexpression rfl) (.nil _)
  rw [Program.parse, tokenize, (spells_literal datum).munched.scanAll_eq,
    Program.ofTokens_of_statements hstatements (by decide), Program.ofTokens_of_eof rfl,
    Program.append_empty]

end MonkeyLang
