import MonkeyLang.Proofs.Token.Legible

namespace MonkeyLang

/-- White space that may stand before, between and behind tokens, if only none at all. -/
def isGap (text : String) : Bool := text.toList.all isSpace

private theorem detached_append {ws rest : List Char} (hws : ws.all isSpace = true)
    (hnone : ws = [] → rest = []) : Detached (ws ++ rest) := by
  cases ws with
  | nil => simp [Detached, hnone rfl]
  | cons c ws =>
    rw [List.all_cons, Bool.and_eq_true] at hws
    intro d hd
    cases hd
    exact hws.1

namespace Token

/-- The text of some tokens, with a gap before the first of them and one behind each. -/
def layOut (gap : String) : List (Token × String) → String
  | [] => gap
  | (token, next) :: rest => gap ++ token.source ++ layOut next rest

/-- Gaps between tokens keep them apart unless they are empty. The last gap is not between
tokens. -/
theorem spaced_layOut : {gap : String} → {items : List (Token × String)} → isGap gap = true →
    (∀ item ∈ items, item.1.isReadable = true ∧ isGap item.2 = true) →
    (∀ item ∈ items.dropLast, item.2 ≠ "") → Spaced (items.map Prod.fst) (layOut gap items).toList
  | gap, [], hgap, _, _ => .nil hgap
  | gap, (token, next) :: rest, hgap, hitems, hfilled => by
    obtain ⟨⟨htoken, hnext⟩, hrest⟩ := List.forall_mem_cons.mp hitems
    obtain ⟨text, hwritten⟩ := legible_iff_isReadable.mpr htoken
    obtain rfl := hwritten.eq_source
    simp only [List.map_cons, layOut, String.toList_append, List.append_assoc]
    cases rest with
    | nil =>
      have hdetached := @detached_append next.toList [] hnext fun _ => rfl
      rw [List.append_nil] at hdetached
      exact .cons hgap hwritten hdetached (.nil hnext)
    | cons item rest =>
      rw [List.dropLast_cons_of_ne_nil (by simp)] at hfilled
      obtain ⟨hbetween, hfilled⟩ := List.forall_mem_cons.mp hfilled
      refine .cons hgap hwritten ?_ (spaced_layOut hnext hrest hfilled)
      rw [layOut, String.append_assoc, String.toList_append]
      exact detached_append hnext fun hempty =>
        absurd (String.toList_eq_nil_iff.mp hempty) hbetween

theorem tokenize_layOut {gap : String} {items : List (Token × String)} (hgap : isGap gap = true)
    (hitems : ∀ item ∈ items, item.1.isReadable = true ∧ isGap item.2 = true)
    (hfilled : ∀ item ∈ items.dropLast, item.2 ≠ "") :
    tokenize (layOut gap items) = items.map Prod.fst ++ [eof] :=
  (spaced_layOut hgap hitems hfilled).scanAll_eq

theorem isReadable_iff_mem_tokenize {token : Token} :
    token.isReadable = true ↔ token.kind ≠ .eof ∧ ∃ code, token ∈ tokenize code := by
  refine ⟨fun htoken => ⟨?_, ?_⟩, fun ⟨hkind, code, hmem⟩ => ?_⟩
  · intro heof
    simp [isReadable, heof] at htoken
  · have halone := @tokenize_layOut "" [(token, "")] rfl (by simpa using ⟨htoken, rfl⟩) (by simp)
    exact ⟨_, by rw [halone]; exact List.mem_cons_self⟩
  · obtain ⟨text, hwritten⟩ := written_of_mem_scanAll hmem hkind
    exact hwritten.isReadable

end Token

open Token

/-- Whatever tokens can be read from any text are read back from every text that has them in their
order with white space between them, and with or without some at both ends. How much white space
that is does not matter, and neither do the characters that it is made of. -/
theorem tokens_survive_every_layout :
    (∀ token : Token,
      token.isReadable = true ↔ token.kind ≠ .eof ∧ ∃ code, token ∈ tokenize code) ∧
    ∀ (gap : String) (items : List (Token × String)), isGap gap = true →
      (∀ item ∈ items, item.1.isReadable = true ∧ isGap item.2 = true) →
      (∀ item ∈ items.dropLast, item.2 ≠ "") →
      tokenize (layOut gap items) = items.map Prod.fst ++ [Token.eof] :=
  ⟨fun _ => isReadable_iff_mem_tokenize, fun _ _ => tokenize_layOut⟩

/-- Equals signs with a gap between them, a string that looks like other tokens, a keyword beside a
longer name, and a character that is illegal at the very end. -/
theorem tokens_survive_every_layout_mixed :
    let items : List (Token × String) :=
      [(⟨.assign, "="⟩, " "), (⟨.assign, "="⟩, "\t\n"), (⟨.string, " ==\nlet"⟩, "\r"),
        (⟨.kwIf, "if"⟩, " \n"), (⟨.ident, "iff"⟩, " "), (⟨.int, "007"⟩, "\n"),
        (⟨.illegal, "é"⟩, "")]
    layOut "\n" items = "\n= =\t\n\x22 ==\nlet\x22\rif \niff 007\né" ∧
      (∀ item ∈ items, item.1.isReadable = true ∧ isGap item.2 = true) ∧
      tokenize (layOut "\n" items) = items.map Prod.fst ++ [Token.eof] :=
  ⟨rfl, by decide, tokens_survive_every_layout.2 _ _ rfl (by decide) (by decide)⟩

end MonkeyLang
