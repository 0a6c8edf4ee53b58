import MonkeyLang.Text.Cluster

namespace MonkeyLang.Text

/-- The character that takes back what was typed before it. -/
def eraser : Char := '\x08'

/-- A line while it is typed. Its characters and the widths of the clusters that can still
be taken back are both held from the end. -/
structure Draft where
  chars : List Char := []
  widths : List Nat := []

/-- Leaves out characters until so many bytes are gone. -/
def dropBytes (count : Nat) : List Char → List Char
  | [] => []
  | c :: rest => if count = 0 then c :: rest else dropBytes (count - c.utf8Size) rest

/-- The number of bytes of a text. -/
def byteWidth : List Char → Nat
  | [] => 0
  | c :: rest => c.utf8Size + byteWidth rest

/-- How much of a cluster is taken back at once, in bytes. The width is kept in a single
byte. -/
def erasedWidth (cluster : List Char) : Nat := byteWidth cluster % 256

/-- Takes back the last cluster, if there is one. -/
def Draft.erase (draft : Draft) : Draft :=
  match draft.widths with
  | [] => draft
  | width :: widths => { chars := dropBytes width draft.chars, widths }

/-- Types a cluster. -/
def Draft.type (draft : Draft) (cluster : List Char) : Draft :=
  if cluster = [eraser] then draft.erase
  else
    { chars := cluster.reverse ++ draft.chars
      widths := erasedWidth cluster :: draft.widths }

/-- What is left of a typed line once everything that was taken back is gone. -/
def settled (line : String) : String :=
  String.ofList ((clusters line.toList).foldl Draft.type {}).chars.reverse

private theorem dropBytes_byteWidth (chars rest : List Char) :
    dropBytes (byteWidth chars) (chars ++ rest) = rest := by
  induction chars with
  | nil => cases rest <;> simp [byteWidth, dropBytes]
  | cons c chars ih =>
    have hwidth : byteWidth (c :: chars) = c.utf8Size + byteWidth chars := rfl
    have hpositive := c.utf8Size_pos
    have hnonzero : c.utf8Size + byteWidth chars ≠ 0 := by omega
    rw [hwidth, List.cons_append, dropBytes, if_neg hnonzero, Nat.add_sub_cancel_left, ih]

private theorem byteWidth_append (chars rest : List Char) :
    byteWidth (chars ++ rest) = byteWidth chars + byteWidth rest := by
  induction chars with
  | nil => simp [byteWidth]
  | cons c chars ih => simp [byteWidth, ih, Nat.add_assoc]

private theorem byteWidth_reverse (chars : List Char) :
    byteWidth chars.reverse = byteWidth chars := by
  induction chars with
  | nil => rfl
  | cons c chars ih => simp [byteWidth, byteWidth_append, ih, Nat.add_comm]

/-- Erasing right after typing a cluster of ordinary width undoes the typing. -/
theorem erase_type (draft : Draft) {cluster : List Char} (hcluster : cluster ≠ [eraser])
    (hwidth : byteWidth cluster < 256) : (draft.type cluster).erase = draft := by
  have hdrop := dropBytes_byteWidth cluster.reverse draft.chars
  rw [byteWidth_reverse] at hdrop
  simp only [Draft.type, if_neg hcluster, Draft.erase, erasedWidth, Nat.mod_eq_of_lt hwidth, hdrop]

private theorem chars_foldl_type {parts : List (List Char)} (hparts : [eraser] ∉ parts)
    (draft : Draft) :
    (parts.foldl Draft.type draft).chars = parts.flatten.reverse ++ draft.chars := by
  induction parts generalizing draft with
  | nil => simp
  | cons part rest ih =>
    simp only [List.mem_cons, not_or] at hparts
    simp [ih hparts.2, Draft.type, Ne.symm hparts.1]

/-- A line in which nothing is taken back is left as it is. -/
theorem settled_eq_self {line : String} (hline : eraser ∉ line.toList) : settled line = line := by
  have hparts : [eraser] ∉ clusters line.toList := fun hmem => hline <| by
    rw [← flatten_clusters line.toList]
    exact List.mem_flatten.mpr ⟨_, hmem, List.mem_singleton.mpr rfl⟩
  simp [settled, chars_foldl_type hparts, flatten_clusters]

end MonkeyLang.Text
