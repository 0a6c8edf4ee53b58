namespace MonkeyLang.Text

/-- Whether a character is in one of several ranges of code points, with both ends
included. -/
def inRanges (ranges : List (Nat × Nat)) (c : Char) : Bool :=
  ranges.any fun (first, last) => first ≤ c.toNat && c.toNat ≤ last

end MonkeyLang.Text
