import MonkeyLang.Text.Ranges
import MonkeyLang.Text.Cluster.Letters
import MonkeyLang.Text.Cluster.Marks
import MonkeyLang.Text.Cluster.Symbols

namespace MonkeyLang.Text

/-- How a character behaves towards its neighbours when a text is cut into what its reader
takes for single characters. -/
inductive ClusterClass where
  | carriageReturn
  | lineFeed
  | control
  | extending
  | joiner
  | spacingMark
  | prepended
  | regional
  | leading
  | vowel
  | trailing
  | openSyllable
  | closedSyllable
  | pictograph
  | consonant
  | other
deriving DecidableEq

/-- The character that joins pictographs to one. -/
def joinerChar : Char := '\u200D'

/-- The character that keeps its neighbours from being joined. -/
def nonJoinerChar : Char := '\u200C'

/-- Whether a character is a whole Hangul syllable. -/
def isSyllable (c : Char) : Bool := inRanges [(0xAC00, 0xD7A3)] c

/-- The class of a whole Hangul syllable. Syllables are laid out in blocks of 28, and the
first one of each block has no trailing consonant. -/
def syllableClass (c : Char) : ClusterClass :=
  if (c.toNat - 0xAC00) % 28 = 0 then .openSyllable else .closedSyllable

/-- The class of a character. -/
def clusterClass (c : Char) : ClusterClass :=
  if c = '\r' then .carriageReturn
  else if c = '\n' then .lineFeed
  else if c = joinerChar then .joiner
  else if inRanges controlRanges c then .control
  else if inRanges extendingRanges c then .extending
  else if inRanges spacingMarkRanges c then .spacingMark
  else if inRanges prependedRanges c then .prepended
  else if inRanges regionalRanges c then .regional
  else if inRanges leadingRanges c then .leading
  else if inRanges vowelRanges c then .vowel
  else if inRanges trailingRanges c then .trailing
  else if isSyllable c then syllableClass c
  else if inRanges pictographRanges c then .pictograph
  else if inRanges consonantRanges c then .consonant
  else .other

/-- Whether a class always stands alone, a carriage return before a line feed apart. -/
def ClusterClass.standsAlone : ClusterClass → Bool
  | carriageReturn | lineFeed | control => true
  | _ => false

/-- Whether two neighbours belong to one Hangul syllable. -/
def ClusterClass.sharesSyllable : ClusterClass → ClusterClass → Bool
  | leading, leading | leading, vowel | leading, openSyllable | leading, closedSyllable => true
  | openSyllable, vowel | openSyllable, trailing | vowel, vowel | vowel, trailing => true
  | closedSyllable, trailing | trailing, trailing => true
  | _, _ => false

end MonkeyLang.Text
