import MonkeyLang.Text.Cluster.Class

namespace MonkeyLang.Text

/-- Whether a character may stand between two consonants that form a conjunct. -/
def withinConjunct (c : Char) : Bool :=
  c ≠ nonJoinerChar && (clusterClass c = .extending || clusterClass c = .joiner)

/-- Whether a text, given from its end, waits for a second consonant: one with a linker
behind it. -/
def awaitsConsonant (reversed : List Char) : Bool :=
  (reversed.takeWhile withinConjunct).any (inRanges linkerRanges) &&
    ((reversed.dropWhile withinConjunct).head?.map clusterClass = some .consonant)

/-- Whether a text, given from its end, ends in a pictograph and marks on it. -/
def endsInPictograph (reversed : List Char) : Bool :=
  (reversed.dropWhile fun c => clusterClass c = .extending).head?.map clusterClass =
    some .pictograph

/-- Whether a text, given from its end, ends in a regional letter that has no partner. -/
def awaitsRegional (reversed : List Char) : Bool :=
  (reversed.takeWhile fun c => clusterClass c = .regional).length % 2 = 1

/-- Whether a character belongs to the cluster before it, which is given from its end. An
empty cluster takes any character. -/
def continues (cluster : List Char) (c : Char) : Bool :=
  match cluster with
  | [] => true
  | last :: before =>
    let left := clusterClass last
    let right := clusterClass c
    if left.standsAlone || right.standsAlone then
      left = .carriageReturn && right = .lineFeed
    else
      left = .prepended || match right with
        | .extending | .joiner | .spacingMark => true
        | .consonant => awaitsConsonant cluster
        | .pictograph => left = .joiner && endsInPictograph before
        | .regional => awaitsRegional cluster
        | _ => left.sharesSyllable right

/-- Cuts a text into clusters. The characters of the current cluster are held in
reverse. -/
def clustersFrom (cluster : List Char) : List Char → List (List Char)
  | [] => if cluster.isEmpty then [] else [cluster.reverse]
  | c :: rest =>
    if continues cluster c then clustersFrom (c :: cluster) rest
    else cluster.reverse :: clustersFrom [c] rest

/-- The clusters of a text, which are what its reader takes for single characters: a letter
with its marks, a syllable, a flag, or several joined pictographs. -/
def clusters (text : List Char) : List (List Char) := clustersFrom [] text

theorem flatten_clustersFrom (cluster text : List Char) :
    (clustersFrom cluster text).flatten = cluster.reverse ++ text := by
  induction text generalizing cluster with
  | nil => cases cluster <;> simp [clustersFrom]
  | cons c rest ih => simp only [clustersFrom]; split <;> simp [ih]

/-- The clusters of a text make up the text. -/
theorem flatten_clusters (text : List Char) : (clusters text).flatten = text := by
  simp [clusters, flatten_clustersFrom]

private theorem ne_nil_of_mem_clustersFrom {cluster text part : List Char}
    (hpart : part ∈ clustersFrom cluster text) : part ≠ [] := by
  induction text generalizing cluster with
  | nil =>
    cases cluster <;> simp [clustersFrom] at hpart
    simp [hpart]
  | cons c rest ih =>
    simp only [clustersFrom] at hpart
    split at hpart
    · exact ih hpart
    · rename_i hstop
      rcases List.mem_cons.mp hpart with rfl | hrest
      · cases cluster <;> simp_all [continues]
      · exact ih hrest

/-- No cluster is empty. -/
theorem ne_nil_of_mem_clusters {text part : List Char} (hpart : part ∈ clusters text) :
    part ≠ [] :=
  ne_nil_of_mem_clustersFrom hpart

end MonkeyLang.Text
