import MonkeyLang.Proofs.Value.Sketch
import MonkeyLang.Value.Print

namespace MonkeyLang

/-- What printing works with. The containers whose printing is in progress are marked, the newest
one last, and the marks are shared by all that prints. -/
structure Desk where
  marks : List Container
  output : Output

/-- Printing stops early if there is no more room in the stream. To nest deeper than allowed is
another reason, which is there so that printing can be told apart from printing without end. -/
inductive Obstacle where
  | full
  | deep

/-- Printing with marks. What has been done by the time it stops is kept. -/
abbrev Marking := EStateM Obstacle Desk Unit

namespace Marking

/-- Writes a text. -/
def text (text : String) : Marking := fun desk =>
  match desk.output.write text with
  | (true, output) => .ok () { desk with output }
  | (false, output) => .error .full { desk with output }

/-- Prints several things with a text between them. -/
def separated (separator : String) : List Marking → Marking
  | [] => pure ()
  | [item] => item
  | item :: rest => do
    item
    text separator
    separated separator rest

/-- Marks a container while something is printed, and takes the mark off in any case. If it is
marked already, there is only a hint. -/
def guarded (container : Container) (body : Marking) : Marking := fun desk =>
  if container ∈ desk.marks then text container.hint desk
  else
    let unmark (desk : Desk) : Desk := { desk with marks := desk.marks.filter (· ≠ container) }
    match body { desk with marks := desk.marks ++ [container] } with
    | .ok _ desk => .ok () (unmark desk)
    | .error obstacle desk => .error obstacle (unmark desk)

end Marking

/-- Prints a value with shared marks. Whether a container is printed in full depends on them only,
and nothing is handed down. -/
def Heap.printMarked (heap : Heap) : Nat → Value → Marking
  | 0, _ => throw .deep
  | depth + 1, .array id => Marking.guarded (.array id) do
    Marking.text "["
    Marking.separated ", " ((heap.elements id).map (heap.printMarked depth))
    Marking.text "]"
  | depth + 1, .hash id => Marking.guarded (.hash id) do
    Marking.text "\x7b"
    Marking.separated ", " ((heap.contents id).entries.map fun entry => do
      heap.printMarked depth entry.2.key
      Marking.text ": "
      heap.printMarked depth entry.2.value)
    Marking.text "\x7d"
  | _ + 1, value => Marking.text (heap.render value)

/-- Printing that leaves certain marks behind. -/
def Printing.keeping (marks : List Container) (printing : Printing) (output : Output) :
    EStateM.Result Obstacle Desk Unit :=
  match printing output with
  | .ok _ output => .ok () ⟨marks, output⟩
  | .error _ output => .error .full ⟨marks, output⟩

namespace Marking

/-- With certain marks, something prints as if there were none to keep. So the marks are in the end
what they were, also if there is not enough room in the stream. -/
def Follows (marks : List Container) (action : Marking) (printing : Printing) : Prop :=
  ∀ output, action ⟨marks, output⟩ = printing.keeping marks output

variable {marks : List Container}

theorem follows_text (written : String) : Follows marks (text written) (.text written) := by
  intro output
  rw [text, Printing.keeping, Printing.text]
  rcases output.write written with ⟨_ | _, after⟩ <;> rfl

namespace Follows

theorem bind {first second : Marking} {before after : Printing}
    (hfirst : Follows marks first before) (hsecond : Follows marks second after) :
    Follows marks (do first; second) (do before; after) := by
  intro output
  have hfirst := hfirst output
  simp only [Printing.keeping, Bind.bind, EStateM.bind] at hfirst ⊢
  rw [hfirst]
  cases before output with
  | ok _ output => exact hsecond output
  | error => rfl

theorem separated {α : Type} {items : List α} {action : α → Marking} {printing : α → Printing}
    (separator : String) (hitems : ∀ item ∈ items, Follows marks (action item) (printing item)) :
    Follows marks (separated separator (items.map action))
      (.separated separator (items.map printing)) := by
  induction items with
  | nil => exact fun _ => rfl
  | cons item rest ih =>
    obtain ⟨hitem, hrest⟩ := List.forall_mem_cons.mp hitems
    cases rest with
    | nil => exact hitem
    | cons next rest => exact hitem.bind ((follows_text separator).bind (ih hrest))

theorem guarded {container : Container} {body : Marking} {printing : Printing}
    (hbody : Follows (marks ++ [container]) body printing) (hfresh : container ∉ marks) :
    Follows marks (guarded container body) printing := by
  -- All marks of the container are taken off, so it matters that there was none before.
  have hunmark : (marks ++ [container]).filter (· ≠ container) = marks := by
    have hkeep : marks.filter (· ≠ container) = marks := by
      refine List.filter_eq_self.mpr fun other hother => decide_eq_true ?_
      rintro rfl
      exact hfresh hother
    rw [List.filter_append, hkeep]
    simp
  intro output
  have hbody := hbody output
  simp only [Printing.keeping, Marking.guarded, if_neg hfresh] at hbody ⊢
  rw [hbody]
  cases printing output <;> simp only [hunmark]

end Follows

theorem follows_hint {container : Container} (hmarked : container ∈ marks) (body : Marking) :
    Follows marks (guarded container body) (.text container.hint) := by
  intro output
  rw [guarded, if_pos hmarked]
  exact follows_text container.hint output

end Marking

namespace Heap

variable {heap : Heap}

private theorem printWithin_array (heap : Heap) (trail : Trail) (id : Nat) :
    heap.printWithin trail (.array id) =
      if .array id ∈ trail then .text "[...]"
      else (do
        Printing.text "["
        Printing.separated ", "
          ((heap.elements id).map (heap.printWithin (trail.insert (.array id))))
        Printing.text "]") := by
  rw [printWithin, List.attach_map_val]

private theorem printWithin_hash (heap : Heap) (trail : Trail) (id : Nat) :
    heap.printWithin trail (.hash id) =
      if .hash id ∈ trail then .text "\x7b...\x7d"
      else (do
        Printing.text "\x7b"
        Printing.separated ", " ((heap.contents id).entries.map fun entry => do
          heap.printWithin (trail.insert (.hash id)) entry.2.key
          Printing.text ": "
          heap.printWithin (trail.insert (.hash id)) entry.2.value)
        Printing.text "\x7d") := by
  rw [printWithin, List.attach_map_val (f := fun entry : HashKey × Entry => (do
    heap.printWithin (trail.insert (.hash id)) entry.2.key
    Printing.text ": "
    heap.printWithin (trail.insert (.hash id)) entry.2.value : Printing))]

/-- Printing with shared marks comes to an end and leaves them as they were, and what it prints is
what the containers around a value call for. Each container that is entered is marked from then
on, so the depth of nesting is limited by the number of containers that are not yet. -/
theorem follows_printMarked {depth : Nat} {marks : List Container} {trail : Trail}
    (htrail : ∀ container, container ∈ trail ↔ container ∈ marks)
    (hdepth : unseen heap.containers trail < depth) (value : Value) :
    Marking.Follows marks (heap.printMarked depth value) (heap.printWithin trail value) := by
  induction depth generalizing marks trail value with
  | zero => exact absurd hdepth (Nat.not_lt_zero _)
  | succ depth ih =>
    -- Inside a container that is entered there is one more mark, and one less is left to be entered.
    have hparts (container : Container) (hfresh : container ∉ trail) :
        ∀ part ∈ heap.shown container, Marking.Follows (marks ++ [container])
          (heap.printMarked depth part) (heap.printWithin (trail.insert container) part) := by
      intro part hpart
      have hfewer := unseen_insert_lt (mem_containers_of_shown hpart) hfresh
      refine ih (fun other => ?_) (Nat.lt_of_lt_of_le hfewer (Nat.le_of_lt_succ hdepth)) part
      rw [mem_insert_iff, htrail, List.mem_append, List.mem_singleton, or_comm]
    cases value with
    | array id =>
      rw [printMarked, printWithin_array]
      split
      · rename_i hmem
        exact Marking.follows_hint ((htrail _).mp hmem) _
      · rename_i hfresh
        have hitems := Marking.Follows.separated ", " (hparts _ hfresh)
        exact Marking.Follows.guarded ((Marking.follows_text _).bind
          (hitems.bind (Marking.follows_text _))) (mt (htrail _).mpr hfresh)
    | hash id =>
      rw [printMarked, printWithin_hash]
      split
      · rename_i hmem
        exact Marking.follows_hint ((htrail _).mp hmem) _
      · rename_i hfresh
        have hshown (entry) (hentry : entry ∈ (heap.contents id).entries) (part)
            (hpart : part ∈ [entry.2.key, entry.2.value]) : part ∈ heap.shown (.hash id) :=
          List.mem_flatMap.mpr ⟨entry, hentry, hpart⟩
        have hpairs := Marking.Follows.separated ", " fun entry hentry =>
          (hparts _ hfresh _ (hshown entry hentry entry.2.key (by simp))).bind
            ((Marking.follows_text ": ").bind
              (hparts _ hfresh _ (hshown entry hentry entry.2.value (by simp))))
        exact Marking.Follows.guarded ((Marking.follows_text _).bind
          (hpairs.bind (Marking.follows_text _))) (mt (htrail _).mpr hfresh)
    | _ =>
      rw [printWithin_eq_text, renderWithin_of_container?_eq_none]
      · exact Marking.follows_text _
      · rfl

theorem mem_ofList {marks : List Container} {container : Container} :
    container ∈ (Std.TreeSet.ofList marks : Trail) ↔ container ∈ marks := by
  rw [Std.TreeSet.mem_ofList, List.contains_iff_mem]

end Heap

/-- Printing copes with every heap. It comes to an end, also in the middle if there is no more room,
and leaves the marks as it found them. A container is hinted at exactly where it is being printed
already, because it was marked before or because it is around the place. Where no cycle can be
reached there are no hints, and the text is that of plain recursion. -/
theorem rendering_copes_with_every_heap (heap : Heap) (value : Value) :
    (∀ marks depth output, heap.containers.length < depth →
      heap.printMarked depth value ⟨marks, output⟩ =
        (heap.printWithin (.ofList marks) value).keeping marks output) ∧
    (∀ trail, heap.printWithin trail value = .text (heap.renderWithin trail value) ∧
      heap.renderWithin trail value = (heap.sketchWithin trail value).text) ∧
    (∀ (marks : List Container) (path : List Nat) (container : Container),
      let sketch := heap.sketchWithin (.ofList marks) value
      (sketch.at? path = some (.hint container) ↔
        ∃ around, heap.Occurs value path around container.value ∧ Heap.Drawn (· ∈ marks) around ∧
          (container ∈ marks ∨ container ∈ around)) ∧
      ((∃ parts, sketch.at? path = some (.full container parts)) ↔
        ∃ around, heap.Occurs value path around container.value ∧ Heap.Drawn (· ∈ marks) around ∧
          ¬ (container ∈ marks ∨ container ∈ around))) ∧
    (CycleFree heap.shown value → ∀ text, heap.PlainText value text ↔ heap.render value = text) := by
  refine ⟨fun marks depth output hdepth => ?_, fun trail => ?_, fun marks path container => ?_,
    fun hfree => hfree.plainText_iff⟩
  · exact Heap.follows_printMarked (fun _ => Heap.mem_ofList)
      (Nat.lt_of_le_of_lt (unseen_le_length _ _) hdepth) value output
  · exact ⟨heap.printWithin_eq_text trail value, (heap.text_sketchWithin trail value).symm⟩
  · refine ⟨?_, ?_⟩
    · simp only [Heap.at?_eq_hint_iff, Heap.mem_ofList]
    · simp only [Heap.exists_at?_eq_full_iff, Heap.mem_ofList]

/-- A hash and an array that contain each other are printed once, with a hint inside, while an array
that they share is printed in full each time. If there is room for only a part of it, no marks stay
behind. -/
theorem rendering_copes_with_every_heap_cyclic :
    let filed (key value : Value) : Hash := (Hash.ofPairs [(key, value)]).toOption.getD .empty
    let heap : Heap := {
      arrays := #[.ofList [.hash 0, .array 1, .array 1], .ofList [.int 2]]
      hashes := #[filed (.int 1) (.array 0)] }
    let tree : Heap := { arrays := #[.ofList [.int 2], .ofList [.array 0, .array 0]] }
    let text := "\x7b1: [\x7b...\x7d, [2], [2]]\x7d"
    let marks : List Container := []
    let small : Output := { limit := some 8 }
    heap.containers.length < 4 ∧ heap.renderWithin (.ofList marks) (.hash 0) = text ∧
      heap.printMarked 4 (.hash 0) ⟨marks, small⟩ = .error .full ⟨marks, (small.write text).2⟩ ∧
      (heap.sketchWithin (.ofList marks) (.hash 0)).at? [1, 0] = some (.hint (.hash 0)) ∧
      CycleFree tree.shown (.array 1) ∧ tree.PlainText (.array 1) "[[2], [2]]" := by
  intro filed heap tree text marks small
  have hdepth : heap.containers.length < 4 := by decide +kernel
  have htext : heap.renderWithin (.ofList marks) (.hash 0) = text := by decide +kernel
  have hroom : (small.write text).1 = false := by decide +kernel
  have hfree : CycleFree tree.shown (.array 1) := by
    refine .of_rank_on (fun _ _ => Heap.mem_containers_of_shown) Container.id ?_ _
    decide +kernel
  obtain ⟨hmarked, hprinted, hplaces, -⟩ := rendering_copes_with_every_heap heap (.hash 0)
  obtain ⟨-, -, -, hplain⟩ := rendering_copes_with_every_heap tree (.array 1)
  have hfull : heap.printMarked 4 (.hash 0) ⟨marks, small⟩ =
      .error .full ⟨marks, (small.write text).2⟩ := by
    rw [hmarked marks 4 small hdepth, (hprinted _).1, htext, Printing.keeping, Printing.text]
    revert hroom
    rcases small.write text with ⟨complete, after⟩
    rintro rfl
    rfl
  have hvalue : (heap.shown (.hash 0))[1]? = some (Container.array 0).value := by decide +kernel
  have hitem : (heap.shown (.array 0))[0]? = some (Container.hash 0).value := by decide +kernel
  have hoccurs := Heap.Occurs.inside hvalue (.inside hitem (.here _))
  have hhint := (hplaces marks [1, 0] (.hash 0)).1.mpr
    ⟨_, hoccurs, ⟨by decide, by simp [marks]⟩, by simp⟩
  have htree : tree.render (.array 1) = "[[2], [2]]" := by decide +kernel
  exact ⟨hdepth, htext, hfull, hhint, hfree, (hplain hfree _).mpr htree⟩

end MonkeyLang
