import MonkeyLang.Proofs.Heap.Foundation
import MonkeyLang.Value.Render

namespace MonkeyLang

namespace Container

/-- What is printed for a container inside itself. -/
def hint : Container → String
  | array _ => "[...]"
  | hash _ => "\x7b...\x7d"

/-- Joins the texts of keys with those of the values that follow them. -/
def joinPairs : List String → List String
  | key :: value :: rest => (key ++ ": " ++ value) :: joinPairs rest
  | _ => []

/-- The text of a container in full, from the texts of all that it shows. -/
def enclose : Container → List String → String
  | array _, texts => "[" ++ ", ".intercalate texts ++ "]"
  | hash _, texts => "\x7b" ++ ", ".intercalate (joinPairs texts) ++ "\x7d"

theorem joinPairs_flatMap {α : Type} (pairs : List α) (key value : α → Value)
    (text : Value → String) :
    joinPairs ((pairs.flatMap fun pair => [key pair, value pair]).map text) =
      pairs.map fun pair => text (key pair) ++ ": " ++ text (value pair) := by
  induction pairs with
  | nil => rfl
  | cons pair rest ih =>
    simp only [List.flatMap_cons, List.cons_append, List.nil_append, List.map_cons, joinPairs, ih]

end Container

namespace Heap

/-- All that the text of a container shows, in order. The keys of a hash are among it. -/
def shown (heap : Heap) : Container → List Value
  | .array id => heap.elements id
  | .hash id => (heap.contents id).entries.flatMap fun entry => [entry.2.key, entry.2.value]

theorem mem_containers_of_shown {heap : Heap} {container : Container} {part : Value}
    (hpart : part ∈ heap.shown container) : container ∈ heap.containers := by
  cases container with
  | array id => exact array_mem_containers hpart
  | hash id =>
    obtain ⟨entry, hentry, -⟩ := List.mem_flatMap.mp hpart
    exact hash_mem_containers hentry

/-- Arrays and hashes are printed in one way, up to what is put around their parts. -/
theorem renderWithin_container (heap : Heap) (trail : Trail) (container : Container) :
    heap.renderWithin trail container.value =
      if container ∈ trail then container.hint
      else container.enclose
        ((heap.shown container).map (heap.renderWithin (trail.insert container))) := by
  cases container with
  | array id => exact heap.renderWithin_array trail id
  | hash id =>
    rw [shown, Container.enclose, Container.joinPairs_flatMap]
    exact heap.renderWithin_hash trail id

/-- What has no parts looks the same everywhere. -/
theorem renderWithin_of_container?_eq_none {heap : Heap} {value : Value}
    (hvalue : value.container? = none) (trail : Trail) :
    heap.renderWithin trail value = heap.render value := by
  cases value with
  | array | hash => cases hvalue
  | bool truth => cases truth <;> simp only [render, renderWithin]
  | _ => simp only [render, renderWithin]

end Heap

/-- How a value is drawn. A drawing tells the places where a container is only hinted at from those
where it is drawn in full, which a text does not. -/
inductive Sketch where
  | leaf (text : String)
  | hint (container : Container)
  | full (container : Container) (parts : List Sketch)

namespace Sketch

/-- The text of a drawing. -/
def text : Sketch → String
  | leaf text => text
  | hint container => container.hint
  | full container parts => container.enclose (parts.map text)

/-- The drawing at a place inside another one. -/
def at? : Sketch → List Nat → Option Sketch
  | sketch, [] => some sketch
  | full _ parts, i :: path => parts[i]?.bind (·.at? path)
  | _, _ :: _ => none

end Sketch

namespace Heap

/-- The drawing of a value inside the containers of a trail. -/
def sketchWithin (heap : Heap) (trail : Trail) (value : Value) : Sketch :=
  match value.container? with
  | none => .leaf (heap.render value)
  | some container =>
    if container ∈ trail then .hint container
    else .full container ((heap.shown container).attach.map fun part =>
      heap.sketchWithin (trail.insert container) part.1)
termination_by unseen heap.containers trail
decreasing_by exact unseen_insert_lt (mem_containers_of_shown part.2) ‹_›

private theorem sketchWithin_container (heap : Heap) (trail : Trail) (container : Container) :
    heap.sketchWithin trail container.value =
      if container ∈ trail then .hint container
      else .full container
        ((heap.shown container).map (heap.sketchWithin (trail.insert container))) := by
  rw [sketchWithin, container.container?_value]
  simp only [List.attach_map_val]

/-- What is printed is the text of the drawing. -/
theorem text_sketchWithin (heap : Heap) (trail : Trail) (value : Value) :
    (heap.sketchWithin trail value).text = heap.renderWithin trail value := by
  fun_induction sketchWithin heap trail value with
  | case1 trail value hvalue => rw [Sketch.text, renderWithin_of_container?_eq_none hvalue]
  | case2 trail value container hvalue hmem =>
    obtain rfl := Value.value_of_container? hvalue
    rw [renderWithin_container, if_pos hmem, Sketch.text]
  | case3 trail value container hvalue hmem ih =>
    obtain rfl := Value.value_of_container? hvalue
    rw [renderWithin_container, if_neg hmem, Sketch.text, List.map_map]
    refine congrArg _ (Eq.trans ?_ List.attach_map_val)
    exact List.map_congr_left fun part _ => ih part

/-- A value occurs at a place inside another one, with certain containers around it. This is about
the heap alone. Where there are cycles, there are places without end. -/
inductive Occurs (heap : Heap) : Value → List Nat → List Container → Value → Prop where
  | here (value : Value) : Occurs heap value [] [] value
  | inside {container : Container} {i : Nat} {part inner : Value} {path : List Nat}
      {around : List Container} (hpart : (heap.shown container)[i]? = some part)
      (hinner : Occurs heap part path around inner) :
      Occurs heap container.value (i :: path) (container :: around) inner

/-- Only so much is drawn that no container stands around itself. -/
def Drawn (marks : Container → Prop) (around : List Container) : Prop :=
  around.Nodup ∧ ∀ container ∈ around, ¬ marks container

variable {heap : Heap}

theorem Occurs.exists_of_cons {value inner : Value} {i : Nat} {path : List Nat}
    {around : List Container} (hoccurs : heap.Occurs value (i :: path) around inner) :
    ∃ container part rest, value.container? = some container ∧ around = container :: rest ∧
      (heap.shown container)[i]? = some part ∧ heap.Occurs part path rest inner := by
  cases hoccurs with
  | @inside container _ part _ _ rest hpart hinner =>
    exact ⟨container, part, rest, container.container?_value, rfl, hpart, hinner⟩

theorem mem_insert_iff {trail : Trail} {container other : Container} :
    other ∈ trail.insert container ↔ other = container ∨ other ∈ trail := by
  rw [Std.TreeSet.mem_insert, Std.LawfulEqCmp.compare_eq_iff_eq, eq_comm]

private theorem mem_foldl_insert {around : List Container} {trail : Trail} {container : Container} :
    container ∈ around.foldl .insert trail ↔ container ∈ trail ∨ container ∈ around := by
  induction around generalizing trail with
  | nil => simp
  | cons first rest ih =>
    rw [List.foldl_cons, ih, mem_insert_iff, List.mem_cons, or_assoc, or_left_comm]

private theorem drawn_cons {trail : Trail} {container : Container} {around : List Container} :
    Drawn (· ∈ trail) (container :: around) ↔
      container ∉ trail ∧ Drawn (· ∈ trail.insert container) around := by
  simp only [Drawn, List.nodup_cons, List.forall_mem_cons, mem_insert_iff, not_or]
  constructor
  · rintro ⟨⟨hfresh, hnodup⟩, hcontainer, haround⟩
    refine ⟨hcontainer, hnodup, fun other hother => ⟨?_, haround other hother⟩⟩
    rintro rfl
    exact hfresh hother
  · rintro ⟨hcontainer, hnodup, haround⟩
    refine ⟨⟨fun hmem => (haround container hmem).1 rfl, hnodup⟩, hcontainer, ?_⟩
    exact fun other hother => (haround other hother).2

/-- The drawing has a place for each occurrence that is drawn and for no other. What is there is
the drawing of the value that occurs, inside all that is around it. -/
theorem at?_sketchWithin {trail : Trail} {value : Value} {path : List Nat} {node : Sketch} :
    (heap.sketchWithin trail value).at? path = some node ↔
      ∃ around inner, heap.Occurs value path around inner ∧ Drawn (· ∈ trail) around ∧
        heap.sketchWithin (around.foldl .insert trail) inner = node := by
  induction path generalizing trail value with
  | nil =>
    constructor
    · intro hnode
      exact ⟨[], value, .here value, ⟨.nil, nofun⟩, Option.some.inj hnode⟩
    · rintro ⟨around, inner, ⟨⟩, -, rfl⟩
      rfl
  | cons i path ih =>
    cases hvalue : value.container? with
    | none =>
      rw [sketchWithin, hvalue]
      refine iff_of_false nofun ?_
      rintro ⟨around, inner, hoccurs, -⟩
      obtain ⟨container, _, _, hcontainer, -⟩ := hoccurs.exists_of_cons
      cases hvalue.symm.trans hcontainer
    | some container =>
      obtain rfl := Value.value_of_container? hvalue
      rw [sketchWithin_container]
      split
      · rename_i hmem
        refine iff_of_false nofun ?_
        rintro ⟨around, inner, hoccurs, hdrawn, -⟩
        obtain ⟨_, _, _, hcontainer, rfl, -⟩ := hoccurs.exists_of_cons
        cases hvalue.symm.trans hcontainer
        exact (drawn_cons.mp hdrawn).1 hmem
      · rename_i hmem
        rw [Sketch.at?, List.getElem?_map, Option.bind_map, Option.bind_eq_some_iff]
        constructor
        · rintro ⟨part, hpart, hnode⟩
          obtain ⟨around, inner, hoccurs, hdrawn, hnode⟩ := ih.mp hnode
          exact ⟨container :: around, inner, .inside hpart hoccurs, drawn_cons.mpr ⟨hmem, hdrawn⟩,
            hnode⟩
        · rintro ⟨around, inner, hoccurs, hdrawn, hnode⟩
          obtain ⟨_, part, rest, hcontainer, rfl, hpart, hinner⟩ := hoccurs.exists_of_cons
          cases hvalue.symm.trans hcontainer
          exact ⟨part, hpart, ih.mpr ⟨rest, inner, hinner, (drawn_cons.mp hdrawn).2, hnode⟩⟩

private theorem sketchWithin_eq_hint_iff {trail : Trail} {value : Value} {container : Container} :
    heap.sketchWithin trail value = .hint container ↔
      value = container.value ∧ container ∈ trail := by
  cases hvalue : value.container? with
  | none =>
    rw [sketchWithin, hvalue]
    exact iff_of_false nofun fun ⟨hcontainer, _⟩ => by simp [hcontainer] at hvalue
  | some found =>
    obtain rfl := Value.value_of_container? hvalue
    rw [sketchWithin_container, Container.value_inj]
    grind

private theorem exists_sketchWithin_eq_full_iff {trail : Trail} {value : Value}
    {container : Container} : (∃ parts, heap.sketchWithin trail value = .full container parts) ↔
      value = container.value ∧ container ∉ trail := by
  cases hvalue : value.container? with
  | none =>
    rw [sketchWithin, hvalue]
    exact iff_of_false nofun fun ⟨hcontainer, _⟩ => by simp [hcontainer] at hvalue
  | some found =>
    obtain rfl := Value.value_of_container? hvalue
    rw [sketchWithin_container, Container.value_inj]
    split <;> simp only [Sketch.full.injEq, reduceCtorEq, exists_and_left, exists_eq',
      exists_const] <;> grind

/-- A container is hinted at exactly where it stands around itself. -/
theorem at?_eq_hint_iff {trail : Trail} {value : Value} {path : List Nat} {container : Container} :
    (heap.sketchWithin trail value).at? path = some (.hint container) ↔
      ∃ around, heap.Occurs value path around container.value ∧ Drawn (· ∈ trail) around ∧
        (container ∈ trail ∨ container ∈ around) := by
  simp only [at?_sketchWithin, sketchWithin_eq_hint_iff, mem_foldl_insert]
  constructor
  · rintro ⟨around, _, hoccurs, hdrawn, rfl, hmem⟩
    exact ⟨around, hoccurs, hdrawn, hmem⟩
  · rintro ⟨around, hoccurs, hdrawn, hmem⟩
    exact ⟨around, _, hoccurs, hdrawn, rfl, hmem⟩

theorem exists_at?_eq_full_iff {trail : Trail} {value : Value} {path : List Nat}
    {container : Container} :
    (∃ parts, (heap.sketchWithin trail value).at? path = some (.full container parts)) ↔
      ∃ around, heap.Occurs value path around container.value ∧ Drawn (· ∈ trail) around ∧
        ¬ (container ∈ trail ∨ container ∈ around) := by
  simp only [at?_sketchWithin]
  constructor
  · rintro ⟨parts, around, inner, hoccurs, hdrawn, hfull⟩
    obtain ⟨rfl, hmem⟩ := exists_sketchWithin_eq_full_iff.mp ⟨parts, hfull⟩
    exact ⟨around, hoccurs, hdrawn, mt mem_foldl_insert.mpr hmem⟩
  · rintro ⟨around, hoccurs, hdrawn, hmem⟩
    obtain ⟨parts, hfull⟩ :=
      exists_sketchWithin_eq_full_iff.mpr ⟨rfl, mt mem_foldl_insert.mp hmem⟩
    exact ⟨parts, around, _, hoccurs, hdrawn, hfull⟩

/-- The text of a value as plain recursion gives it. A value that contains itself has none. -/
inductive PlainText (heap : Heap) : Value → String → Prop where
  | int (value : Int64) : PlainText heap (.int value) (Decimal.write value)
  | bool (value : Bool) : PlainText heap (.bool value) (if value then "true" else "false")
  | string (text : String) : PlainText heap (.string text) text
  | null : PlainText heap .null "null"
  | array {id : Nat} {text : Value → String}
      (hitems : ∀ item ∈ heap.elements id, PlainText heap item (text item)) :
      PlainText heap (.array id) ("[" ++ ", ".intercalate ((heap.elements id).map text) ++ "]")
  | hash {id : Nat} {text : Value → String}
      (hkeys : ∀ entry ∈ (heap.contents id).entries,
        PlainText heap entry.2.key (text entry.2.key))
      (hvalues : ∀ entry ∈ (heap.contents id).entries,
        PlainText heap entry.2.value (text entry.2.value)) :
      PlainText heap (.hash id) ("\x7b" ++ ", ".intercalate ((heap.contents id).entries.map
        fun entry => text entry.2.key ++ ": " ++ text entry.2.value) ++ "\x7d")
  | function (id : Nat) :
      PlainText heap (.function id) ((heap.closures[id]?.map Closure.render).getD "")
  | builtin (callee : Builtin) : PlainText heap (.builtin callee) "builtin function"
  | error (fault : Fault) : PlainText heap (.error fault) ("ERROR: " ++ fault.message)

theorem PlainText.unique {value : Value} {text other : String} (htext : heap.PlainText value text)
    (hother : heap.PlainText value other) : text = other := by
  induction htext generalizing other with
  | int | bool | string | null | function | builtin | error =>
    cases hother
    rfl
  | array _ ih =>
    cases hother with
    | array hitems =>
      rw [List.map_congr_left fun item hitem => ih item hitem (hitems item hitem)]
  | hash _ _ ihkey ihvalue =>
    cases hother with
    | hash hkeys hvalues =>
      rw [List.map_congr_left fun entry hentry => by
        rw [ihkey entry hentry (hkeys entry hentry), ihvalue entry hentry (hvalues entry hentry)]]

end Heap

/-- Where there are no cycles, no container is met again inside itself, and so the text of a value
is what plain recursion gives. -/
theorem Clear.plainText {heap : Heap} {trail : Trail} {value : Value}
    (hclear : Clear heap.shown (· ∈ trail) value) :
    heap.PlainText value (heap.renderWithin trail value) := by
  fun_induction Heap.renderWithin heap trail value with
  | case1 trail value => exact .int value
  | case2 => exact .bool true
  | case3 => exact .bool false
  | case4 trail text => exact .string text
  | case5 => exact .null
  | case6 trail id hid => exact absurd hid hclear.not_around
  | case7 trail id hid ih =>
    rw [List.attach_map_val]
    refine .array fun item hitem => ?_
    exact ih ⟨item, hitem⟩ (hclear.enter hitem fun _ =>
      Heap.eq_or_mem_of_mem_insert)
  | case8 trail id hid => exact absurd hid hclear.not_around
  | case9 trail id hid ihkey ihvalue =>
    have henter (entry) (hentry : entry ∈ (heap.contents id).entries) (part)
        (hpart : part ∈ [entry.2.key, entry.2.value]) :
        Clear heap.shown (· ∈ trail.insert (.hash id)) part :=
      hclear.enter (List.mem_flatMap.mpr ⟨entry, hentry, hpart⟩) fun _ =>
        Heap.eq_or_mem_of_mem_insert
    rw [List.attach_map_val (f := fun entry : HashKey × Entry =>
      heap.renderWithin (trail.insert (.hash id)) entry.2.key ++ ": " ++
        heap.renderWithin (trail.insert (.hash id)) entry.2.value)]
    refine .hash (fun entry hentry => ?_) fun entry hentry => ?_
    · exact ihkey ⟨entry, hentry⟩ (henter entry hentry _ (by simp))
    · exact ihvalue ⟨entry, hentry⟩ (henter entry hentry _ (by simp))
  | case10 trail id => exact .function id
  | case11 trail callee => exact .builtin callee
  | case12 trail fault => exact .error fault

/-- The text that a person is shown is the one that plain recursion gives, and no other. -/
theorem CycleFree.plainText_iff {heap : Heap} {value : Value} (hfree : CycleFree heap.shown value)
    (text : String) : heap.PlainText value text ↔ heap.render value = text := by
  have hplain : heap.PlainText value (heap.render value) :=
    Clear.plainText (.of_nothing hfree (by simp))
  constructor
  · intro htext
    exact hplain.unique htext
  · rintro rfl
    exact hplain

end MonkeyLang
