import MonkeyLang.Output.Printing
import MonkeyLang.Value.Render

namespace MonkeyLang.Heap

/-- Writes a value inside the containers of a trail. Nothing is made of the parts that there
is no room for, since a value that holds others many times over may have a text far longer
than any stream takes. -/
def printWithin (heap : Heap) (trail : Trail) (value : Value) : Printing :=
  match value with
  | .array id =>
    if .array id ∈ trail then Printing.text "[...]"
    else do
      Printing.text "["
      Printing.separated ", " ((heap.elements id).attach.map fun item =>
        heap.printWithin (trail.insert (.array id)) item.1)
      Printing.text "]"
  | .hash id =>
    if .hash id ∈ trail then Printing.text "\x7b...\x7d"
    else do
      Printing.text "\x7b"
      Printing.separated ", " ((heap.contents id).entries.attach.map fun entry => do
        heap.printWithin (trail.insert (.hash id)) entry.1.2.key
        Printing.text ": "
        heap.printWithin (trail.insert (.hash id)) entry.1.2.value)
      Printing.text "\x7d"
  | value => Printing.text (heap.renderWithin trail value)
termination_by unseen heap.containers trail
decreasing_by
  · exact unseen_insert_lt (array_mem_containers item.2) ‹_›
  · exact unseen_insert_lt (hash_mem_containers entry.2) ‹_›
  · exact unseen_insert_lt (hash_mem_containers entry.2) ‹_›

/-- Writes a value on a line of its own. -/
def printLine (heap : Heap) (value : Value) : Printing := do
  heap.printWithin ∅ value
  Printing.text "\n"

/-- Writing a value piece by piece writes its text. -/
theorem printWithin_eq_text (heap : Heap) (trail : Trail) (value : Value) :
    heap.printWithin trail value = Printing.text (heap.renderWithin trail value) := by
  fun_induction printWithin heap trail value with
  | case1 trail id hid => simp [renderWithin, hid]
  | case2 trail id hid ih =>
    rw [renderWithin, if_neg hid, Printing.text_append, Printing.text_append,
      ← Printing.separated_map_text, bind_assoc]
    simp only [ih]
  | case3 trail id hid => simp [renderWithin, hid]
  | case4 trail id hid ihkey ihvalue =>
    rw [renderWithin, if_neg hid, Printing.text_append, Printing.text_append,
      ← Printing.separated_map_text, bind_assoc]
    simp only [ihkey, ihvalue, Printing.text_append, bind_assoc]
  | case5 => rfl

theorem printLine_eq_text (heap : Heap) (value : Value) :
    heap.printLine value = Printing.text (heap.render value ++ "\n") := by
  rw [printLine, printWithin_eq_text, Printing.text_append, render]

end MonkeyLang.Heap
