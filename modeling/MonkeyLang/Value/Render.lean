import MonkeyLang.Expr.Render
import MonkeyLang.Heap.Container

namespace MonkeyLang

/-- The text of a function, with its body on lines of its own. -/
def Closure.render (closure : Closure) : String :=
  "fn(" ++ ", ".intercalate closure.params ++ ") \x7b\n" ++ renderBlock closure.body ++ "\n\x7d"

namespace Heap

/-- The text of a value inside the containers of a trail. A container that is met again
inside itself is only hinted at. -/
def renderWithin (heap : Heap) (trail : Trail) (value : Value) : String :=
  match value with
  | .int value => Decimal.write value
  | .bool true => "true"
  | .bool false => "false"
  | .string text => text
  | .null => "null"
  | .array id =>
    if .array id ∈ trail then "[...]"
    else
      "[" ++ ", ".intercalate ((heap.elements id).attach.map fun item =>
        heap.renderWithin (trail.insert (.array id)) item.1) ++ "]"
  | .hash id =>
    if .hash id ∈ trail then "\x7b...\x7d"
    else
      "\x7b" ++ ", ".intercalate ((heap.contents id).entries.attach.map fun entry =>
        heap.renderWithin (trail.insert (.hash id)) entry.1.2.key ++ ": " ++
          heap.renderWithin (trail.insert (.hash id)) entry.1.2.value) ++ "\x7d"
  | .function id => (heap.closures[id]?.map Closure.render).getD ""
  | .builtin _ => "builtin function"
  | .error fault => "ERROR: " ++ fault.message
termination_by unseen heap.containers trail
decreasing_by
  · exact unseen_insert_lt (array_mem_containers item.2) ‹_›
  · exact unseen_insert_lt (hash_mem_containers entry.2) ‹_›
  · exact unseen_insert_lt (hash_mem_containers entry.2) ‹_›

/-- The text of a value, as it is shown to a person. -/
def render (heap : Heap) (value : Value) : String := heap.renderWithin ∅ value

theorem renderWithin_array (heap : Heap) (trail : Trail) (id : Nat) :
    heap.renderWithin trail (.array id) =
      if .array id ∈ trail then "[...]"
      else "[" ++ ", ".intercalate
        ((heap.elements id).map (heap.renderWithin (trail.insert (.array id)))) ++ "]" := by
  rw [renderWithin, List.attach_map_val]

theorem renderWithin_hash (heap : Heap) (trail : Trail) (id : Nat) :
    heap.renderWithin trail (.hash id) =
      if .hash id ∈ trail then "\x7b...\x7d"
      else "\x7b" ++ ", ".intercalate ((heap.contents id).entries.map fun entry =>
        heap.renderWithin (trail.insert (.hash id)) entry.2.key ++ ": " ++
          heap.renderWithin (trail.insert (.hash id)) entry.2.value) ++ "\x7d" := by
  rw [renderWithin, List.attach_map_val
    (f := fun entry : HashKey × Entry =>
      heap.renderWithin (trail.insert (.hash id)) entry.2.key ++ ": " ++
        heap.renderWithin (trail.insert (.hash id)) entry.2.value)]

end Heap

end MonkeyLang
