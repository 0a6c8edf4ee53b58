import MonkeyLang.Heap
import MonkeyLang.Proofs.OrderedMap

namespace MonkeyLang

/-- What can be done with scopes. They are used through handles, which are numbered in the order in
which they come about. What is done through a handle that does not exist has no effect. -/
inductive ScopeOp where
  /-- Makes a scope that stands inside no other, with a handle to it. -/
  | new
  /-- Makes a scope that stands inside that of a handle, with a handle to it. -/
  | enclose (handle : Nat)
  /-- Makes another handle to the same scope. -/
  | clone (handle : Nat)
  | set (handle : Nat) (name : String) (value : Value)
  | get (handle : Nat) (name : String)
  | names (handle : Nat)

/-- The scopes of a heap with the handles to them. -/
structure Scopes where
  heap : Heap := {}
  handles : List Nat := []

namespace Scopes

/-- Makes a scope and a handle to it. -/
def add (scopes : Scopes) (outer : Option Nat) : Scopes :=
  ⟨(scopes.heap.newScope outer).2, scopes.handles ++ [(scopes.heap.newScope outer).1]⟩

/-- The value that a name has for a handle. -/
def get (scopes : Scopes) (handle : Nat) (name : String) : Option Value :=
  scopes.handles[handle]?.bind (scopes.heap.lookup name)

/-- The names that are bound in the scope of a handle. -/
def names (scopes : Scopes) (handle : Nat) : Option (List String) :=
  scopes.handles[handle]?.map scopes.heap.names

/-- Does something with scopes. To look at them changes nothing. -/
def step (scopes : Scopes) : ScopeOp → Scopes
  | .new => scopes.add none
  | .enclose handle =>
    match scopes.handles[handle]? with
    | none => scopes
    | some outer => scopes.add (some outer)
  | .clone handle =>
    match scopes.handles[handle]? with
    | none => scopes
    | some scope => { scopes with handles := scopes.handles ++ [scope] }
  | .set handle name value =>
    match scopes.handles[handle]? with
    | none => scopes
    | some scope => { scopes with heap := scopes.heap.define scope name value }
  | .get _ _ | .names _ => scopes

/-- The scopes after a sequence of operations that begins with none. -/
def after (ops : List ScopeOp) : Scopes := ops.foldl step {}

end Scopes

/-- What the operations on scopes tell by themselves: the scope that each handle belongs to, the way
out of each scope, from itself to the outermost one, and all that was ever set, the oldest first.
Nothing on a log is ever changed. -/
structure ScopeLog where
  handles : List Nat := []
  paths : List (List Nat) := []
  settings : List (Nat × String × Value) := []

namespace ScopeLog

/-- The way out of a scope. -/
def path (log : ScopeLog) (scope : Nat) : List Nat := log.paths[scope]?.getD []

/-- The names and values that were set in a scope itself. -/
def settingsOf (log : ScopeLog) (scope : Nat) : List (String × Value) :=
  (log.settings.filter fun setting => setting.1 = scope).map Prod.snd

/-- The value that was set last for a name in a scope itself. -/
def latest (log : ScopeLog) (name : String) (scope : Nat) : Option Value :=
  (((log.settingsOf scope).filter fun setting => setting.1 = name).getLast?).map Prod.snd

/-- The value that was set last for a name in the nearest scope in which it was ever set. -/
def get (log : ScopeLog) (handle : Nat) (name : String) : Option Value :=
  log.handles[handle]?.bind fun scope => (log.path scope).findSome? (log.latest name)

/-- The names that were ever set in the scope of a handle, each of them where it was set first. -/
def names (log : ScopeLog) (handle : Nat) : Option (List String) :=
  log.handles[handle]?.map fun scope => ((log.settingsOf scope).map Prod.fst).eraseDups

/-- Notes down a new scope. -/
def add (log : ScopeLog) (outer : Option Nat) : ScopeLog :=
  { log with
    handles := log.handles ++ [log.paths.length]
    paths := log.paths ++ [log.paths.length :: outer.elim [] log.path] }

/-- Notes down an operation. -/
def step (log : ScopeLog) : ScopeOp → ScopeLog
  | .new => log.add none
  | .enclose handle =>
    match log.handles[handle]? with
    | none => log
    | some outer => log.add (some outer)
  | .clone handle =>
    match log.handles[handle]? with
    | none => log
    | some scope => { log with handles := log.handles ++ [scope] }
  | .set handle name value =>
    match log.handles[handle]? with
    | none => log
    | some scope => { log with settings := log.settings ++ [(scope, name, value)] }
  | .get _ _ | .names _ => log

/-- The log of a sequence of operations. -/
def after (ops : List ScopeOp) : ScopeLog := ops.foldl step {}

end ScopeLog

namespace Heap

/-- The scopes that are met on the way out of a scope, itself first, by following the links from
scope to scope until there is none. -/
inductive Outward (heap : Heap) : Nat → List Nat → Prop where
  | last {scope : Nat} {found : Scope} (hscope : heap.scopes[scope]? = some found)
      (houter : found.outer = none) : Outward heap scope [scope]
  | step {scope outer : Nat} {found : Scope} {path : List Nat}
      (hscope : heap.scopes[scope]? = some found) (houter : found.outer = some outer)
      (hpath : Outward heap outer path) : Outward heap scope (scope :: path)

/-- All links lead to older scopes. -/
def Nested (heap : Heap) : Prop :=
  ∀ (scope : Nat) (found : Scope) (outer : Nat),
    heap.scopes[scope]? = some found → found.outer = some outer → outer < scope

/-- The links of one heap are links of another one. -/
def KeepsLinks (before after : Heap) : Prop :=
  ∀ (scope : Nat) (old : Scope), before.scopes[scope]? = some old →
    ∃ new, after.scopes[scope]? = some new ∧ new.outer = old.outer

theorem Outward.of_keepsLinks {before after : Heap} (hlinks : before.KeepsLinks after)
    {scope : Nat} {path : List Nat} (hpath : before.Outward scope path) :
    after.Outward scope path := by
  induction hpath with
  | last hscope houter =>
    obtain ⟨new, hnew, hsame⟩ := hlinks _ _ hscope
    exact .last hnew (hsame.trans houter)
  | step hscope houter _ ih =>
    obtain ⟨new, hnew, hsame⟩ := hlinks _ _ hscope
    exact .step hnew (hsame.trans houter) ih

private theorem bindings_of_getElem? {heap : Heap} {scope : Nat} {found : Scope}
    (hscope : heap.scopes[scope]? = some found) : heap.bindings scope = found.bindings := by
  rw [bindings, hscope, Option.map_some, Option.getD_some]

/-- A name is looked for in one scope after another along the way out. -/
theorem Outward.lookup {heap : Heap} (hnested : heap.Nested) {scope : Nat} {path : List Nat}
    (hpath : heap.Outward scope path) (name : String) :
    heap.lookup name scope = path.findSome? fun inner => (heap.bindings inner).get? name := by
  induction hpath with
  | @last scope found hscope houter =>
    rw [Heap.lookup, hscope, List.findSome?_cons, bindings_of_getElem? hscope]
    cases hget : found.bindings.get? name <;> simp [hget, houter]
  | @step scope outer found path hscope houter _ ih =>
    have hlt := hnested scope found outer hscope houter
    rw [Heap.lookup, hscope, List.findSome?_cons, bindings_of_getElem? hscope]
    cases hget : found.bindings.get? name <;> simp [hget, houter, hlt, ih]

theorem keepsLinks_newScope (heap : Heap) (outer : Option Nat) :
    heap.KeepsLinks (heap.newScope outer).2 := by
  intro scope old hold
  have hscope := (Array.getElem?_eq_some_iff.mp hold).1
  refine ⟨old, ?_, rfl⟩
  rw [newScope, Array.getElem?_push, if_neg (Nat.ne_of_lt hscope), hold]

/-- A new scope binds nothing, as if it were not there. -/
theorem bindings_newScope (heap : Heap) (outer : Option Nat) (scope : Nat) :
    (heap.newScope outer).2.bindings scope = heap.bindings scope := by
  rw [bindings, newScope, Array.getElem?_push]
  split
  · rename_i hscope
    rw [bindings, hscope, Array.getElem?_eq_none (Nat.le_refl _)]
    rfl
  · rfl

theorem Nested.newScope {heap : Heap} (hnested : heap.Nested) {outer : Option Nat}
    (houter : ∀ scope ∈ outer, scope < heap.scopes.size) : (heap.newScope outer).2.Nested := by
  intro scope found next hscope hnext
  rw [Heap.newScope, Array.getElem?_push] at hscope
  split at hscope
  · rename_i hnew
    cases hscope
    rw [hnew]
    exact houter next hnext
  · exact hnested scope found next hscope hnext

private theorem getElem?_scopes_define (heap : Heap) (scope other : Nat) (name : String)
    (value : Value) :
    (heap.define scope name value).scopes[other]? = heap.scopes[other]?.map fun old =>
      if other = scope then { old with bindings := old.bindings.insert name value } else old := by
  rw [define, Array.getElem?_modify]
  by_cases hscope : scope = other
  · simp [hscope]
  · simp [hscope, Ne.symm hscope]

theorem keepsLinks_define (heap : Heap) (scope : Nat) (name : String) (value : Value) :
    heap.KeepsLinks (heap.define scope name value) := by
  intro other old hold
  rw [getElem?_scopes_define, hold]
  refine ⟨_, rfl, ?_⟩
  split <;> rfl

theorem Nested.define {heap : Heap} (hnested : heap.Nested) (scope : Nat) (name : String)
    (value : Value) : (heap.define scope name value).Nested := by
  intro other found outer hother houter
  rw [getElem?_scopes_define] at hother
  obtain ⟨old, hold, rfl⟩ := Option.map_eq_some_iff.mp hother
  refine hnested other old outer hold ?_
  split at houter <;> exact houter

theorem bindings_define {heap : Heap} {scope : Nat} (hscope : scope < heap.scopes.size)
    (name : String) (value : Value) (other : Nat) : (heap.define scope name value).bindings other =
      if other = scope then (heap.bindings other).insert name value else heap.bindings other := by
  rw [bindings, bindings, getElem?_scopes_define]
  split
  · rename_i hsame
    subst hsame
    simp [Array.getElem?_eq_getElem hscope]
  · simp

end Heap

/-- Where the first answer along a list changes, it is because of the one member that answers
otherwise, and no member before that one has an answer. -/
private theorem exists_append_of_findSome?_ne {α β : Type} {f g : α → Option β} {a : α}
    (hothers : ∀ b, b ≠ a → f b = g b) {list : List α}
    (hne : list.findSome? f ≠ list.findSome? g) :
    ∃ inner outer, list = inner ++ a :: outer ∧ ∀ b ∈ inner, g b = none := by
  induction list with
  | nil => exact absurd rfl hne
  | cons b rest ih =>
    by_cases hb : b = a
    · exact ⟨[], rest, by rw [hb, List.nil_append], by simp⟩
    · rw [List.findSome?_cons, List.findSome?_cons, hothers b hb] at hne
      cases hg : g b with
      | some value => simp [hg] at hne
      | none =>
        obtain ⟨inner, outer, rfl, hinner⟩ := ih (by simpa [hg] using hne)
        exact ⟨b :: inner, outer, rfl, List.forall_mem_cons.mpr ⟨hg, hinner⟩⟩

namespace ScopeLog

private theorem settingsOf_set (log : ScopeLog) (scope other : Nat) (name : String)
    (value : Value) :
    { log with settings := log.settings ++ [(scope, name, value)] : ScopeLog }.settingsOf other =
      log.settingsOf other ++ if other = scope then [(name, value)] else [] := by
  rw [settingsOf, settingsOf, List.filter_append, List.map_append]
  by_cases hother : scope = other
  · simp [hother]
  · simp [hother, Ne.symm hother]

/-- A log tells how scopes came to be as they are. What a scope binds is what was set in it, one
after another. -/
structure Describes (log : ScopeLog) (scopes : Scopes) : Prop where
  handles : scopes.handles = log.handles
  size : scopes.heap.scopes.size = log.paths.length
  valid : ∀ scope ∈ log.handles, scope < log.paths.length
  outward : ∀ scope < log.paths.length, scopes.heap.Outward scope (log.path scope)
  nested : scopes.heap.Nested
  bindings : ∀ scope, scopes.heap.bindings scope = .ofInserts (log.settingsOf scope)

namespace Describes

variable {log : ScopeLog} {scopes : Scopes} (hlog : log.Describes scopes)

include hlog

theorem add {outer : Option Nat} (houter : ∀ scope ∈ outer, scope < log.paths.length) :
    (log.add outer).Describes (scopes.add outer) := by
  have hsize := hlog.size
  have hnew : (scopes.heap.newScope outer).2.scopes[log.paths.length]? = some { outer } := by
    rw [← hsize]
    exact Array.getElem?_push_size
  have holder {scope : Nat} (hscope : scope < log.paths.length) :
      (scopes.heap.newScope outer).2.Outward scope (log.path scope) :=
    (hlog.outward scope hscope).of_keepsLinks (scopes.heap.keepsLinks_newScope outer)
  refine ⟨?_, ?_, ?_, ?_, ?_, ?_⟩
  · rw [Scopes.add, ScopeLog.add, hlog.handles, ← hsize]
    rfl
  · simp [Scopes.add, ScopeLog.add, Heap.newScope, hsize]
  · intro scope hscope
    have hlength : (log.add outer).paths.length = log.paths.length + 1 := by simp [ScopeLog.add]
    rcases List.mem_append.mp hscope with hold | hadded
    · have hlt := hlog.valid scope hold
      omega
    · rw [List.mem_singleton.mp hadded]
      omega
  · intro scope hscope
    rw [path, ScopeLog.add, List.getElem?_append]
    split
    · rename_i hlt
      exact holder hlt
    · rename_i hle
      have heq : scope = log.paths.length := by
        simp [ScopeLog.add] at hscope
        omega
      subst heq
      rw [Nat.sub_self]
      cases outer with
      | none => exact .last hnew rfl
      | some outer => exact .step hnew rfl (holder (houter outer rfl))
  · exact hlog.nested.newScope (hsize ▸ houter)
  · intro scope
    exact (scopes.heap.bindings_newScope outer scope).trans (hlog.bindings scope)

theorem clone {scope : Nat} (hscope : scope ∈ log.handles) :
    { log with handles := log.handles ++ [scope] : ScopeLog }.Describes
      { scopes with handles := scopes.handles ++ [scope] } := by
  refine ⟨by rw [hlog.handles], hlog.size, ?_, hlog.outward, hlog.nested, hlog.bindings⟩
  intro other hother
  rcases List.mem_append.mp hother with hold | hadded
  · exact hlog.valid other hold
  · rw [List.mem_singleton.mp hadded]
    exact hlog.valid scope hscope

theorem set {scope : Nat} (hscope : scope ∈ log.handles) (name : String) (value : Value) :
    { log with settings := log.settings ++ [(scope, name, value)] : ScopeLog }.Describes
      { scopes with heap := scopes.heap.define scope name value } := by
  have hlt : scope < scopes.heap.scopes.size := by
    rw [hlog.size]
    exact hlog.valid scope hscope
  refine ⟨hlog.handles, Array.size_modify.trans hlog.size, hlog.valid, ?_,
    hlog.nested.define scope name value, ?_⟩
  · intro other hother
    exact (hlog.outward other hother).of_keepsLinks
      (scopes.heap.keepsLinks_define scope name value)
  · intro other
    rw [Heap.bindings_define hlt, settingsOf_set, hlog.bindings]
    split
    · rw [OrderedMap.ofInserts_concat]
    · rw [List.append_nil]

/-- Every operation is noted down as what it does. -/
theorem step (op : ScopeOp) : (log.step op).Describes (scopes.step op) := by
  have hhandle (handle : Nat) : scopes.handles[handle]? = log.handles[handle]? := by
    rw [hlog.handles]
  cases op with
  | new => exact hlog.add (by simp)
  | enclose handle =>
    simp only [ScopeLog.step, Scopes.step, hhandle]
    split
    · exact hlog
    · rename_i outer houter
      exact hlog.add (by simpa using hlog.valid outer (List.mem_of_getElem? houter))
  | clone handle =>
    simp only [ScopeLog.step, Scopes.step, hhandle]
    split
    · exact hlog
    · rename_i scope hscope
      exact hlog.clone (List.mem_of_getElem? hscope)
  | set handle name value =>
    simp only [ScopeLog.step, Scopes.step, hhandle]
    split
    · exact hlog
    · rename_i scope hscope
      exact hlog.set (List.mem_of_getElem? hscope) name value
  | get | names => exact hlog

end Describes

theorem describes_after (ops : List ScopeOp) : (after ops).Describes (.after ops) := by
  induction ops using List.reverseRecOn with
  | nil =>
    refine ⟨rfl, rfl, by simp [after], by simp [after], fun _ _ _ hscope => ?_, fun _ => rfl⟩
    cases hscope
  | append_singleton ops op ih =>
    rw [after, Scopes.after, List.foldl_concat, List.foldl_concat]
    exact ih.step op

theorem latest_set (log : ScopeLog) (scope other : Nat) (name wanted : String) (value : Value) :
    { log with settings := log.settings ++ [(scope, name, value)] : ScopeLog }.latest wanted other =
      if other = scope ∧ wanted = name then some value else log.latest wanted other := by
  rw [latest, latest, settingsOf_set, List.filter_append]
  by_cases hother : other = scope
  · by_cases hname : name = wanted
    · simp [hother, hname]
    · simp [hother, hname, Ne.symm hname]
  · simp [hother]

namespace Describes

variable {log : ScopeLog} {scopes : Scopes} (hlog : log.Describes scopes)

include hlog

theorem get?_bindings (name : String) (scope : Nat) :
    (scopes.heap.bindings scope).get? name = log.latest name scope := by
  rw [hlog.bindings, OrderedMap.get?_ofInserts, latest]

theorem lookup {scope : Nat} (hscope : scope ∈ log.handles) (name : String) :
    scopes.heap.lookup name scope = (log.path scope).findSome? (log.latest name) := by
  rw [(hlog.outward scope (hlog.valid scope hscope)).lookup hlog.nested]
  simp only [hlog.get?_bindings]

theorem get_eq (handle : Nat) (name : String) : scopes.get handle name = log.get handle name := by
  rw [Scopes.get, ScopeLog.get, hlog.handles]
  cases hscope : log.handles[handle]? with
  | none => rfl
  | some scope => exact hlog.lookup (List.mem_of_getElem? hscope) name

theorem names_eq (handle : Nat) : scopes.names handle = log.names handle := by
  rw [Scopes.names, ScopeLog.names, hlog.handles]
  refine congrArg (Option.map · log.handles[handle]?) (funext fun scope => ?_)
  rw [Heap.names, hlog.bindings, OrderedMap.keys_ofInserts]

theorem nodup_names (scope : Nat) : (scopes.heap.names scope).Nodup := by
  rw [Heap.names, hlog.bindings]
  exact OrderedMap.nodup_keys_ofInserts _

end Describes

/-- What is set in a scope shows only where the way out leads through it, and only if the name is
not bound before that. -/
theorem Describes.of_get_step_set_ne {log : ScopeLog} {scopes : Scopes}
    (hlog : log.Describes scopes) {handle other : Nat} {name wanted : String} {value : Value}
    (hne : (scopes.step (.set handle name value)).get other wanted ≠ scopes.get other wanted) :
    wanted = name ∧ ∃ scope start inner outer, scopes.handles[handle]? = some scope ∧
      scopes.handles[other]? = some start ∧ log.path start = inner ++ scope :: outer ∧
      ∀ between ∈ inner, name ∉ scopes.heap.names between := by
  rw [(hlog.step _).get_eq, hlog.get_eq, ScopeLog.get, ScopeLog.get, ScopeLog.step] at hne
  rw [hlog.handles]
  cases hscope : log.handles[handle]? with
  | none => simp [hscope] at hne
  | some scope =>
    simp only [hscope] at hne
    cases hstart : log.handles[other]? with
    | none => simp [hstart] at hne
    | some start =>
      simp only [hstart, Option.bind_some] at hne
      have hlatest (b : Nat) := log.latest_set scope b name wanted value
      by_cases hname : wanted = name
      · subst hname
        obtain ⟨inner, outer, hpath, hinner⟩ :=
          exists_append_of_findSome?_ne (a := scope) (fun b hb => by simp [hlatest, hb]) hne
        refine ⟨rfl, scope, start, inner, outer, rfl, rfl, hpath, fun between hbetween => ?_⟩
        refine OrderedMap.not_mem_keys_of_get?_eq_none ?_
        rw [hlog.get?_bindings, hinner between hbetween]
      · refine absurd ?_ hne
        congr 1
        funext b
        simp [hlatest, hname]

end ScopeLog

/-- Whatever was done with scopes, the links out of each of them end. A name has the value that was
set last for it in the nearest scope in which it was ever set, and a scope lists the names that were
ever set in it, each of them once, in the order in which they were set first. To set a name shows
only in the scope itself and in those inside it, and only for that name, unless a scope on the way
binds it. -/
theorem scopes_find_nearest_binding (ops : List ScopeOp) :
    let scopes := Scopes.after ops
    let log := ScopeLog.after ops
    (∀ scope ∈ scopes.handles, scopes.heap.Outward scope (log.path scope)) ∧
    (∀ handle name, scopes.get handle name = log.get handle name) ∧
    (∀ handle, scopes.names handle = log.names handle ∧
      ∀ names ∈ scopes.names handle, names.Nodup) ∧
    ∀ handle other name wanted value,
      (scopes.step (.set handle name value)).get other wanted ≠ scopes.get other wanted →
      wanted = name ∧ ∃ scope start inner outer, scopes.handles[handle]? = some scope ∧
        scopes.handles[other]? = some start ∧ scopes.heap.Outward start (inner ++ scope :: outer) ∧
        ∀ between ∈ inner, name ∉ scopes.heap.names between := by
  intro scopes log
  have hlog : log.Describes scopes := ScopeLog.describes_after ops
  have houtward (scope : Nat) (hscope : scope ∈ scopes.handles) :
      scopes.heap.Outward scope (log.path scope) :=
    hlog.outward scope (hlog.valid scope (hlog.handles ▸ hscope))
  refine ⟨houtward, hlog.get_eq, fun handle => ⟨hlog.names_eq handle, ?_⟩, ?_⟩
  · intro names hnames
    obtain ⟨scope, -, rfl⟩ := Option.map_eq_some_iff.mp hnames
    exact hlog.nodup_names scope
  · intro handle other name wanted value hne
    obtain ⟨hname, scope, start, inner, outer, hscope, hstart, hpath, hinner⟩ :=
      hlog.of_get_step_set_ne hne
    refine ⟨hname, scope, start, inner, outer, hscope, hstart, ?_, hinner⟩
    rw [← hpath]
    exact houtward start (List.mem_of_getElem? hstart)

/-- What is set through another handle to a scope shows in the scope inside it. -/
theorem scopes_find_nearest_binding_clone :
    let scopes := Scopes.after [.new, .enclose 0, .clone 0]
    let set := scopes.step (.set 2 "x" .null)
    scopes.get 1 "x" = none ∧ set.get 1 "x" = some .null ∧ ∃ scope start inner outer,
      scopes.handles[2]? = some scope ∧ scopes.handles[1]? = some start ∧
      scopes.heap.Outward start (inner ++ scope :: outer) ∧
      ∀ between ∈ inner, "x" ∉ scopes.heap.names between := by
  intro scopes set
  have hnone : scopes.get 1 "x" = none := by decide +kernel
  have hsome : set.get 1 "x" = some .null := by decide +kernel
  obtain ⟨-, -, -, hset⟩ := scopes_find_nearest_binding [.new, .enclose 0, .clone 0]
  refine ⟨hnone, hsome, (hset 2 1 "x" "x" .null ?_).2⟩
  exact hsome.trans_ne (by rw [hnone]; exact Option.some_ne_none _)

end MonkeyLang
