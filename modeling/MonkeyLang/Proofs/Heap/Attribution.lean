import Mathlib.Logic.Relation
import MonkeyLang.Proofs.Eval.Frame
import MonkeyLang.Proofs.Heap.History

namespace MonkeyLang

/-- The function whose call made a scope. The first scope is there from the start, and every call
makes one more. -/
def callee? (called : List Closure) : Nat → Option Closure
  | 0 => none
  | i + 1 => called[i]?

theorem callee?_append (called : List Closure) (closure : Closure) (i : Nat) :
    callee? (called ++ [closure]) i =
      if i = called.length + 1 then some closure else callee? called i := by
  cases i with
  | zero => simp [callee?]
  | succ i =>
    rw [callee?, callee?]
    grind

namespace Heap

/-- One scope stands directly inside another. -/
def Encloses (heap : Heap) (inner outer : Nat) : Prop :=
  ∃ scope, heap.scopes[inner]? = some scope ∧ scope.outer = some outer

/-- All scopes but the first one come from calls. The scope of a call stands inside the one in which
the function was written, and it binds no name of a builtin function but those of parameters. -/
structure Attributed (called : List Closure) (heap : Heap) : Prop where
  size : heap.scopes.size = called.length + 1
  outer : ∀ i j, heap.Encloses i j ↔ ∃ closure, callee? called i = some closure ∧ closure.scope = j
  names : ∀ i, ∀ name ∈ heap.names i, Builtin.ofName? name ≠ none →
    ∃ closure, callee? called i = some closure ∧ name ∈ closure.params

theorem Encloses.lt_size {heap : Heap} {inner outer : Nat} (hencloses : heap.Encloses inner outer) :
    inner < heap.scopes.size := by
  obtain ⟨scope, hscope, -⟩ := hencloses
  exact (Array.getElem?_eq_some_iff.mp hscope).1

theorem mem_names {heap : Heap} {i : Nat} {name : String} : name ∈ heap.names i ↔
    ∃ scope, heap.scopes[i]? = some scope ∧ name ∈ scope.bindings.keys := by
  rw [names, bindings]
  cases heap.scopes[i]? with
  | none => simp [OrderedMap.keys, OrderedMap.empty]
  | some scope => simp

theorem Frame.defineAll (heap : Heap) (scope : Nat) {targets : String → Prop}
    {bindings : List (String × Value)} (hbindings : ∀ binding ∈ bindings, targets binding.1) :
    Frame scope targets heap (heap.defineAll scope bindings) := by
  induction bindings generalizing heap with
  | nil => exact (Keeps.of_scopes_eq rfl).frame
  | cons binding bindings ih =>
    obtain ⟨htarget, hrest⟩ := List.forall_mem_cons.mp hbindings
    exact (Frame.define heap htarget binding.2).trans (ih (heap.define scope _ _) hrest)

private theorem size_defineAll (heap : Heap) (scope : Nat) (bindings : List (String × Value)) :
    (heap.defineAll scope bindings).scopes.size = heap.scopes.size := by
  induction bindings generalizing heap with
  | nil => rfl
  | cons binding bindings ih =>
    rw [defineAll, List.foldl_cons, ← defineAll, ih]
    exact Array.size_modify

section

variable {before after : Heap} {scope : Nat} {targets : String → Prop}

theorem Frame.encloses_iff (hframe : Frame scope targets before after) {inner outer : Nat}
    (hinner : inner < before.scopes.size) :
    after.Encloses inner outer ↔ before.Encloses inner outer := by
  have hold := Array.getElem?_eq_getElem hinner
  obtain ⟨new, hnew, hsame⟩ : ∃ new, after.scopes[inner]? = some new ∧
      new.outer = before.scopes[inner].outer := by
    by_cases hscope : inner = scope
    · subst hscope
      obtain ⟨new, hnew, hsame, -⟩ := hframe.own _ hold
      exact ⟨new, hnew, hsame⟩
    · exact ⟨_, hframe.others inner _ hscope hold, rfl⟩
  simp only [Encloses, hold, hnew, Option.some.injEq, exists_eq_left', hsame]

/-- The names of a scope that was there before were its names then, or they are targets. -/
theorem Frame.mem_names (hframe : Frame scope targets before after) {i : Nat}
    (hi : i < before.scopes.size) {name : String} (hname : name ∈ after.names i) :
    name ∈ before.names i ∨ i = scope ∧ targets name := by
  have hold := Array.getElem?_eq_getElem hi
  obtain ⟨found, hfound, hkey⟩ := Heap.mem_names.mp hname
  by_cases hscope : i = scope
  · subst hscope
    obtain ⟨new, hnew, -, hrebound⟩ := hframe.own _ hold
    cases hfound.symm.trans hnew
    rcases hrebound.added name hkey with hkept | htarget
    · exact .inl (Heap.mem_names.mpr ⟨_, hold, hkept⟩)
    · exact .inr ⟨rfl, htarget⟩
  · cases hfound.symm.trans (hframe.others i _ hscope hold)
    exact .inl (Heap.mem_names.mpr ⟨_, hold, hkey⟩)

end

section

variable (heap : Heap) (closure : Closure) (args : List Value)

/-- The parameters are bound in the scope that a call makes. -/
theorem frame_enter : Frame heap.scopes.size (· ∈ closure.params)
    (heap.newScope (some closure.scope)).2 (heap.enter closure args) :=
  Frame.defineAll _ _ fun _ hbinding => (List.of_mem_zip hbinding).1

private theorem size_enter : (heap.enter closure args).scopes.size = heap.scopes.size + 1 := by
  rw [enter, size_defineAll]
  exact Array.size_push _

private theorem getElem?_newScope :
    (heap.newScope (some closure.scope)).2.scopes[heap.scopes.size]? =
      some { outer := some closure.scope } :=
  Array.getElem?_push_size

/-- The scope of a call stands inside the one in which the function was written, and all others
stand where they stood. -/
theorem encloses_enter {i j : Nat} : (heap.enter closure args).Encloses i j ↔
    if i = heap.scopes.size then closure.scope = j else heap.Encloses i j := by
  have hframe := heap.frame_enter closure args
  split
  · rename_i hi
    have hlt : i < (heap.newScope (some closure.scope)).2.scopes.size := by
      simp [hi, newScope]
    rw [hframe.encloses_iff hlt, Encloses, hi, getElem?_newScope]
    simp
  · rename_i hne
    have hframe' : Frame 0 (fun _ => True) heap (heap.enter closure args) :=
      hframe.keeps_of_newScope.frame
    constructor
    · intro hencloses
      have hlt := hencloses.lt_size
      rw [size_enter] at hlt
      exact (hframe'.encloses_iff (by omega)).mp hencloses
    · intro hencloses
      exact (hframe'.encloses_iff hencloses.lt_size).mpr hencloses

/-- The scope of a call has no names but those of the parameters, and all others have the names that
they had. -/
theorem mem_names_enter {i : Nat} {name : String}
    (hname : name ∈ (heap.enter closure args).names i) :
    if i = heap.scopes.size then name ∈ closure.params else name ∈ heap.names i := by
  have hframe := heap.frame_enter closure args
  split
  · rename_i hi
    rw [hi] at hname
    rcases hframe.mem_names (by simp [newScope]) hname with hold | ⟨-, hparam⟩
    · obtain ⟨scope, hscope, hkey⟩ := mem_names.mp hold
      cases (heap.getElem?_newScope closure).symm.trans hscope
      cases hkey
    · exact hparam
  · rename_i hne
    obtain ⟨scope, hscope, hkey⟩ := mem_names.mp hname
    have hi := (Array.getElem?_eq_some_iff.mp hscope).1
    rw [size_enter] at hi
    have hold := Array.getElem?_eq_getElem (show i < heap.scopes.size by omega)
    cases hscope.symm.trans (hframe.keeps_of_newScope i _ hold)
    exact mem_names.mpr ⟨_, hold, hkey⟩

end

end Heap

open Heap

namespace Heap.Attributed

variable {called : List Closure} {heap : Heap} (hheap : heap.Attributed called)

include hheap

/-- Bindings of other names than those of builtin functions. -/
theorem frame {after : Heap} {scope : Nat} {targets : String → Prop}
    (hframe : Frame scope targets heap after) (hsize : after.scopes.size = heap.scopes.size)
    (htargets : ∀ name, targets name → Builtin.ofName? name = none) :
    after.Attributed called := by
  refine ⟨hsize.trans hheap.size, fun i j => ?_, fun i name hname hbuiltin => ?_⟩
  · rw [← hheap.outer]
    constructor
    · intro hencloses
      exact (hframe.encloses_iff (hsize ▸ hencloses.lt_size)).mp hencloses
    · intro hencloses
      exact (hframe.encloses_iff hencloses.lt_size).mpr hencloses
  · obtain ⟨found, hfound, -⟩ := Heap.mem_names.mp hname
    have hi : i < heap.scopes.size := by
      rw [← hsize]
      exact (Array.getElem?_eq_some_iff.mp hfound).1
    rcases hframe.mem_names hi hname with hold | ⟨-, htarget⟩
    · exact hheap.names i name hold hbuiltin
    · exact absurd (htargets name htarget) hbuiltin

/-- A change of the heap that leaves its scopes as they are. -/
theorem of_scopes_eq {after : Heap} (hscopes : after.scopes = heap.scopes) :
    after.Attributed called := by
  have hframe : Frame 0 (fun _ => False) heap after := (Keeps.of_scopes_eq hscopes).frame
  exact hheap.frame hframe (congrArg Array.size hscopes) fun _ => False.elim

/-- A call adds its scope to those of the calls before. -/
theorem enter (closure : Closure) (args : List Value) :
    (heap.enter closure args).Attributed (called ++ [closure]) := by
  refine ⟨?_, fun i j => ?_, fun i name hname hbuiltin => ?_⟩
  · rw [size_enter, hheap.size, List.length_append, List.length_singleton]
  · rw [encloses_enter, callee?_append, ← hheap.size]
    split
    · simp
    · exact hheap.outer i j
  · rw [callee?_append, ← hheap.size]
    have hown := mem_names_enter heap closure args hname
    split at hown
    · exact ⟨closure, if_pos ‹_›, hown⟩
    · rw [if_neg ‹_›]
      exact hheap.names i name hown hbuiltin

end Heap.Attributed

theorem attributed_fresh : (Heap.newScope {} none).2.Attributed [] := by
  have hfresh {i : Nat} {scope : Scope}
      (hscope : (Heap.newScope {} none).2.scopes[i]? = some scope) : scope = {} := by
    obtain ⟨hi, hscope⟩ := Array.getElem?_eq_some_iff.mp hscope
    have hi : i = 0 := Nat.lt_one_iff.mp hi
    subst hi
    exact hscope.symm
  refine ⟨rfl, fun i j => ⟨?_, ?_⟩, fun i name hname => ?_⟩
  · rintro ⟨scope, hscope, houter⟩
    rw [hfresh hscope] at houter
    cases houter
  · rintro ⟨closure, hclosure, -⟩
    cases i <;> cases hclosure
  · obtain ⟨scope, hscope, hkey⟩ := Heap.mem_names.mp hname
    rw [hfresh hscope] at hkey
    cases hkey

/-- A name that is found is bound in a scope around the one where the search begins. -/
theorem Heap.mem_names_of_lookup {heap : Heap} {name : String} {scope : Nat} {value : Value}
    (hvalue : heap.lookup name scope = some value) :
    ∃ other, Relation.ReflTransGen heap.Encloses scope other ∧ name ∈ heap.names other := by
  fun_induction Heap.lookup heap name scope with
  | case1 => cases hvalue
  | case2 scope found hscope value' hbound =>
    have hentry := OrderedMap.mem_of_get?_eq_some hbound
    exact ⟨scope, .refl, mem_names.mpr ⟨found, hscope, List.mem_map_of_mem hentry⟩⟩
  | case3 => cases hvalue
  | case4 scope found hscope hbound outer houter hlt ih =>
    obtain ⟨other, hchain, hname⟩ := ih hvalue
    exact ⟨other, .head ⟨found, hscope, houter⟩ hchain, hname⟩
  | case5 => cases hvalue

end MonkeyLang
