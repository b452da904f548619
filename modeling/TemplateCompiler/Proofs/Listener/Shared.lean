import TemplateCompiler.Proofs.Listener.Store
import TemplateCompiler.Tree.Shared

/-!
# Listeners that share their modifiers

Adding a listener takes modifiers out of a mapping. The mapping is a copy in the last cell, and no step reaches another
cell (`run_remove`, `run_take`), so that the element gets the listener with what its own cell held, and the cells that
were there keep their contents (`run_add`). This holds for a whole sequence of listeners, also if they share a cell
(`run_addAll`, `store_of_calls`).
-/

namespace TemplateCompiler

namespace MappingM

variable {α β : Type} {mappings mappings' : Mappings} {m : Modifiers} {key : String}

theorem run_bind {x : MappingM α} {a : α} (hx : x.run mappings = (a, mappings')) (f : α → MappingM β) :
    (x >>= f).run mappings = (f a).run mappings' := by
  rw [StateT.run_bind, hx]
  rfl

/-! ## The copy in the last cell -/

theorem run_read (mappings : Mappings) (m : Modifiers) :
    (read (some mappings.size)).run (mappings.push m) = (some m, mappings.push m) :=
  congrArg (·, mappings.push m) Array.getElem?_push_size

theorem run_isOn (mappings : Mappings) (m : Modifiers) (key : String) :
    (isOn (some mappings.size) key).run (mappings.push m) = (m.on key, mappings.push m) :=
  run_bind (run_read mappings m) _

theorem run_remove (mappings : Mappings) (m : Modifiers) (key : String) :
    (remove (some mappings.size) key).run (mappings.push m) =
      ((), mappings.push (Table.erase (.string key) m)) := by
  have hmodify : (mappings.push m).modify mappings.size (Table.erase (.string key)) =
      mappings.push (Table.erase (.string key) m) := by
    refine Array.ext_getElem? fun k => ?_
    rw [Array.getElem?_modify, Array.getElem?_push, Array.getElem?_push]
    by_cases hk : k = mappings.size
    · simp [hk]
    · rw [if_neg (Ne.symm hk), if_neg hk, if_neg hk]
  exact congrArg ((), ·) hmodify

theorem run_take (mappings : Mappings) (m : Modifiers) (key : String) :
    (take (some mappings.size) key).run (mappings.push m) =
      (m.on key, mappings.push (Table.erase (.string key) m)) := by
  unfold take
  rw [run_bind (run_isOn mappings m key), run_bind (run_remove mappings m key)]
  rfl

end MappingM

namespace SharedListener

open MappingM Listener

variable {mappings : Mappings} {s : SharedListener} {l : Listener}

/-- With a copy, the event is the one that fires for the modifiers, and what names it is gone from the copy. -/
theorem run_rename (hname : s.name = l.name) (hdynamic : s.dynamic = l.dynamic) (mappings : Mappings) (m : Modifiers) :
    (s.rename (some mappings.size)).run (mappings.push m) = ((l.actualName m).1, mappings.push (l.actualName m).2) := by
  unfold rename actualName
  rw [run_bind (run_isOn mappings m "right"), hname, hdynamic]
  by_cases hright : m.on "right" = true
  · rw [if_pos hright, if_pos hright]
    by_cases hdynamic : l.dynamic = true
    · rw [if_pos hdynamic, if_pos hdynamic]
      rfl
    rw [if_neg hdynamic, if_neg hdynamic]
    by_cases hclick : (l.name == "click") = true
    · rw [if_pos hclick, if_pos hclick, run_bind (run_remove mappings m "right")]
      rfl
    · rw [if_neg hclick, if_neg hclick]
      rfl
  · rw [if_neg hright, if_neg hright, run_bind (run_isOn mappings m "middle")]
    by_cases hmiddle : m.on "middle" = true
    · rw [if_pos hmiddle, if_pos hmiddle]
      by_cases hdynamic : l.dynamic = true
      · rw [if_pos hdynamic, if_pos hdynamic]
        rfl
      rw [if_neg hdynamic, if_neg hdynamic]
      by_cases hclick : (l.name == "click") = true
      · rw [if_pos hclick, if_pos hclick]
        rfl
      · rw [if_neg hclick, if_neg hclick]
        rfl
    · rw [if_neg hmiddle, if_neg hmiddle]
      rfl

theorem run_absorb (hdynamic : s.dynamic = l.dynamic) (hhelper : s.prependHelper = l.prependHelper)
    (mappings : Mappings) (m : Modifiers) (name : String) (marker : String × String) :
    (s.absorb (some mappings.size) name marker).run (mappings.push m) =
      ((l.absorb (name, m) marker).1, mappings.push (l.absorb (name, m) marker).2) := by
  unfold absorb Listener.absorb
  rw [run_bind (run_take mappings m marker.1), hdynamic, hhelper]
  dsimp only
  split <;> rfl

theorem run_absorbAll (hdynamic : s.dynamic = l.dynamic) (hhelper : s.prependHelper = l.prependHelper)
    (mappings : Mappings) (markers : List (String × String)) (acc : String × Modifiers) :
    (markers.foldlM (s.absorb (some mappings.size)) acc.1).run (mappings.push acc.2) =
      ((markers.foldl l.absorb acc).1, mappings.push (markers.foldl l.absorb acc).2) := by
  induction markers generalizing acc with
  | nil => rfl
  | cons marker markers ih =>
    rw [List.foldlM_cons, run_bind (run_absorb hdynamic hhelper mappings acc.2 acc.1 marker), ih]
    rfl

/-- Without modifiers there is nothing to find and nothing to remove. -/
theorem run_absorbAll_none (markers : List (String × String)) (name : String) :
    (markers.foldlM (s.absorb none) name).run mappings = (name, mappings) := by
  induction markers with
  | nil => rfl
  | cons marker markers ih =>
    have habsorb : (s.absorb none name marker).run mappings = (name, mappings) := rfl
    rw [List.foldlM_cons, run_bind habsorb, ih]

/-- The element gets the listener with what its cell holds. What is left of the modifiers is in a new cell. -/
theorem run_add (s : SharedListener) (e : Element) (mappings : Mappings) : (s.add e).run mappings =
    (e.addHandler (s.listener mappings), mappings ++ (s.listener mappings).resolve.2.2.toArray) := by
  have hread : (MappingM.read s.modifiers).run mappings = ((s.listener mappings).modifiers, mappings) := rfl
  unfold add
  rcases hgiven : (s.listener mappings).given with _ | m
  · have hcopy : (copy s.modifiers).run mappings = (none, mappings) := by
      unfold copy
      rw [run_bind hread, ← given, hgiven]
      rfl
    have hrename : (s.rename none).run mappings = (s.name, mappings) := rfl
    rw [run_bind hcopy, run_bind hrename, run_bind (run_absorbAll_none nameMarkers s.name)]
    unfold Element.addHandler handler resolve
    rw [hgiven]
    simp only [Option.toArray_none, Array.append_empty]
    rfl
  · have hcopy : (copy s.modifiers).run mappings = (some mappings.size, mappings.push m) := by
      unfold copy
      rw [run_bind hread, ← given, hgiven]
      rfl
    rw [run_bind hcopy, run_bind (run_rename (l := s.listener mappings) rfl rfl mappings m),
      run_bind (run_absorbAll (l := s.listener mappings) rfl rfl mappings _ _),
      run_bind (run_take mappings _ "native"), run_bind (run_read mappings _)]
    unfold Element.addHandler handler resolve
    rw [hgiven]
    simp only [Option.toArray_some, Array.append_singleton]
    split <;> rfl

theorem listener_append (hcell : ∀ cell ∈ s.modifiers, cell < mappings.size) (extra : Mappings) :
    s.listener (mappings ++ extra) = s.listener mappings := by
  unfold listener
  rcases hmodifiers : s.modifiers with _ | cell
  · rfl
  · have hget : (mappings ++ extra)[cell]? = mappings[cell]? := Array.getElem?_append_left (hcell cell hmodifiers)
    rw [Option.bind_some, Option.bind_some, hget]

/-- By induction on the calls: each one leaves new cells behind those that the calls after it may read. -/
theorem run_addAll {calls : List SharedListener} {mappings : Mappings}
    (hcells : ∀ s ∈ calls, ∀ cell ∈ s.modifiers, cell < mappings.size) (e : Element) :
    ∃ extra, (addAll calls e).run mappings =
      ((calls.map (listener mappings)).foldl Element.addHandler e, mappings ++ extra) := by
  induction calls generalizing mappings e with
  | nil => exact ⟨#[], congrArg (e, ·) (Array.append_empty ..).symm⟩
  | cons s calls ih =>
    obtain ⟨-, hrest⟩ := List.forall_mem_cons.mp hcells
    have hgrown (kept : Mappings) : ∀ s ∈ calls, ∀ cell ∈ s.modifiers, cell < (mappings ++ kept).size :=
      fun s hs cell hcell => Nat.lt_of_lt_of_le (hrest s hs cell hcell) (by simp)
    have hsame (kept : Mappings) : calls.map (listener (mappings ++ kept)) = calls.map (listener mappings) :=
      List.map_congr_left fun s hs => listener_append (hrest s hs) kept
    obtain ⟨extra, hrun⟩ := ih (hgrown (s.listener mappings).resolve.2.2.toArray) (e.addHandler (s.listener mappings))
    refine ⟨(s.listener mappings).resolve.2.2.toArray ++ extra, ?_⟩
    unfold addAll at hrun ⊢
    rw [List.foldlM_cons, run_bind (run_add s e mappings), hrun, hsame, Array.append_assoc]
    rfl

/-- Static listeners are added one after another to an element without listeners, with modifiers in cells that some of
them may share. They are all stored, each one once and with what its cell held before the first call, and every cell
that was there holds what it held. -/
theorem store_of_calls {e : Element} (hevents : e.events = []) (hnative : e.nativeEvents = []) {mappings : Mappings}
    (hkeys : ∀ m ∈ mappings, (Table.keys m).Nodup) {calls : List SharedListener}
    (hcells : ∀ s ∈ calls, ∀ cell ∈ s.modifiers, cell < mappings.size)
    (hstatic : ∀ s ∈ calls, s.dynamic = false) (hnames : ∀ s ∈ calls, Unmarked s.name) :
    ∃ e' mappings', (addAll calls e).run mappings = (e', mappings') ∧ Stores (calls.map (listener mappings)) e' ∧
      ∀ cell < mappings.size, mappings'[cell]? = mappings[cell]? := by
  obtain ⟨extra, hrun⟩ := run_addAll hcells e
  refine ⟨_, _, hrun, stores_foldl_addHandler hevents hnative ?_ ?_ ?_, fun cell hcell => ?_⟩
  · exact List.forall_mem_map.mpr hstatic
  · exact List.forall_mem_map.mpr hnames
  · refine List.forall_mem_map.mpr fun s _ m hm => hkeys m ?_
    obtain ⟨cell, -, hcell⟩ := Option.bind_eq_some_iff.mp hm
    exact Array.mem_of_getElem? hcell
  · exact Array.getElem?_append_left hcell

/-- Modifiers for a click with the right button, and for one that is caught early, once and natively. -/
def toolbarMappings : Mappings :=
  #[[("right", .bool true), ("prevent", .bool true)],
    [("once", .bool true), ("middle", .bool false), ("native", .bool true), ("capture", .int 1)]]

/-- Calls that meet under one event although only some of them name it, two of them with the same modifiers, and one
for the native element. -/
def toolbarCalls : List SharedListener :=
  [{ name := "click", value := " note ", modifiers := some 0 },
  { name := "contextmenu", value := "open", important := true },
  { name := "click", value := "zoom", modifiers := some 1 },
  { name := "click", value := "log", modifiers := some 0 },
  { name := "contextmenu", value := "guard", important := true }]

/-- The important listeners run first, the latest of them foremost. -/
theorem store_of_calls_toolbar : ∃ e mappings,
    (addAll toolbarCalls { tag := "menu" }).run toolbarMappings = (e, mappings) ∧
      Stores (toolbarCalls.map (listener toolbarMappings)) e ∧
      e.events = [("contextmenu", [{ value := "guard" }, { value := "open" },
        { value := "note", modifiers := some [("prevent", .bool true)] },
        { value := "log", modifiers := some [("prevent", .bool true)] }])] ∧
      e.nativeEvents = [("~!click", [{ value := "zoom", modifiers := some [("middle", .bool false)] }])] ∧
      ∀ cell < toolbarMappings.size, mappings[cell]? = toolbarMappings[cell]? := by
  obtain ⟨e, mappings, hrun, hstores, hcells⟩ := @store_of_calls { tag := "menu" } rfl rfl toolbarMappings (by decide)
    toolbarCalls (by decide) (by decide) (by decide)
  obtain rfl : ((addAll toolbarCalls { tag := "menu" }).run toolbarMappings).1 = e := congrArg Prod.fst hrun
  refine ⟨_, mappings, hrun, hstores, ?_, ?_, hcells⟩ <;> decide +kernel

end SharedListener

end TemplateCompiler
