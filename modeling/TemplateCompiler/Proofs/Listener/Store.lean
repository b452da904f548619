import Mathlib.Data.List.Nodup
import TemplateCompiler.Tree.Binding

/-!
# The store of listeners

Adding a listener to an element moves some of its modifiers into its name and puts its handler into one of two tables.
`Listener.resolve` is taken apart first: where a listener goes (`resolve_fullName`, `resolve_native`) and what is left
of its modifiers (`resolve_kept`). A call changes one list of one table (`listeners_addHandler`), so that a sequence
of calls leaves under each name the listeners of that name: the important ones, the latest of them first, what was
there before, and the others in order (`get?_listeners`). None is lost and none is stored twice (`perm_listeners`).

The names of static listeners can be read back: the markers stand in front, in a fixed order, and no event begins with
one. So listeners meet under a name only if they have the same `Address` (`stores_foldl_addHandler`).
-/

namespace TemplateCompiler

namespace Table

variable {κ α : Type} [DecidableEq κ] {key other : κ} {t : Table κ α}

theorem get?_erase_of_ne (h : other ≠ key) : get? other (erase key t) = get? other t := by
  induction t with
  | nil => rfl
  | cons e rest ih =>
    obtain ⟨k, v⟩ := e
    by_cases hk : k = key
    · rw [erase, if_pos hk, get?, if_neg fun heq => h (heq.symm.trans hk)]
    · rw [erase, if_neg hk, get?, get?, ih]

/-- In a table without double keys, nothing is left of a key that was removed. -/
theorem erase_eq_filter (h : (keys t).Nodup) : erase key t = t.filter fun e => e.1 ≠ key := by
  induction t with
  | nil => rfl
  | cons e rest ih =>
    obtain ⟨k, v⟩ := e
    obtain ⟨hk, hrest⟩ := List.nodup_cons.mp h
    by_cases heq : k = key
    · subst heq
      have hnone : rest.filter (fun e => e.1 ≠ k) = rest :=
        List.filter_eq_self.mpr fun e he => by
          simpa using fun heq : e.1 = k => hk (List.mem_map.mpr ⟨e, he, heq⟩)
      rw [erase, if_pos rfl, List.filter_cons_of_neg (by simp), hnone]
    · rw [erase, if_neg heq, List.filter_cons_of_pos (by simpa using heq), ih hrest]

theorem mem_keys_put {value : α} : other ∈ keys (put key value t) ↔ other ∈ keys t ∨ other = key := by
  induction t with
  | nil => simp [put, keys]
  | cons e rest ih =>
    obtain ⟨k, v⟩ := e
    by_cases hk : k = key
    · subst hk
      simp only [put, if_pos, keys, List.map_cons, List.mem_cons]
      exact ⟨.inl, fun h => h.elim id .inl⟩
    · simp only [keys] at ih
      simp only [put, if_neg hk, keys, List.map_cons, List.mem_cons, ih, or_assoc]

theorem nodup_keys_put {value : α} (h : (keys t).Nodup) : (keys (put key value t)).Nodup := by
  induction t with
  | nil => exact List.nodup_singleton key
  | cons e rest ih =>
    obtain ⟨k, v⟩ := e
    obtain ⟨hk, hrest⟩ := List.nodup_cons.mp h
    by_cases heq : k = key
    · rwa [put, if_pos heq]
    · rw [put, if_neg heq]
      refine List.nodup_cons.mpr ⟨fun hmem => ?_, ih hrest⟩
      exact (mem_keys_put.mp hmem).elim hk heq

theorem isSome_get? : (get? key t).isSome ↔ key ∈ keys t := by
  induction t with
  | nil => simp [get?, keys]
  | cons e rest ih =>
    obtain ⟨k, v⟩ := e
    simp only [keys] at ih
    by_cases hk : k = key
    · simp [get?, keys, hk]
    · simp [get?, keys, hk, ih, Ne.symm hk]

end Table

/-! ## Where a listener goes -/

namespace Listener

/-- A modifier is given and switched on. -/
def asks (l : Listener) (key : String) : Bool :=
  Modifiers.on (l.modifiers.getD []) key

/-- The event that fires in place of a click, if another button than the main one is asked for. -/
def button? (l : Listener) : Option String :=
  if l.asks "right" then some "contextmenu" else if l.asks "middle" then some "mouseup" else none

/-- The event that a listener waits for. Whether a name that is known only at run time is a click is tested there. -/
def event (l : Listener) : String :=
  match l.button? with
  | none => l.name
  | some other =>
    if l.dynamic then "(" ++ l.name ++ ")==='click'?'" ++ other ++ "':(" ++ l.name ++ ")"
    else if l.name = "click" then other else l.name

/-- The name under which a listener is stored: the event with the markers that are asked for. -/
def fullName (l : Listener) : String :=
  (nameMarkers.filter fun m => l.asks m.1).foldl (fun name m => markName m.2 name l.dynamic l.prependHelper) l.event

/-- The modifiers that say where a listener goes. -/
def usedUp (l : Listener) : List String :=
  ["capture", "once", "passive", "native"] ++
    if l.asks "right" ∧ l.dynamic = false ∧ l.name = "click" then ["right"] else []

/-- The modifiers that stay with the handler. -/
def kept (l : Listener) : Option Modifiers :=
  l.given.map fun m => m.filter fun e => e.1 ∉ l.usedUp.map Json.string

theorem asks_of_given {l : Listener} {m : Modifiers} (h : l.given = some m) (key : String) : l.asks key = m.on key := by
  rw [asks, (Option.filter_eq_some_iff.mp h).1, Option.getD_some]

theorem asks_of_not_given {l : Listener} (h : l.given = none) (key : String) : l.asks key = false := by
  unfold asks
  cases hm : l.modifiers with
  | none => rfl
  | some m =>
    have hempty : m = [] := by
      by_contra hne
      rw [given, hm, Option.filter_some, if_pos (by simpa using hne)] at h
      cases h
    rw [hempty]
    rfl

theorem on_erase_of_ne {m : Modifiers} {key other : String} (h : other ≠ key) :
    Modifiers.on (Table.erase (.string key) m) other = m.on other := by
  rw [Modifiers.on, Table.get?_erase_of_ne fun heq => h (Json.string.inj heq), Modifiers.on]

/-- Absorbing markers moves those that are asked for into the name, and removes all of them. -/
theorem foldl_absorb (l : Listener) {markers : List (String × String)} (h : (markers.map Prod.fst).Nodup)
    (name : String) (m : Modifiers) :
    markers.foldl l.absorb (name, m) =
      ((markers.filter fun k => m.on k.1).foldl (fun name k => markName k.2 name l.dynamic l.prependHelper) name,
        (markers.map Prod.fst).foldl (fun m key => Table.erase (.string key) m) m) := by
  induction markers generalizing name m with
  | nil => rfl
  | cons k rest ih =>
    obtain ⟨hk, hrest⟩ := List.nodup_cons.mp h
    have hon : rest.filter (fun j => Modifiers.on (Table.erase (.string k.1) m) j.1) = rest.filter fun j => m.on j.1 :=
      List.filter_congr fun j hj => on_erase_of_ne fun heq => hk (heq ▸ List.mem_map_of_mem hj)
    rw [List.foldl_cons, absorb, ih hrest, hon]
    by_cases hkon : m.on k.1 = true
    · rw [if_pos hkon, List.filter_cons, if_pos hkon]
      rfl
    · rw [if_neg hkon, List.filter_cons, if_neg hkon]
      rfl

theorem on_foldl_erase {keys : List String} {other : String} (h : other ∉ keys) (m : Modifiers) :
    Modifiers.on (keys.foldl (fun m key => Table.erase (.string key) m) m) other = m.on other := by
  induction keys generalizing m with
  | nil => rfl
  | cons key keys ih =>
    rw [List.mem_cons, not_or] at h
    rw [List.foldl_cons, ih h.2, on_erase_of_ne h.1]

theorem foldl_erase_eq_filter (keys : List String) {m : Modifiers} (h : (Table.keys m).Nodup) :
    keys.foldl (fun m key => Table.erase (.string key) m) m = m.filter fun e => e.1 ∉ keys.map Json.string := by
  induction keys generalizing m with
  | nil => simp
  | cons key keys ih =>
    have hsub : (Table.keys (m.filter fun e => e.1 ≠ .string key)).Nodup := h.sublist (List.filter_sublist.map _)
    rw [List.foldl_cons, Table.erase_eq_filter h, ih hsub, List.filter_filter]
    refine List.filter_congr fun e _ => ?_
    simp [Bool.and_comm]

variable {l : Listener} {m : Modifiers}

/-- The modifiers after the event was found. -/
theorem actualName_eq (h : l.given = some m) : l.actualName m = (l.event,
    if l.asks "right" ∧ l.dynamic = false ∧ l.name = "click" then Table.erase (.string "right") m else m) := by
  unfold actualName event button?
  rw [asks_of_given h, asks_of_given h]
  by_cases hright : m.on "right" = true <;> by_cases hmiddle : m.on "middle" = true <;>
    by_cases hdynamic : l.dynamic = true <;> by_cases hclick : l.name = "click" <;>
    simp [hright, hmiddle, hdynamic, hclick]

theorem on_actualName (h : l.given = some m) {key : String} (hkey : key ≠ "right") :
    (l.actualName m).2.on key = l.asks key := by
  rw [actualName_eq h, asks_of_given h key]
  dsimp only
  split
  · exact on_erase_of_ne hkey
  · rfl

theorem resolve_eq_of_given (h : l.given = some m) : l.resolve =
    (l.fullName, l.asks "native", some (Table.erase (.string "native")
      ((nameMarkers.map Prod.fst).foldl (fun m key => Table.erase (.string key) m) (l.actualName m).2))) := by
  have hevent : (l.actualName m).1 = l.event := congrArg Prod.fst (actualName_eq h)
  have hfilter : nameMarkers.filter (fun k => (l.actualName m).2.on k.1) = nameMarkers.filter fun k => l.asks k.1 :=
    List.filter_congr fun k hk => on_actualName h (by revert k; decide)
  have hmarkers : (nameMarkers.map Prod.fst).Nodup := by decide
  have hacc := foldl_absorb l hmarkers (l.actualName m).1 (l.actualName m).2
  rw [hfilter, hevent] at hacc
  have hother : "native" ∉ nameMarkers.map Prod.fst := by decide
  have hnative := on_foldl_erase hother (l.actualName m).2
  rw [on_actualName h (by decide)] at hnative
  unfold resolve
  rw [h]
  dsimp only
  rw [← hevent] at hacc
  rw [hacc, hnative, hevent]
  rfl

theorem resolve_fullName (l : Listener) : l.resolve.1 = l.fullName := by
  cases h : l.given with
  | none =>
    have hmarkers : (nameMarkers.filter fun k => l.asks k.1) = [] :=
      List.filter_eq_nil_iff.mpr fun k _ => by simp [asks_of_not_given h]
    have hevent : l.event = l.name := by
      simp [event, button?, asks_of_not_given h]
    rw [resolve, h, fullName, hmarkers, hevent]
    rfl
  | some m => rw [resolve_eq_of_given h]

theorem resolve_native (l : Listener) : l.resolve.2.1 = l.asks "native" := by
  cases h : l.given with
  | none => rw [resolve, h, asks_of_not_given h]
  | some m => rw [resolve_eq_of_given h]

/-- What is left are the modifiers in order without those that are used up. -/
theorem resolve_kept (hm : ∀ m ∈ l.modifiers, (Table.keys m).Nodup) : l.resolve.2.2 = l.kept := by
  cases h : l.given with
  | none => rw [resolve, kept, h]; rfl
  | some m =>
    have hnodup : (Table.keys m).Nodup := hm m (Option.filter_eq_some_iff.mp h).1
    let gone : List String := if l.asks "right" ∧ l.dynamic = false ∧ l.name = "click" then ["right"] else []
    have hactual : (l.actualName m).2 = gone.foldl (fun m key => Table.erase (.string key) m) m := by
      rw [actualName_eq h]
      simp only [gone]
      split <;> rfl
    have herased : (gone ++ ["capture", "once", "passive", "native"]).foldl
        (fun m key => Table.erase (.string key) m) m = m.filter fun e => e.1 ∉ l.usedUp.map Json.string := by
      rw [foldl_erase_eq_filter _ hnodup]
      refine List.filter_congr fun e _ => ?_
      simp only [usedUp, gone, List.map_append, List.mem_append, or_comm]
    rw [List.foldl_append, ← hactual] at herased
    rw [resolve_eq_of_given h, kept, h, Option.map_some, ← herased]
    rfl

end Listener

/-! ## What a call changes -/

/-- The listeners of an element, or those of the native element that it stands for. -/
def Element.listeners (e : Element) (native : Bool) : Events :=
  if native then e.nativeEvents else e.events

theorem Element.listeners_addHandler (e : Element) (l : Listener) (native : Bool) :
    (e.addHandler l).listeners native =
      if l.asks "native" = native then Events.add (e.listeners native) l.fullName l.handler l.important
      else e.listeners native := by
  unfold addHandler
  rw [l.resolve_fullName.symm, l.resolve_native.symm]
  obtain ⟨name, target, left⟩ := l.resolve
  cases target <;> cases native <;> rfl

namespace Events

variable {t : Events} {name other : String} {h : Handler} {important : Bool}

theorem getD_add_self : (Table.get? name (add t name h important)).getD [] =
    if important then h :: (Table.get? name t).getD [] else (Table.get? name t).getD [] ++ [h] := by
  rw [add, Table.get?_put_self, Option.getD_some]

theorem get?_add_of_ne (hne : other ≠ name) :
    Table.get? other (add t name h important) = Table.get? other t :=
  Table.get?_put_of_ne hne ..

/-- Whatever is written in place of the list of a name, it is counted with the lists of the other names. -/
theorem perm_put {new : List Handler} (hnew : new.Perm (h :: (Table.get? name t).getD [])) :
    ((Table.put name new t).flatMap Prod.snd).Perm (h :: t.flatMap Prod.snd) := by
  induction t with
  | nil => simpa [Table.put, Table.get?] using hnew
  | cons e rest ih =>
    obtain ⟨k, old⟩ := e
    by_cases hk : k = name
    · rw [Table.get?, if_pos hk] at hnew
      rw [Table.put, if_pos hk]
      exact hnew.append_right _
    · rw [Table.get?, if_neg hk] at hnew
      rw [Table.put, if_neg hk]
      exact ((ih hnew).append_left old).trans List.perm_middle

theorem perm_add : ((add t name h important).flatMap Prod.snd).Perm (h :: t.flatMap Prod.snd) := by
  refine perm_put ?_
  cases important with
  | true => exact .refl _
  | false => exact List.perm_append_singleton ..

end Events

/-! ## What a sequence of calls leaves -/

namespace Listener

/-- A listener belongs to the list of a name in one of the tables. -/
def goesTo (native : Bool) (name : String) (l : Listener) : Bool :=
  l.asks "native" == native && l.fullName == name

/-- Handlers in the order in which they run: those of the important listeners, the latest one first, then the old ones,
then those of the other listeners in order. -/
def inOrder (made : Listener → Handler) (calls : List Listener) (old : List Handler) : List Handler :=
  (calls.filter Listener.important).reverse.map made ++ old ++ (calls.filter fun l => !l.important).map made

theorem inOrder_congr {made made' : Listener → Handler} {calls : List Listener} (h : ∀ l ∈ calls, made l = made' l)
    (old : List Handler) : inOrder made calls old = inOrder made' calls old := by
  have hmap {ls : List Listener} (hls : ls ⊆ calls) : ls.map made = ls.map made' :=
    List.map_congr_left fun l hl => h l (hls hl)
  have himportant : (calls.filter Listener.important).reverse ⊆ calls :=
    fun l hl => (List.mem_filter.mp (List.mem_reverse.mp hl)).1
  rw [inOrder, inOrder, hmap himportant, hmap List.filter_sublist.subset]

section Run

variable (calls : List Listener) (e : Element) (native : Bool) (name : String)

/-- Under each name are the listeners that belong there. -/
theorem getD_listeners :
    (Table.get? name ((calls.foldl Element.addHandler e).listeners native)).getD [] =
      inOrder handler (calls.filter (goesTo native name)) ((Table.get? name (e.listeners native)).getD []) := by
  induction calls generalizing e with
  | nil => simp [inOrder]
  | cons l calls ih =>
    rw [List.foldl_cons, ih, Element.listeners_addHandler]
    by_cases hl : goesTo native name l = true
    · obtain ⟨htable, hname⟩ := Bool.and_eq_true_iff.mp hl
      rw [if_pos (beq_iff_eq.mp htable), List.filter_cons_of_pos hl, beq_iff_eq.mp hname, Events.getD_add_self]
      cases himportant : l.important <;> simp [inOrder, himportant]
    · rw [List.filter_cons_of_neg hl]
      split
      · next htable =>
        have hne : name ≠ l.fullName := by
          rintro rfl
          exact hl (by simp [goesTo, htable])
        rw [Events.get?_add_of_ne hne]
      · rfl

theorem mem_keys_listeners :
    name ∈ Table.keys ((calls.foldl Element.addHandler e).listeners native) ↔
      name ∈ Table.keys (e.listeners native) ∨ ∃ l ∈ calls, goesTo native name l = true := by
  induction calls generalizing e with
  | nil => simp
  | cons l calls ih =>
    rw [List.foldl_cons, ih, Element.listeners_addHandler]
    simp only [List.mem_cons, exists_eq_or_imp, goesTo, Bool.and_eq_true, beq_iff_eq]
    split
    · next htable =>
      rw [Events.add, Table.mem_keys_put, eq_comm (a := name), htable]
      simp only [true_and, or_assoc]
    · next htable => simp [htable]

theorem nodup_keys_listeners (h : (Table.keys (e.listeners native)).Nodup) :
    (Table.keys ((calls.foldl Element.addHandler e).listeners native)).Nodup := by
  induction calls generalizing e with
  | nil => exact h
  | cons l calls ih =>
    refine ih _ ?_
    rw [Element.listeners_addHandler]
    split
    · exact Table.nodup_keys_put h
    · exact h

/-- The list of a name that some call has. -/
theorem get?_listeners {l : Listener} (hl : l ∈ calls) (hto : goesTo native name l = true) :
    Table.get? name ((calls.foldl Element.addHandler e).listeners native) =
      some (inOrder handler (calls.filter (goesTo native name)) ((Table.get? name (e.listeners native)).getD [])) := by
  have hkey := (mem_keys_listeners calls e native name).mpr (.inr ⟨l, hl, hto⟩)
  obtain ⟨hs, hhs⟩ := Option.isSome_iff_exists.mp (Table.isSome_get?.mpr hkey)
  rw [← getD_listeners, hhs, Option.getD_some]

/-- No call is lost, and none is stored twice. -/
theorem perm_listeners :
    (((calls.foldl Element.addHandler e).listeners native).flatMap Prod.snd).Perm
      ((e.listeners native).flatMap Prod.snd ++ (calls.filter fun l => l.asks "native" == native).map handler) := by
  induction calls generalizing e with
  | nil => simp
  | cons l calls ih =>
    refine (ih (e.addHandler l)).trans ?_
    rw [Element.listeners_addHandler]
    by_cases htable : l.asks "native" = native
    · rw [if_pos htable, List.filter_cons_of_pos (by simpa using htable), List.map_cons]
      exact (Events.perm_add.append_right _).trans List.perm_middle.symm
    · rw [if_neg htable, List.filter_cons_of_neg (by simpa using htable)]

end Run

/-! ## Static names -/

/-- What a static listener is for: a table, an event, and how the runtime listens to it. -/
structure Address where
  native : Bool
  event : String
  capture : Bool
  once : Bool
  passive : Bool
  deriving DecidableEq

def address (l : Listener) : Address :=
  ⟨l.asks "native", l.event, l.asks "capture", l.asks "once", l.asks "passive"⟩

def marks (capture once passive : Bool) : String :=
  (if passive then "&" else "") ++ (if once then "~" else "") ++ (if capture then "!" else "")

/-- The name of the list of an address. -/
def Address.name (a : Address) : String :=
  marks a.capture a.once a.passive ++ a.event

def isMark (c : Char) : Bool :=
  c == '!' || c == '~' || c == '&'

/-- A name that does not begin with a marker. -/
def Unmarked (name : String) : Prop :=
  name.toList.head?.all (fun c => !isMark c) = true

instance (name : String) : Decidable (Unmarked name) :=
  inferInstanceAs (Decidable (_ = true))

theorem fullName_eq {l : Listener} (h : l.dynamic = false) : l.fullName = l.address.name := by
  unfold fullName nameMarkers Address.name marks address
  rw [← String.toList_inj]
  cases hcapture : l.asks "capture" <;> cases honce : l.asks "once" <;> cases hpassive : l.asks "passive" <;>
    simp [hcapture, honce, hpassive, markName, h]

theorem unmarked_event {l : Listener} (h : l.dynamic = false) (hname : Unmarked l.name) : Unmarked l.event := by
  unfold event button?
  split
  · exact hname
  · next other hother =>
    rw [h, if_neg Bool.false_ne_true]
    split
    · split at hother
      · cases hother
        decide
      · split at hother <;> cases hother
        decide
    · exact hname

/-- The markers can be read off a name. -/
theorem takeWhile_name {a : Address} (h : Unmarked a.event) :
    a.name.toList.takeWhile isMark = (marks a.capture a.once a.passive).toList := by
  have hmarks : ∀ c o p, (marks c o p).toList.all isMark = true := by decide
  have hevent : a.event.toList.takeWhile isMark = [] := by
    unfold Unmarked at h
    cases hchars : a.event.toList with
    | nil => rfl
    | cons c cs =>
      rw [hchars] at h
      exact List.takeWhile_cons_of_neg (by simpa using h)
  rw [Address.name, String.toList_append, List.takeWhile_append_of_pos (List.all_eq_true.mp (hmarks _ _ _)), hevent,
    List.append_nil]

/-- Static listeners of one table with the same name are for the same. -/
theorem address_eq_of_name {a b : Address} (ha : Unmarked a.event) (hb : Unmarked b.event)
    (hnative : a.native = b.native) (hname : a.name = b.name) : a = b := by
  have hmarks : marks a.capture a.once a.passive = marks b.capture b.once b.passive := by
    rw [← String.toList_inj, ← takeWhile_name ha, ← takeWhile_name hb, hname]
  have hevent : a.event = b.event := by
    rw [Address.name, Address.name, hmarks] at hname
    exact String.append_right_inj _ |>.mp hname
  have hbits : ∀ c o p c' o' p', marks c o p = marks c' o' p' → c = c' ∧ o = o' ∧ p = p' := by decide
  obtain ⟨hcapture, honce, hpassive⟩ := hbits _ _ _ _ _ _ hmarks
  cases a
  cases b
  cases hnative
  cases hevent
  cases hcapture
  cases honce
  cases hpassive
  rfl

/-- What is stored for a static listener: its value without blanks around it, and the modifiers that it keeps. -/
def stored (l : Listener) : Handler :=
  { value := .string (Text.trim l.value)
    dynamic := false
    modifiers := l.kept
    span := (l.location.map Location.range).getD {} }

theorem handler_eq_stored {l : Listener} (h : l.dynamic = false)
    (hm : ∀ m ∈ l.modifiers, (Table.keys m).Nodup) : l.handler = l.stored := by
  rw [handler, h, resolve_kept hm, stored]

/-- The listeners of an element are those of the calls. -/
structure Stores (calls : List Listener) (e : Element) : Prop where
  /-- A call goes to the table that it asks for. Its list has all calls that are for the same. -/
  list : ∀ l ∈ calls, Table.get? l.address.name (e.listeners l.address.native) =
    some (inOrder stored (calls.filter fun other => other.address = l.address) [])
  /-- Two calls share a list exactly if they are for the same. -/
  shared : ∀ l ∈ calls, ∀ other ∈ calls,
    l.address.native = other.address.native ∧ l.address.name = other.address.name ↔ l.address = other.address
  /-- There are no other lists, and none of them twice. -/
  names : ∀ native, (Table.keys (e.listeners native)).Nodup ∧ ∀ name ∈ Table.keys (e.listeners native),
    ∃ l ∈ calls, l.address.native = native ∧ l.address.name = name
  /-- Every call is stored once. -/
  once : ((e.listeners false).flatMap Prod.snd ++ (e.listeners true).flatMap Prod.snd).Perm (calls.map stored)

/-- Static listeners that are added one after another to an element without listeners are all stored, each one
once. -/
theorem stores_foldl_addHandler {e : Element} (hevents : e.events = []) (hnative : e.nativeEvents = [])
    {calls : List Listener} (hstatic : ∀ l ∈ calls, l.dynamic = false) (hnames : ∀ l ∈ calls, Unmarked l.name)
    (hkeys : ∀ l ∈ calls, ∀ m ∈ l.modifiers, (Table.keys m).Nodup) :
    Stores calls (calls.foldl Element.addHandler e) := by
  have hstart (native : Bool) : e.listeners native = [] := by cases native <;> assumption
  have hmade (l : Listener) (hl : l ∈ calls) : l.handler = l.stored := handler_eq_stored (hstatic l hl) (hkeys l hl)
  have hunmarked (l : Listener) (hl : l ∈ calls) : Unmarked l.event := unmarked_event (hstatic l hl) (hnames l hl)
  have hshared : ∀ l ∈ calls, ∀ other ∈ calls,
      l.address.native = other.address.native ∧ l.address.name = other.address.name ↔
        l.address = other.address := by
    intro l hl other hother
    refine ⟨fun h => address_eq_of_name (hunmarked l hl) (hunmarked other hother) h.1 h.2, fun h => ?_⟩
    exact ⟨congrArg Address.native h, congrArg Address.name h⟩
  have hgoes {l other : Listener} (hl : l ∈ calls) (hother : other ∈ calls) :
      goesTo l.address.native l.address.name other = decide (other.address = l.address) := by
    rw [Bool.eq_iff_iff, goesTo, Bool.and_eq_true, beq_iff_eq, beq_iff_eq, fullName_eq (hstatic other hother),
      decide_eq_true_iff, ← hshared other hother l hl]
    rfl
  refine ⟨fun l hl => ?_, hshared, fun native => ⟨?_, fun name hname => ?_⟩, ?_⟩
  · rw [get?_listeners calls e _ _ hl (by simp [hgoes hl hl]), hstart]
    have hfilter : calls.filter (goesTo l.address.native l.address.name) =
        calls.filter fun other => other.address = l.address :=
      List.filter_congr fun other hother => hgoes hl hother
    rw [hfilter, inOrder_congr fun other hother => hmade other (List.mem_filter.mp hother).1]
    rfl
  · exact nodup_keys_listeners calls e native (by rw [hstart]; exact List.nodup_nil)
  · rw [mem_keys_listeners, hstart] at hname
    obtain ⟨l, hl, hto⟩ := hname.resolve_left (List.not_mem_nil)
    rw [goesTo, Bool.and_eq_true, beq_iff_eq, beq_iff_eq, fullName_eq (hstatic l hl)] at hto
    exact ⟨l, hl, hto⟩
  · have hperm (native : Bool) := perm_listeners calls e native
    simp only [hstart, List.flatMap_nil, List.nil_append] at hperm
    refine ((hperm false).append (hperm true)).trans ?_
    rw [← List.map_append, ← List.map_congr_left hmade]
    have hsplit : calls.filter (fun l => l.asks "native" == false) = calls.filter fun l => !l.asks "native" :=
      List.filter_congr fun l _ => by simp
    have hother : calls.filter (fun l => l.asks "native" == true) = calls.filter fun l => l.asks "native" :=
      List.filter_congr fun l _ => by simp
    rw [hsplit, hother]
    exact (List.perm_append_comm.trans (List.filter_append_perm ..)).map _

end Listener

end TemplateCompiler
