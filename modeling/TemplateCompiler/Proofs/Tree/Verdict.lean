import TemplateCompiler.Proofs.Tree.Visits

/-!
# What comes of reading a node

`Loader.Judged P x d Q` says what comes of a step of loading from a tree with `P`: the step stops with the fault `d`, or
ends well with `Q` if `d` is none. Of two steps the fault of the first one counts, or else that of the second one
(`Judged.bind`), and of many the first fault that there is (`Judged.forM`).

If the containers of an element have the right kinds (`Json.Shaped`) and its names can be used (`Json.Worded`), then
reading its fields can fail in three ways only: there is no tag (`reads_shell`), a directive has no name, or the model
lacks a key (`reads_bindings`).
-/

namespace TemplateCompiler

open Loader (valueAt)

namespace Loader

variable {α β : Type}

/-- A fault and where it is. -/
abbrev Finding := TreeFault × Path

/-- A result is what a finding says, and a value if nothing was found. -/
def Verdict (d : Option Finding) (r : Except LoadError α) : Prop :=
  match d with
  | some (cause, path) => r = .error (.fault cause path)
  | none => ∃ a, r = .ok a

theorem Verdict.map {d : Option Finding} {r : Except LoadError α} (h : Verdict d r) (f : α → β) :
    Verdict d (r.map f) := by
  rcases d with _ | ⟨cause, path⟩
  · obtain ⟨a, rfl⟩ := h
    exact ⟨f a, rfl⟩
  · obtain rfl : r = .error (.fault cause path) := h
    rfl

/-- The first find in a list is that of its head, or else that of the rest. -/
theorem findSome?_cons_or (f : α → Option β) (a : α) (xs : List α) :
    (a :: xs).findSome? f = (f a).or (xs.findSome? f) := by
  rw [List.findSome?_cons]
  cases f a <;> rfl

/-- From a tree with `P` a step stops with the fault `d`, or ends well with `Q` if there is none. -/
structure Judged (P : Tree → Prop) (x : LoadM α) (d : Option Finding) (Q : α → Tree → Prop) : Prop where
  verdict : ∀ s, P s.tree → Verdict d (x.run.run s).1
  ensures : Ensures P x Q

namespace Judged

variable {P : Tree → Prop} {x : LoadM α} {f : α → LoadM β} {Q : β → Tree → Prop} {d d' : Option Finding}

theorem pure {b : β} (h : ∀ t, P t → Q b t) : Judged P (pure b) none Q :=
  ⟨fun _ _ => ⟨b, rfl⟩, .pure h⟩

theorem fault {cause : TreeFault} {path : Path} : Judged P (throw (.fault cause path)) (some (cause, path)) Q :=
  ⟨fun _ _ => rfl, .throw⟩

theorem modify {f : Loading → Loading} {Q : Unit → Tree → Prop} (h : ∀ s, P s.tree → Q () (f s).tree) :
    Judged P (modify f) none Q :=
  ⟨fun _ _ => ⟨(), rfl⟩, .modify h⟩

theorem bind {R : α → Tree → Prop} (hx : Judged P x d R) (hf : ∀ a, Judged (R a) (f a) d' Q) :
    Judged P (x >>= f) (d.or d') Q := by
  refine ⟨fun s hs => ?_, hx.ensures.bind fun a => (hf a).ensures⟩
  have hverdict := hx.verdict s hs
  rw [ExceptT.run_bind, StateT.run_bind]
  rcases hrun : x.run.run s with ⟨r, s'⟩
  rw [hrun] at hverdict
  rcases d with _ | ⟨cause, path⟩
  · obtain ⟨a, rfl⟩ := hverdict
    exact (hf a).verdict s' (hx.ensures s hs a s' hrun)
  · obtain rfl := hverdict
    rfl

/-- A step after one that finds nothing. -/
theorem after {R : α → Tree → Prop} (hx : Judged P x none R) (hf : ∀ a, Judged (R a) (f a) d' Q) :
    Judged P (x >>= f) d' Q :=
  hx.bind hf

/-- A step before one that finds nothing. -/
theorem before {R : α → Tree → Prop} (hx : Judged P x d R) (hf : ∀ a, Judged (R a) (f a) none Q) :
    Judged P (x >>= f) d Q := by
  have h := hx.bind hf
  rwa [Option.or_none] at h

theorem mono {R R' : α → Tree → Prop} (hx : Judged P x d R) (h : ∀ a t, R a t → R' a t) : Judged P x d R' :=
  ⟨hx.verdict, hx.ensures.mono h⟩

theorem weaken {P' : Tree → Prop} {R : α → Tree → Prop} (hx : Judged P x d R) (h : ∀ t, P' t → P t) :
    Judged P' x d R :=
  ⟨fun s hs => hx.verdict s (h _ hs), fun s hs => hx.ensures s (h _ hs)⟩

/-- The steps of a list stop with the first fault that one of them has. -/
theorem forM {f : α → LoadM Unit} {d : α → Option Finding} {xs : List α}
    (h : ∀ a ∈ xs, Judged P (f a) (d a) fun _ => P) : Judged P (xs.forM f) (xs.findSome? d) fun _ => P := by
  induction xs with
  | nil => exact pure fun _ ht => ht
  | cons a xs ih =>
    obtain ⟨ha, hxs⟩ := List.forall_mem_cons.mp h
    rw [findSome?_cons_or]
    exact ha.bind fun _ => ih hxs

end Judged

/-! ## Reading fields -/

/-- A step that leaves the tree alone and stops with the fault `d`, if there is one. -/
def Reads (x : LoadM α) (d : Option Finding) : Prop :=
  ∀ P : Tree → Prop, Judged P x d fun _ => P

namespace Reads

variable {x : LoadM α} {f : α → LoadM β} {d d' : Option Finding}

theorem pure (a : α) : Reads (pure a) none := fun _ => .pure fun _ ht => ht

theorem bind (hx : Reads x d) (hf : ∀ a, Reads (f a) d') : Reads (x >>= f) (d.or d') :=
  fun P => (hx P).bind fun a => hf a P

theorem after (hx : Reads x none) (hf : ∀ a, Reads (f a) d') : Reads (x >>= f) d' :=
  hx.bind hf

theorem before (hx : Reads x d) (hf : ∀ a, Reads (f a) none) : Reads (x >>= f) d :=
  fun P => (hx P).before fun a => hf a P

/-- What is made of the value of a step. -/
theorem map (hx : Reads x d) (f : α → β) : Reads (do return f (← x)) d :=
  hx.before fun a => pure (f a)

theorem mapM {f : α → LoadM β} {d : α → Option Finding} {xs : List α} (h : ∀ a ∈ xs, Reads (f a) (d a)) :
    Reads (xs.mapM f) (xs.findSome? d) := by
  induction xs with
  | nil => exact pure []
  | cons a xs ih =>
    obtain ⟨ha, hxs⟩ := List.forall_mem_cons.mp h
    rw [findSome?_cons_or, List.mapM_cons]
    exact ha.bind fun b => (ih hxs).map (b :: ·)

/-- Where no item has a fault, the list has none. -/
theorem mapM_none {f : α → LoadM β} {xs : List α} (h : ∀ a ∈ xs, Reads (f a) none) : Reads (xs.mapM f) none := by
  have h := mapM h
  rwa [List.findSome?_eq_none_iff.mpr fun _ _ => rfl] at h

end Reads

theorem require_eq {v : Json} (hv : v.isObject = true) (key : String) (path : Path) :
    require v key path = match v.get? key with
      | some m => pure m
      | none => throw (.fault (.missingKey key) path) := by
  cases v with
  | object => rfl
  | _ => cases hv

theorem reads_require {v : Json} (hv : v.isObject = true) (key : String) (path : Path) :
    Reads (require v key path) ((v.missing? [key]).map (·, path)) := by
  rw [Json.missing?_cons, require_eq hv]
  cases v.get? key with
  | none => exact fun P => .fault
  | some m => exact .pure m

theorem partsOf_eq {v : Json} (hv : v.isArray = true) : partsOf v = pure v.asList := by
  cases v with
  | array => rfl
  | _ => cases hv

theorem membersOf_eq {v : Json} (hv : v.isObject = true) : membersOf v = pure v.asMap := by
  cases v with
  | object => rfl
  | _ => cases hv

theorem mapM_eq_pure {f : α → LoadM β} {g : α → β} {xs : List α} (h : ∀ a ∈ xs, f a = pure (g a)) :
    xs.mapM f = pure (xs.map g) := by
  induction xs with
  | nil => rfl
  | cons a xs ih =>
    obtain ⟨ha, hxs⟩ := List.forall_mem_cons.mp h
    rw [List.mapM_cons, ha, ih hxs, pure_bind, pure_bind]
    rfl

end Loader

/-! ## Containers of the right kinds -/

namespace Json

theorem listOf_iff {p : Json → Bool} {v : Json} :
    v.listOf p = true ↔ v.isArray = true ∧ ∀ x ∈ v.asList, p x = true := by
  cases v with
  | array items => simp [listOf, isArray, asList]
  | _ => simp [listOf, isArray]

theorem mapOf_iff {p : Json → Bool} {v : Json} :
    v.mapOf p = true ↔ v.isObject = true ∧ ∀ m ∈ v.asMap, p m.2 = true := by
  cases v with
  | object members => simp [mapOf, isObject, asMap]
  | _ => simp [mapOf, isObject]

/-- An attribute: an object with a name. -/
def isAttr (v : Json) : Bool :=
  v.isObject && (v.get? "name").isSome

/-- An object whose modifiers, where there are any, are an object: a handler or a directive. -/
def isModified (v : Json) : Bool :=
  v.isObject && (v.given? "modifiers").all isObject

/-- The handlers of an event: one, or a list of them. -/
def isHandlers (v : Json) : Bool :=
  v.isModified || v.listOf isModified

/-- The containers of an element have the kinds that they should have. -/
structure Shaped (v : Json) : Prop where
  attrsList : (v.get? "attrsList").all (listOf isAttr) = true
  attrsMap : (valueAt v "attrsMap").truthy = true → (valueAt v "attrsMap").isObject = true
  rawAttrsMap : (valueAt v "rawAttrsMap").truthy = true → (valueAt v "rawAttrsMap").mapOf isAttr = true
  attrs : ∀ key ∈ ["props", "attrs", "dynamicAttrs"], (v.given? key).all (listOf isAttr) = true
  events : ∀ key ∈ ["events", "nativeEvents"], (v.given? key).all (mapOf isHandlers) = true
  directives : (v.given? "directives").all (listOf isModified) = true
  model : (v.given? "model").all isObject = true
  children : (v.get? "children").all isArray = true
  scopedSlots : (valueAt v "scopedSlots").truthy = true → (valueAt v "scopedSlots").isObject = true
  conditions : (v.given? "ifConditions").all (listOf isObject) = true

def isString : Json → Bool
  | .string _ => true
  | _ => false

/-- The names in an element can be used: those of directives are texts, and those of attributes can be keys, if they
have to be. -/
structure Worded (v : Json) : Prop where
  directives : ∀ d ∈ (valueAt v "directives").asList, (d.get? "name").all isString = true
  attrs : (valueAt v "attrsMap").truthy = false →
    ∀ a ∈ (valueAt v "attrsList").asList, (valueAt a "name").isCompound = false

instance (v : Json) : Decidable v.Shaped :=
  decidable_of_iff
    ((v.get? "attrsList").all (listOf isAttr) = true ∧
      ((valueAt v "attrsMap").truthy = true → (valueAt v "attrsMap").isObject = true) ∧
      ((valueAt v "rawAttrsMap").truthy = true → (valueAt v "rawAttrsMap").mapOf isAttr = true) ∧
      (∀ key ∈ ["props", "attrs", "dynamicAttrs"], (v.given? key).all (listOf isAttr) = true) ∧
      (∀ key ∈ ["events", "nativeEvents"], (v.given? key).all (mapOf isHandlers) = true) ∧
      (v.given? "directives").all (listOf isModified) = true ∧ (v.given? "model").all isObject = true ∧
      (v.get? "children").all isArray = true ∧
      ((valueAt v "scopedSlots").truthy = true → (valueAt v "scopedSlots").isObject = true) ∧
      (v.given? "ifConditions").all (listOf isObject) = true)
    ⟨fun h => ⟨h.1, h.2.1, h.2.2.1, h.2.2.2.1, h.2.2.2.2.1, h.2.2.2.2.2.1, h.2.2.2.2.2.2.1, h.2.2.2.2.2.2.2.1,
      h.2.2.2.2.2.2.2.2.1, h.2.2.2.2.2.2.2.2.2⟩,
    fun h => ⟨h.attrsList, h.attrsMap, h.rawAttrsMap, h.attrs, h.events, h.directives, h.model, h.children,
      h.scopedSlots, h.conditions⟩⟩

instance (v : Json) : Decidable v.Worded :=
  decidable_of_iff
    ((∀ d ∈ (valueAt v "directives").asList, (d.get? "name").all isString = true) ∧
      ((valueAt v "attrsMap").truthy = false →
        ∀ a ∈ (valueAt v "attrsList").asList, (valueAt a "name").isCompound = false))
    ⟨fun h => ⟨h.1, h.2⟩, fun h => ⟨h.directives, h.attrs⟩⟩

end Json

namespace Loader

open Json

variable {v : Json} {path : Path}

/-- The attribute that an object describes. -/
def attrOf (v : Json) : Attr :=
  { name := valueAt v "name"
    value := (v.get? "value").getD (.string "")
    dynamic := (valueAt v "dynamic").truthy
    span := spanOf v }

theorem attr_eq (hv : v.isAttr = true) : attr v = pure (attrOf v) := by
  obtain ⟨hobject, hname⟩ := Bool.and_eq_true_iff.mp hv
  obtain ⟨name, hname⟩ := Option.isSome_iff_exists.mp hname
  cases v with
  | object members =>
    unfold attr attrOf valueAt
    simp only [hname]
    rfl
  | _ => cases hobject

theorem attrs_eq (hv : v.listOf isAttr = true) : (do (← partsOf v).mapM attr) = pure (v.asList.map attrOf) := by
  obtain ⟨harray, hattrs⟩ := listOf_iff.mp hv
  rw [partsOf_eq harray, pure_bind]
  exact mapM_eq_pure fun a ha => attr_eq (hattrs a ha)

theorem reads_modifiers (hv : v.isModified = true) : Reads (modifiers v) none := by
  have hgiven := (Bool.and_eq_true_iff.mp hv).2
  unfold modifiers
  rcases hm : v.given? "modifiers" with _ | m
  · exact .pure _
  · rw [hm] at hgiven
    cases m with
    | object members =>
      have htable : Reads (tableOf (.object members)) none := .pure _
      exact htable.map some
    | _ => cases hgiven

theorem reads_handler (hv : v.isModified = true) : Reads (handler v) none := by
  unfold handler
  rw [membersOf_eq (Bool.and_eq_true_iff.mp hv).1, pure_bind]
  exact (reads_modifiers hv).map _

theorem reads_handlers (hv : v.isHandlers = true) : Reads (handlers v) none := by
  rcases Bool.or_eq_true_iff.mp hv with hone | hlist
  · cases v with
    | object members => exact (reads_handler hone).map fun h => [h]
    | _ => cases hone
  · obtain ⟨harray, hall⟩ := listOf_iff.mp hlist
    cases v with
    | array items => exact .mapM_none fun h hh => reads_handler (hall h hh)
    | _ => cases harray

theorem reads_events {key : String} (h : (v.given? key).all (mapOf isHandlers) = true) : Reads (events v key) none := by
  unfold events
  rcases htable : v.given? key with _ | table
  · exact .pure _
  · rw [htable] at h
    obtain ⟨hobject, hall⟩ := mapOf_iff.mp h
    simp only [membersOf_eq hobject, pure_bind]
    exact .mapM_none fun m hm => (reads_handlers (hall m hm)).map _

theorem reads_attrsAt {key : String} (h : (v.given? key).all (listOf isAttr) = true) : Reads (attrsAt v key) none := by
  unfold attrsAt
  rcases hlist : v.given? key with _ | list
  · exact .pure _
  · rw [hlist] at h
    simp only [← bind_assoc, attrs_eq h, pure_bind]
    exact .pure _

/-- A directive has to have a name. -/
theorem reads_directive (hv : v.isModified = true) (hname : (v.get? "name").all isString = true) :
    Reads (directive v path) ((v.missing? ["name"]).map (·, path)) := by
  have hobject := (Bool.and_eq_true_iff.mp hv).1
  unfold directive
  rw [membersOf_eq hobject, pure_bind, require_eq hobject, Json.missing?_cons]
  rcases h : v.get? "name" with _ | name
  · exact fun P => .fault
  · rw [h] at hname
    cases name with
    | string => exact (reads_modifiers hv).map _
    | _ => cases hname

/-- A model has to have a value, a callback and an expression, and the first one that is missing is reported. -/
theorem reads_model (hv : v.isObject = true) :
    Reads (model v path) ((v.missing? ["value", "callback", "expression"]).map (·, path)) := by
  have hor (key : String) (keys : List String) : (v.missing? (key :: keys)).map (·, path) =
      ((v.missing? [key]).map (·, path)).or ((v.missing? keys).map (·, path)) := by
    rw [Json.missing?_cons, Json.missing?_cons]
    cases (v.get? key).isSome <;> rfl
  unfold model
  rw [hor "value", hor "callback"]
  refine (reads_require hv "value" path).bind fun value => (reads_require hv "callback" path).bind fun callback => ?_
  exact (reads_require hv "expression" path).map _

theorem reads_noteIgnored (v : Json) (path : Path) : Reads (noteIgnored v path) none := by
  unfold noteIgnored
  split
  · exact .pure _
  · exact fun P => .modify fun _ h => h

/-- An element has to have a tag. -/
theorem reads_shell (hobject : v.isObject = true) (hv : v.Shaped) (hw : v.Worded) :
    Reads (shell v path) ((v.missing? ["tag"]).map (·, path)) := by
  have hlist : (do (← partsAt v "attrsList").mapM attr) = pure ((valueAt v "attrsList").asList.map attrOf) := by
    unfold partsAt valueAt
    have hgiven := hv.attrsList
    rcases h : v.get? "attrsList" with _ | list
    · rfl
    · rw [h] at hgiven
      exact attrs_eq hgiven
  have htable : Reads (attrTable v ((valueAt v "attrsList").asList.map attrOf)) none := by
    unfold attrTable
    rcases h : (valueAt v "attrsMap").truthy with _ | _
    · have hkeys : ((valueAt v "attrsList").asList.map attrOf).any (·.name.isCompound) = false := by
        rw [List.any_map, List.any_eq_false]
        exact fun a ha => Bool.eq_false_iff.mp (hw.attrs h a ha)
      rw [if_neg Bool.false_ne_true, hkeys, if_neg Bool.false_ne_true]
      exact .pure _
    · have hmap := hv.attrsMap h
      rw [if_pos rfl]
      cases hvalue : valueAt v "attrsMap" with
      | object => exact .pure _
      | _ =>
        rw [hvalue] at hmap
        cases hmap
  have hraw : Reads (do (← membersAt v "rawAttrsMap").mapM fun m => return (Json.string m.1, ← attr m.2)) none := by
    unfold membersAt
    rcases h : (valueAt v "rawAttrsMap").truthy with _ | _
    · exact .pure _
    · obtain ⟨hmap, hall⟩ := mapOf_iff.mp (hv.rawAttrsMap h)
      rw [if_pos rfl, membersOf_eq hmap, pure_bind]
      refine .mapM_none fun m hm => ?_
      rw [attr_eq (hall m hm)]
      exact .pure _
  unfold shell
  refine (reads_require hobject "tag" path).before fun tag => ?_
  rw [← bind_assoc, hlist, pure_bind]
  refine .after (reads_noteIgnored v path) fun _ => .after htable fun attrsMap => ?_
  rw [← bind_assoc]
  exact .after hraw fun rawAttrs => .pure _

/-- The first directive without a name is reported, or else the first key that the model lacks. -/
theorem reads_bindings (hv : v.Shaped) (hw : v.Worded) (e : Element) :
    Reads (bindings v path e)
      (((valueAt v "directives").asList.findSome? fun d => (d.missing? ["name"]).map (·, path ++ [.directives])).or
        ((v.given? "model").bind fun m =>
          (m.missing? ["value", "callback", "expression"]).map (·, path ++ [.model]))) := by
  have hattrs {key : String} (hkey : key ∈ ["props", "attrs", "dynamicAttrs"]) := reads_attrsAt (hv.attrs key hkey)
  have hevents {key : String} (hkey : key ∈ ["events", "nativeEvents"]) := reads_events (hv.events key hkey)
  have hdirectives : Reads (directivesAt v path) ((valueAt v "directives").asList.findSome? fun d =>
      (d.missing? ["name"]).map (·, path ++ [.directives])) := by
    unfold directivesAt
    have hgiven := hv.directives
    rcases hlist : v.given? "directives" with _ | list
    · rw [valueAt_eq_null hlist]
      exact .pure _
    · rw [hlist] at hgiven
      obtain ⟨harray, hall⟩ := listOf_iff.mp hgiven
      rw [← valueAt_of_given? hlist] at harray hall ⊢
      simp only [partsOf_eq harray, pure_bind]
      exact .mapM fun d hd => reads_directive (hall d hd) (hw.directives d hd)
  have hmodel : Reads (modelAt v path) ((v.given? "model").bind fun m =>
      (m.missing? ["value", "callback", "expression"]).map (·, path ++ [.model])) := by
    unfold modelAt
    have hgiven := hv.model
    rcases hm : v.given? "model" with _ | m
    · exact .pure _
    · rw [hm] at hgiven
      exact (reads_model hgiven).map some
  unfold bindings
  refine .after (hattrs (by simp)) fun props => .after (hattrs (by simp)) fun attrs => ?_
  refine .after (hattrs (by simp)) fun dynamicAttrs => .after (hevents (by simp)) fun listeners => ?_
  refine .after (hevents (by simp)) fun nativeListeners => hdirectives.bind fun directives => ?_
  exact hmodel.map _

end Loader

end TemplateCompiler
