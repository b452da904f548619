import TemplateCompiler.Proofs.Tree.Loaded
import TemplateCompiler.Proofs.Tree.PathText
import TemplateCompiler.Proofs.Tree.Verdict

/-!
# Which tree data is refused

Data in which every container has the kind that it should have is refused at the first check that fails, and loaded if
none does (`Tree.load_refuses`).
-/

namespace TemplateCompiler

open Loader (valueAt)

namespace Check

/-- The containers of an element have the right kinds. -/
def Shaped : Check → Prop
  | .node v => v.isElement = true → v.Shaped
  | _ => True

/-- The names in an element can be used. -/
def Worded : Check → Prop
  | .node v => v.isElement = true → v.Worded
  | _ => True

/-- The type of a node can be written, as it has to be if it is unknown. -/
def Writable : Check → Prop
  | .node v => v.nodeType.fits Text.DigitLimit.standard = true
  | _ => True

instance : (c : Check) → Decidable c.Shaped
  | .node v => inferInstanceAs (Decidable (v.isElement = true → v.Shaped))
  | .directive _ | .model _ | .slot _ | .block _ | .root _ => inferInstanceAs (Decidable True)

instance : (c : Check) → Decidable c.Worded
  | .node v => inferInstanceAs (Decidable (v.isElement = true → v.Worded))
  | .directive _ | .model _ | .slot _ | .block _ | .root _ => inferInstanceAs (Decidable True)

instance : (c : Check) → Decidable c.Writable
  | .node v => inferInstanceAs (Decidable (v.nodeType.fits Text.DigitLimit.standard = true))
  | .directive _ | .model _ | .slot _ | .block _ | .root _ => inferInstanceAs (Decidable True)

/-- If a check fails, it is reported. -/
structure Fit (c : Check) : Prop where
  shaped : c.Shaped
  worded : c.Worded
  writable : c.Writable

end Check

namespace Loader

/-! ## The first check that fails -/

def first (checks : List (Check × Path)) : Option Finding :=
  checks.findSome? fun c => c.1.fault?.map (·, c.2)

theorem first_append (cs cs' : List (Check × Path)) : first (cs ++ cs') = (first cs).or (first cs') :=
  List.findSome?_append

theorem first_flatMap {α : Type} (xs : List α) (f : α → List (Check × Path)) :
    first (xs.flatMap f) = xs.findSome? fun x => first (f x) := by
  induction xs with
  | nil => rfl
  | cons x xs ih =>
    rw [List.flatMap_cons, first_append, ih, findSome?_cons_or]

theorem findSome?_filterMap {α β γ : Type} (xs : List α) (f : α → Option β) (g : β → Option γ) :
    (xs.filterMap f).findSome? g = xs.findSome? fun x => (f x).bind g := by
  induction xs with
  | nil => rfl
  | cons x xs ih =>
    rw [List.filterMap_cons, findSome?_cons_or, ← ih]
    rcases f x with _ | y
    · rfl
    · exact findSome?_cons_or g y _

theorem first_singleton (c : Check) (path : Path) : first [(c, path)] = c.fault?.map (·, path) :=
  List.findSome?_singleton

/-- A single check that asks for an element. -/
theorem first_element {c : Check} {cause : TreeFault} {v : Json}
    (hc : c.fault? = if v.isElement then none else some cause) (path : Path) :
    first [(c, path)] = if v.isElement then none else some (cause, path) := by
  rw [first_singleton, hc]
  cases v.isElement <;> rfl

/-- The checks of the node data that a step leads to, from a path on. -/
def belowChecks (path : Path) (w : PathStep × Json) : List (Check × Path) :=
  w.2.checks (path ++ [w.1]) ++ (w.1.demands w.2).map fun c => (c, path)

/-- What is below an element is checked in three rounds. -/
theorem first_nodesBelow (v : Json) (path : Path) :
    first (v.nodesBelow.flatMap (belowChecks path)) =
      ((valueAt v "children").asList.zipIdx.findSome? fun c => first (belowChecks path (.child c.2, c.1))).or
        (((valueAt v "scopedSlots").asMap.findSome? fun m => first (belowChecks path (.slot m.1, m.2))).or
          ((valueAt v "ifConditions").asList.zipIdx.findSome? fun c =>
            (c.1.given? "block").bind fun block => first (belowChecks path (.condition c.2, block)))) := by
  rw [first_flatMap, Json.nodesBelow, List.findSome?_append, List.findSome?_append, List.findSome?_map,
    List.findSome?_map, findSome?_filterMap, Option.or_assoc]
  simp only [Function.comp_def, Option.bind_map]

/-! ## Loading -/

/-- The nodes of a list are elements. -/
def Has (is : List Nat) (t : Tree) : Prop :=
  ∀ i ∈ is, (t.element? i).isSome

variable {is : List Nat}

theorem judged_edit (i : Nat) (f : Element → Element) : Judged (Has is) (edit i f) none fun _ => Has is :=
  .modify fun s h j hj => (Tree.isSome_element?_modifyElement s.tree i f j).trans (h j hj)

/-- A new node is what it is, and the elements that were there still are. -/
theorem judged_adopt (n : Node) (parent : Option Nat) :
    Judged (Has is) (adopt n parent) none fun i t => Has is t ∧ t.element? i = n.element? := by
  refine ⟨fun s _ => ⟨s.tree.size, rfl⟩, ensures_adopt fun t ht => ⟨fun j hj => ?_, ?_⟩⟩
  · obtain ⟨e, he⟩ := Option.isSome_iff_exists.mp (ht j hj)
    have hne : j ≠ t.size := Nat.ne_of_lt (Tree.lt_size_of_element? he)
    rw [Tree.element?, node?_adopt, if_neg hne, ← Tree.element?]
    exact ht j hj
  · rw [Tree.element?, node?_adopt, if_pos rfl]
    rfl

/-- Where it is known whether node `i` is an element, it is known whether that is a fault. -/
theorem judged_needElement {i : Nat} {b : Bool} (cause : TreeFault) (path : Path) :
    Judged (fun t => Has is t ∧ (t.element? i).isSome = b) (needElement i cause path)
      (if b then none else some (cause, path)) fun _ => Has is := by
  refine ⟨fun s hs => ?_, (ensures_needElement _ i cause path).mono fun _ t ht => ht.1.1⟩
  have hrun : (needElement i cause path).run.run s =
      (if (s.tree.element? i).isSome then pure () else throw (.fault cause path) : LoadM Unit).run.run s := rfl
  rw [hrun, hs.2]
  cases b with
  | false => exact rfl
  | true => exact ⟨(), rfl⟩

/-- Listing a node that has to be an element. -/
theorem judged_list {i : Nat} {b : Bool} (cause : TreeFault) (path : Path) (j : Nat) (f : Element → Element) :
    Judged (fun t => Has is t ∧ (t.element? i).isSome = b) (do needElement i cause path; edit j f)
      (if b then none else some (cause, path)) fun _ => Has is :=
  (judged_needElement cause path).before fun _ => judged_edit j f

/-- What comes of loading node data. -/
def Judges (self : Json → Option Nat → Path → LoadM Nat) (v : Json) : Prop :=
  ∀ parent path is, (∀ c ∈ v.checks path, c.1.Fit) →
    Judged (Has is) (self v parent path) (first (v.checks path)) fun c t =>
      Has is t ∧ (t.element? c).isSome = v.isElement

/-- What is needed to load the nodes below an element. -/
structure Ready (load : Json → Option Nat → Path → LoadM Nat) (v : Json) (path : Path) : Prop where
  shaped : v.Shaped
  loads : ∀ w ∈ v.nodesBelow, Judges load w.2
  fits : ∀ w ∈ v.nodesBelow, ∀ c ∈ belowChecks path w, c.1.Fit

section Below

variable {self : Json → Option Nat → Path → LoadM Nat} {v : Json} {path : Path} {parent : Option Nat}

/-- Loading a node below an element, and going on with it. -/
theorem Ready.step {α : Type} (h : Ready self v path) {w : PathStep × Json} (hw : w ∈ v.nodesBelow)
    {f : Nat → LoadM α} {Q : α → Tree → Prop}
    (hf : ∀ b, Judged (fun t => Has is t ∧ (t.element? b).isSome = w.2.isElement) (f b)
      (first ((w.1.demands w.2).map fun c => (c, path))) Q) (parent : Option Nat) :
    Judged (Has is) (self w.2 parent (path ++ [w.1]) >>= f) (first (belowChecks path w)) Q := by
  rw [belowChecks, first_append]
  refine (h.loads w hw parent (path ++ [w.1]) is fun c hc => ?_).bind hf
  exact h.fits w hw c (List.mem_append_left _ hc)

theorem judged_loadChildren (h : Ready self v path) (i : Nat) :
    Judged (Has is) (loadChildren self v path i)
      ((valueAt v "children").asList.zipIdx.findSome? fun c => first (belowChecks path (.child c.2, c.1)))
      fun _ => Has is := by
  have hparts : partsAt v "children" = pure (valueAt v "children").asList := by
    have hchildren := h.shaped.children
    unfold partsAt valueAt
    rcases hget : v.get? "children" with _ | list
    · rfl
    · rw [hget] at hchildren
      exact partsOf_eq hchildren
  unfold loadChildren
  rw [hparts, pure_bind]
  refine .forM fun c hc => h.step (w := (.child c.2, c.1)) ?_ (fun b => ?_) (some i)
  · exact List.mem_append_left _ (List.mem_append_left _ (List.mem_map.mpr ⟨c, hc, rfl⟩))
  · exact (judged_edit i _).weaken fun t ht => ht.1

theorem judged_loadSlots (h : Ready self v path) (i : Nat) :
    Judged (Has is) (loadSlots self v path i)
      ((valueAt v "scopedSlots").asMap.findSome? fun m => first (belowChecks path (.slot m.1, m.2)))
      fun _ => Has is := by
  have hmembers : membersAt v "scopedSlots" = pure (valueAt v "scopedSlots").asMap := by
    unfold membersAt
    rcases hslots : (valueAt v "scopedSlots").truthy with _ | _
    · rw [Json.asMap_of_not_truthy hslots]
      rfl
    · exact membersOf_eq (h.shaped.scopedSlots hslots)
  unfold loadSlots
  rw [hmembers, pure_bind]
  refine .forM fun m hm => h.step (w := (.slot m.1, m.2)) ?_ (fun b => ?_) (some i)
  · exact List.mem_append_left _ (List.mem_append_right _ (List.mem_map.mpr ⟨m, hm, rfl⟩))
  · exact (first_element (c := .slot m.2) rfl path) ▸ judged_list .slotNotElement path i _

theorem judged_loadConditions (h : Ready self v path) (i : Nat) :
    Judged (Has is) (loadConditions self v parent path i)
      ((valueAt v "ifConditions").asList.zipIdx.findSome? fun c =>
        (c.1.given? "block").bind fun block => first (belowChecks path (.condition c.2, block)))
      fun _ => Has is := by
  unfold loadConditions
  have hconditions := h.shaped.conditions
  rcases hlist : v.given? "ifConditions" with _ | list
  · rw [Json.valueAt_eq_null hlist]
    exact judged_edit i _
  rw [hlist] at hconditions
  obtain ⟨harray, hall⟩ := Json.listOf_iff.mp hconditions
  rw [← Json.valueAt_of_given? hlist] at harray hall ⊢
  simp only [partsOf_eq harray, pure_bind]
  refine .forM fun c hc => ?_
  rw [membersOf_eq (hall c.1 (List.fst_mem_of_mem_zipIdx hc)), pure_bind]
  unfold loadBlock
  rcases hblock : c.1.given? "block" with _ | block
  · exact judged_edit i _
  · simp only [bind_assoc]
    refine h.step (w := (.condition c.2, block)) ?_ (fun b => ?_) parent
    · exact List.mem_append_right _ (List.mem_filterMap.mpr ⟨c, hc, by rw [hblock]; rfl⟩)
    · exact (first_element (c := .block block) rfl path) ▸ judged_list .blockNotElement path i _

theorem judged_loadBelow (h : Ready self v path) (i : Nat) :
    Judged (Has is) (loadBelow self v parent path i) (first (v.nodesBelow.flatMap (belowChecks path)))
      fun _ => Has is := by
  rw [first_nodesBelow]
  exact (judged_loadChildren h i).bind fun _ => (judged_loadSlots h i).bind fun _ => judged_loadConditions h i

/-- The checks of an element: its tag, its directives, its model, and what is below it. -/
theorem first_checks_element (hv : v.isElement = true) :
    first (v.checks path) = ((v.missing? ["tag"]).map (·, path)).or
      ((((valueAt v "directives").asList.findSome? fun d => (d.missing? ["name"]).map (·, path ++ [.directives])).or
        ((v.given? "model").bind fun m => (m.missing? ["value", "callback", "expression"]).map
          (·, path ++ [.model]))).or (first (v.nodesBelow.flatMap (belowChecks path)))) := by
  have hfault : v.nodeFault? = v.missing? ["tag"] := by
    obtain ⟨hobject, htype⟩ := Bool.and_eq_true_iff.mp hv
    rw [Json.nodeFault?, hobject, htype]
    rfl
  have hmodel : first ((v.given? "model").toList.map fun m => (.model m, path ++ [.model])) =
      (v.given? "model").bind fun m => (m.missing? ["value", "callback", "expression"]).map
        (·, path ++ [.model]) := by
    cases v.given? "model" with
    | none => rfl
    | some m => exact first_singleton (.model m) _
  rw [Json.checks_eq, if_pos hv, ← List.singleton_append, first_append, first_append, first_append, first_singleton,
    hmodel, Check.fault?, hfault]
  congr 3
  exact List.findSome?_map

/-- An element that is written anew is still one. -/
theorem judged_rewrite (i : Nat) (e : Element) (flags : Flags) :
    Judged (Has is) (modify fun s => { s with
      tree := s.tree.modifyNode i fun n => { n with content := .element e, flags := flags } }) none
      fun _ => Has is := by
  refine .modify fun s hs j hj => ?_
  have hold := hs j hj
  unfold Tree.element? at hold ⊢
  rw [Tree.node?_modifyNode]
  split
  · rcases hn : s.tree.node? j with _ | n
    · rw [hn] at hold
      cases hold
    · rfl
  · exact hold

theorem judged_loadElement (h : Ready self v path) (hv : v.isElement = true) (hw : v.Worded) :
    Judged (Has is) (loadElement self v parent path) (first (v.checks path)) fun i t =>
      Has is t ∧ (t.element? i).isSome = v.isElement := by
  have hobject := (Bool.and_eq_true_iff.mp hv).1
  rw [first_checks_element hv]
  unfold loadElement
  refine (reads_shell hobject h.shaped hw _).bind fun e => ?_
  refine (judged_adopt _ parent).after fun i => .weaken (P := Has (i :: is)) ?_ fun t ht => ?_
  · refine (reads_bindings h.shaped hw e _).bind fun e' => (judged_rewrite i e' _).after fun _ => ?_
    refine (judged_loadBelow h i).before fun _ => .pure fun t ht => ⟨fun j hj => ht j (List.mem_cons_of_mem _ hj), ?_⟩
    rw [ht i (List.mem_cons_self ..), hv]
  · rintro j (_ | ⟨_, hj⟩)
    · rw [ht.2]
      rfl
    · exact ht.1 j hj

end Below

variable {v : Json} {path : Path}

/-- Of data that is no element nothing else is asked than that it is a node. -/
theorem first_checks_leaf (hv : v.isElement = false) : first (v.checks path) = v.nodeFault?.map (·, path) := by
  rw [Json.checks_eq, hv]
  exact first_singleton (.node v) path

/-- A node that has one key and is no element. -/
theorem judged_leaf (hobject : v.isObject = true) (hv : v.isElement = false) {key : String}
    (hfault : v.nodeFault? = v.missing? [key]) (n : Json → Node) (hn : ∀ m, (n m).element? = none)
    (parent : Option Nat) :
    Judged (Has is) (do adopt (n (← require v key path)) parent) (first (v.checks path)) fun i t =>
      Has is t ∧ (t.element? i).isSome = v.isElement := by
  rw [first_checks_leaf hv, hfault, hv]
  refine (reads_require hobject key path _).before fun m => (judged_adopt (n m) parent).mono fun i t ht => ⟨ht.1, ?_⟩
  rw [ht.2, hn]
  rfl

/-- Loading data one level further down. -/
theorem judges_object {fuel : Nat} {members : List (String × Json)}
    (ih : ∀ {w : Json}, w.depth ≤ fuel → Judges (loadNode fuel) w) (hdepth : (Json.object members).depth ≤ fuel + 1) :
    Judges (loadNode (fuel + 1)) (.object members) := by
  intro parent path is hfit
  have hnode := hfit (.node (.object members), path) (by rw [Json.checks_eq]; exact .head _)
  have hone {n : Nat} (htype : (Json.object members).nodeType.isNumber n = true)
      (hreal : Json.realOfNat 1 = Json.realOfNat n → 1 = n) (hn : 1 ≠ n) :
      (Json.object members).nodeType.isNumber 1 = false :=
    Bool.eq_false_iff.mpr fun h => hn (Json.isNumber_unique h htype hreal)
  unfold loadNode
  dsimp only
  split
  · next htype =>
    have h2 : (Json.object members).nodeType.isNumber 2 = true := htype
    have h1 := hone h2 (by decide) (by decide)
    have hleaf : (Json.object members).isElement = false := h1
    refine judged_leaf rfl hleaf ?_ (fun m => ⟨none, _, _, .expression m _⟩) (fun _ => rfl) parent
    rw [Json.nodeFault?, h1, h2]
    rfl
  split
  · next h2 htype =>
    have h3 : (Json.object members).nodeType.isNumber 3 = true := htype
    have h2 : (Json.object members).nodeType.isNumber 2 = false := Bool.eq_false_iff.mpr h2
    have h1 := hone h3 (by decide) (by decide)
    have hleaf : (Json.object members).isElement = false := h1
    let n (text : Json) : Node :=
      { span := spanOf (.object members)
        content := if (valueAt (.object members) "isComment").truthy then .comment text else .text text }
    have hn (text : Json) : (n text).element? = none := by
      dsimp only [n, Node.element?]
      cases (valueAt (.object members) "isComment").truthy <;> rfl
    refine judged_leaf rfl hleaf ?_ n hn parent
    rw [Json.nodeFault?, h1, h2, h3]
    rfl
  split
  · next h2 h3 htype =>
    have helement : (Json.object members).isElement = true := htype
    have hready : Ready (loadNode fuel) (.object members) path := by
      refine ⟨hnode.shaped helement, fun w hw => ih ?_, fun w hw c hc => hfit c ?_⟩
      · have := Json.depth_lt_of_mem_nodesBelow hw
        omega
      · rw [Json.checks_eq, if_pos helement]
        exact .tail _ (List.mem_append_right _ (List.mem_flatMap.mpr ⟨w, hw, hc⟩))
    exact judged_loadElement hready helement (hnode.worded helement)
  · next h2 h3 h1 =>
    have h1 : (Json.object members).nodeType.isNumber 1 = false := Bool.eq_false_iff.mpr h1
    have h2 : (Json.object members).nodeType.isNumber 2 = false := Bool.eq_false_iff.mpr h2
    have h3 : (Json.object members).nodeType.isNumber 3 = false := Bool.eq_false_iff.mpr h3
    have hleaf : (Json.object members).isElement = false := h1
    rw [first_checks_leaf hleaf, Json.nodeFault?, h1, h2, h3]
    split
    · exact .fault
    · next hwide => exact absurd hnode.writable hwide

/-- By induction on the depth that is left, which is enough for the data. -/
theorem judges_loadNode (fuel : Nat) {v : Json} (hdepth : v.depth ≤ fuel) : Judges (loadNode fuel) v := by
  induction fuel generalizing v with
  | zero =>
    have := v.depth_pos
    omega
  | succ fuel ih =>
    cases v with
    | object members => exact judges_object ih hdepth
    | _ =>
      intro parent path is hfit
      rw [first_checks_leaf rfl]
      exact .fault

theorem judged_loadRoot (hnull : v.isNull = false) (hfit : ∀ c ∈ v.treeChecks, c.1.Fit) :
    Judged (Has []) (loadRoot v) (first v.treeChecks) fun _ => Has [] := by
  rw [Json.treeChecks, hnull, if_neg Bool.false_ne_true] at hfit ⊢
  have hroot : first [(Check.root v, [])] = if v.isElement then none else some (.rootNotElement, []) :=
    first_element rfl []
  have hrecord (r : Loading → LogRecord) : Judged (Has []) (do record (r (← get))) none fun _ => Has [] :=
    .after (R := fun _ => Has []) ⟨fun s _ => ⟨s, rfl⟩, Quiet.get _⟩ fun s => .modify fun _ ht => ht
  rw [first_append, hroot]
  unfold loadRoot
  have hload := judges_loadNode v.depth (Nat.le_refl _) none [] [] fun c hc => hfit c (List.mem_append_left _ hc)
  refine hload.bind fun i => ?_
  refine (judged_needElement .rootNotElement []).before fun _ => ?_
  exact .after (R := fun _ => Has []) (.modify fun s _ => nofun) fun _ => hrecord fun s => .loaded s.tree.size

/-- Loading ends as the first check that fails says. -/
theorem verdict_load (hfit : ∀ c ∈ v.treeChecks, c.1.Fit) :
    Verdict (first v.treeChecks) (Tree.load v).1 := by
  cases hnull : v.isNull with
  | true =>
    cases v with
    | null => exact ⟨{}, rfl⟩
    | _ => cases hnull
  | false =>
    have h := (judged_loadRoot hnull hfit).verdict {} nofun
    have hload : (Tree.load v).1 = ((loadRoot v).run.run {}).1.map fun _ => ((loadRoot v).run.run {}).2.tree := by
      cases v with
      | null => cases hnull
      | _ => rfl
    rw [hload]
    exact h.map _

/-- The first check that fails is one before which none does. -/
theorem first_eq_some_iff {checks : List (Check × Path)} {cause : TreeFault} {path : Path} :
    first checks = some (cause, path) ↔ ∃ before check after, checks = before ++ (check, path) :: after ∧
      check.fault? = some cause ∧ ∀ c ∈ before, c.1.fault? = none := by
  rw [first, List.findSome?_eq_some_iff]
  simp only [Option.map_eq_some_iff, Option.map_eq_none_iff, Prod.mk.injEq]
  constructor
  · rintro ⟨before, ⟨check, path'⟩, after, rfl, ⟨cause', hfault, rfl, rfl⟩, hbefore⟩
    exact ⟨before, check, after, rfl, hfault, hbefore⟩
  · rintro ⟨before, check, after, rfl, hfault, hbefore⟩
    exact ⟨before, (check, path), after, rfl, ⟨cause, hfault, rfl, rfl⟩, hbefore⟩

theorem first_eq_none_iff {checks : List (Check × Path)} :
    first checks = none ↔ ∀ c ∈ checks, c.1.fault? = none := by
  rw [first, List.findSome?_eq_none_iff]
  simp only [Option.map_eq_none_iff]

theorem Verdict.fault_iff {α : Type} {d : Option Finding} {r : Except LoadError α} (h : Verdict d r)
    {cause : TreeFault} {path : Path} : r = .error (.fault cause path) ↔ d = some (cause, path) := by
  rcases d with _ | ⟨cause', path'⟩
  · obtain ⟨a, rfl⟩ := h
    exact ⟨nofun, nofun⟩
  · obtain rfl : r = .error (.fault cause' path') := h
    simp

theorem Verdict.ok_iff {α : Type} {d : Option Finding} {r : Except LoadError α} (h : Verdict d r) :
    (∃ a, r = .ok a) ↔ d = none := by
  rcases d with _ | ⟨cause, path⟩
  · exact ⟨fun _ => rfl, fun _ => h⟩
  · obtain rfl : r = .error (.fault cause path) := h
    exact ⟨nofun, nofun⟩

end Loader

/-- Loading refuses exactly the data that is no tree, and points at what is wrong. Take data in which the containers of
every element have the kinds that they should have, the names can be used, and the types of nodes can be written. It is
refused with a fault if and only if one of the checks fails, and loaded otherwise. The fault is that of the first check
that fails, in the order in which the data is read. The text of its path has one reading, and, if no object has two
members of one name, the path leads to the value that the check is reported at: the one that is wrong, the list with the
directive that has no name, or the owner of the slot or the block that is no element. -/
theorem Tree.load_refuses {v : Json} (hshaped : ∀ c ∈ v.treeChecks, c.1.Shaped)
    (hworded : ∀ c ∈ v.treeChecks, c.1.Worded) (hwritable : ∀ c ∈ v.treeChecks, c.1.Writable) :
    ((∃ cause path, (Tree.load v).1 = .error (.fault cause path)) ↔ ∃ c ∈ v.treeChecks, c.1.fault? ≠ none) ∧
    ((∃ t, (Tree.load v).1 = .ok t) ↔ ∀ c ∈ v.treeChecks, c.1.fault? = none) ∧
    ∀ cause path, (Tree.load v).1 = .error (.fault cause path) → ∃ before check after,
      v.treeChecks = before ++ (check, path) :: after ∧ check.fault? = some cause ∧
        (∀ c ∈ before, c.1.fault? = none) ∧ Path.read? path.text = some path ∧
        (v.distinct = true → ∃ target, v.at? path = some target ∧ check.ReportedAt target) := by
  have h := Loader.verdict_load fun c hc => ⟨hshaped c hc, hworded c hc, hwritable c hc⟩
  refine ⟨⟨fun ⟨cause, path, herror⟩ => ?_, fun ⟨c, hc, hfault⟩ => ?_⟩, ?_, fun cause path herror => ?_⟩
  · obtain ⟨before, check, after, hchecks, hfault, -⟩ := Loader.first_eq_some_iff.mp (h.fault_iff.mp herror)
    refine ⟨(check, path), ?_, by rw [hfault]; exact Option.some_ne_none _⟩
    rw [hchecks]
    exact List.mem_append_right _ (List.mem_cons_self ..)
  · rcases hfirst : Loader.first v.treeChecks with _ | ⟨cause, path⟩
    · exact absurd (Loader.first_eq_none_iff.mp hfirst c hc) hfault
    · exact ⟨cause, path, h.fault_iff.mpr hfirst⟩
  · rw [h.ok_iff, Loader.first_eq_none_iff]
  · obtain ⟨before, check, after, hchecks, hfault, hbefore⟩ := Loader.first_eq_some_iff.mp (h.fault_iff.mp herror)
    refine ⟨before, check, after, hchecks, hfault, hbefore, path.read?_text, fun hv => ?_⟩
    have hmem : (check, path) ∈ v.treeChecks := by
      rw [hchecks]
      exact List.mem_append_right _ (List.mem_cons_self ..)
    exact Json.leads_treeChecks hv hmem

/-- A component whose slot content has an interpolation without an expression, and an unknown node after it. -/
def brokenSlot : Json :=
  let content : Json := .object [("tag", "p"), ("children", .array [.object [("type", .int 2)]])]
  .object [("tag", "my-list"), ("attrsList", .array [.object [("name", "id"), ("value", "a")]]),
    ("directives", .array [.object [("name", "show"), ("value", "on")]]),
    ("children", .array [.object [("type", .int 3), ("text", "a")]]),
    ("scopedSlots", .object [("it's", content), ("end", .object [("type", .int 7)])])]

theorem Tree.load_refuses_brokenSlot : ∃ cause path, (Tree.load brokenSlot).1 = .error (.fault cause path) ∧
    ∃ (check : Check) (target : Json), check.fault? = some cause ∧ brokenSlot.at? path = some target ∧
      check.ReportedAt target := by
  obtain ⟨hrefused, -, hfirst⟩ := Tree.load_refuses (v := brokenSlot) (by decide +kernel) (by decide +kernel)
    (by decide +kernel)
  obtain ⟨cause, path, herror⟩ := hrefused.mpr (by decide +kernel)
  obtain ⟨-, check, -, -, hfault, -, -, hleads⟩ := hfirst cause path herror
  obtain ⟨target, hat, hreported⟩ := hleads (by decide +kernel)
  exact ⟨cause, path, herror, check, target, hfault, hat, hreported⟩

/-- Whether data is refused with a fault. -/
def Tree.isRefused (v : Json) : Bool :=
  match (Tree.load v).1 with
  | .error (.fault _ _) => true
  | _ => false

/-- A directive whose name is a number, and an unknown node after it. -/
def numberedDirective : Json :=
  .object [("tag", "div"), ("directives", .array [.object [("name", .int 5)]]),
    ("children", .array [.object [("type", .int 7)]])]

/-- Containers of the right kinds are not enough: a name that is no text stops loading before the node after it is
found to be unknown. -/
theorem Tree.load_numberedDirective : (∀ c ∈ numberedDirective.treeChecks, c.1.Shaped) ∧
    (∃ c ∈ numberedDirective.treeChecks, c.1.fault?.isSome = true) ∧
    ∀ cause path, (Tree.load numberedDirective).1 ≠ .error (.fault cause path) := by
  have hload : Tree.isRefused numberedDirective = false := by decide +kernel
  refine ⟨by decide +kernel, by decide +kernel, fun cause path h => ?_⟩
  rw [Tree.isRefused, h] at hload
  cases hload

end TemplateCompiler
