import TemplateCompiler.Proofs.Tree.Reading

/-!
# What is asked of tree data

Tree data has to be a tree. `Json.checks` lists what is asked of it, in the order in which the data is read: of every
node, then of the directives and the model of an element, then of what is below the element, and of a slot or a block
that it is an element. Each check has a fault if it fails (`Check.fault?`), and stands at a path. The path leads to the
value that is asked about, or to the element or the list that it belongs to (`Json.leads_checks`).
-/

namespace TemplateCompiler

open Loader (valueAt)

/-! ## The parts of node data -/

namespace Json

/-- The items of a list; other values have none. -/
def asList : Json → List Json
  | .array items => items
  | _ => []

/-- The members of an object; other values have none. -/
def asMap : Json → List (String × Json)
  | .object members => members
  | _ => []

/-- A list whose items have a property. -/
def listOf (p : Json → Bool) : Json → Bool
  | .array items => items.all p
  | _ => false

/-- An object whose members have a property. -/
def mapOf (p : Json → Bool) : Json → Bool
  | .object members => members.all fun m => p m.2
  | _ => false

def isArray : Json → Bool
  | .array _ => true
  | _ => false

def isObject : Json → Bool
  | .object _ => true
  | _ => false

/-- A value is at most one of some numbers, if they are different as numbers with a fraction. -/
theorem isNumber_unique {v : Json} {m n : Nat} (hm : v.isNumber m = true) (hn : v.isNumber n = true)
    (hreal : realOfNat m = realOfNat n → m = n) : m = n := by
  cases v with
  | bool b => exact (beq_iff_eq.mp hm).symm.trans (beq_iff_eq.mp hn)
  | int i => exact Int.ofNat.inj ((beq_iff_eq.mp hm).symm.trans (beq_iff_eq.mp hn))
  | real bits => exact hreal ((beq_iff_eq.mp hm).symm.trans (beq_iff_eq.mp hn))
  | _ => cases hm

/-- The type of a node, which is an element if nothing is said. -/
def nodeType (v : Json) : Json :=
  (v.get? "type").getD (.int 1)

def isElement (v : Json) : Bool :=
  v.isObject && v.nodeType.isNumber 1

/-- The node data below an element, with the steps that lead there, in the order in which it is loaded. -/
def nodesBelow (v : Json) : List (PathStep × Json) :=
  (valueAt v "children").asList.zipIdx.map (fun c => (.child c.2, c.1)) ++
    (valueAt v "scopedSlots").asMap.map (fun m => (.slot m.1, m.2)) ++
    (valueAt v "ifConditions").asList.zipIdx.filterMap fun c =>
      (c.1.given? "block").map fun block => (.condition c.2, block)

/-- Where a step leads from a value. A step to a condition leads to its block. -/
def step? (v : Json) : PathStep → Option Json
  | .child i => (valueAt v "children").asList[i]?
  | .slot name => (valueAt v "scopedSlots").get? name
  | .condition i => ((valueAt v "ifConditions").asList[i]?).bind (·.given? "block")
  | .directives => v.given? "directives"
  | .model => v.given? "model"

/-- Where a path leads from a value. -/
def at? (v : Json) : Path → Option Json
  | [] => some v
  | step :: path => (v.step? step).bind (·.at? path)

/-! ## Parts are less deep -/

theorem depth_le_of_mem_items {items : List Json} {x : Json} (h : x ∈ items) : x.depth ≤ depthItems items := by
  induction items with
  | nil => cases h
  | cons y ys ih =>
    rw [depthItems]
    rcases List.mem_cons.mp h with rfl | h
    · exact Nat.le_max_left ..
    · exact Nat.le_trans (ih h) (Nat.le_max_right ..)

theorem depth_le_of_mem_members {members : List (String × Json)} {m : String × Json} (h : m ∈ members) :
    m.2.depth ≤ depthMembers members := by
  induction members with
  | nil => cases h
  | cons n ns ih =>
    rw [depthMembers]
    rcases List.mem_cons.mp h with rfl | h
    · exact Nat.le_max_left ..
    · exact Nat.le_trans (ih h) (Nat.le_max_right ..)

theorem depth_pos (v : Json) : 0 < v.depth := by
  cases v <;> simp [depth]

variable {v x : Json}

theorem depth_lt_of_mem_asList (h : x ∈ v.asList) : x.depth < v.depth := by
  cases v with
  | array items => exact Nat.lt_succ_of_le (depth_le_of_mem_items h)
  | _ => cases h

theorem depth_lt_of_mem_asMap {m : String × Json} (h : m ∈ v.asMap) : m.2.depth < v.depth := by
  cases v with
  | object members => exact Nat.lt_succ_of_le (depth_le_of_mem_members h)
  | _ => cases h

theorem mem_asMap_of_get? {key : String} (h : v.get? key = some x) : (key, x) ∈ v.asMap := by
  cases v with
  | object members =>
    obtain ⟨l₁, l₂, rfl, -⟩ := List.lookup_eq_some_iff.mp h
    exact List.mem_append_right _ (List.mem_cons_self ..)
  | _ => cases h

theorem depth_lt_of_get? {key : String} (h : v.get? key = some x) : x.depth < v.depth :=
  depth_lt_of_mem_asMap (mem_asMap_of_get? h)

theorem get?_of_given? {key : String} (h : v.given? key = some x) : v.get? key = some x :=
  (Option.filter_eq_some_iff.mp h).1

theorem depth_valueAt_lt {key : String} (h : (valueAt v key).isNull = false) : (valueAt v key).depth < v.depth := by
  unfold valueAt at h ⊢
  rcases hx : v.get? key with _ | x
  · rw [hx] at h
    cases h
  · exact depth_lt_of_get? hx

theorem given?_of_not_null {key : String} (h : (valueAt v key).isNull = false) :
    v.given? key = some (valueAt v key) := by
  unfold valueAt at h ⊢
  rcases hx : v.get? key with _ | x
  · rw [hx] at h
    cases h
  · rw [hx] at h
    have hnull : x.isNull = false := h
    rw [given?, hx, Option.filter_some, hnull]
    rfl

theorem valueAt_of_given? {key : String} (h : v.given? key = some x) : valueAt v key = x := by
  rw [valueAt, get?_of_given? h]
  rfl

theorem valueAt_eq_null {key : String} (h : v.given? key = none) : valueAt v key = .null := by
  cases hvalue : valueAt v key with
  | null => rfl
  | _ =>
    have hgiven : v.given? key = some (valueAt v key) := given?_of_not_null (by rw [hvalue]; rfl)
    cases h.symm.trans hgiven

theorem isNull_of_mem_asList (h : x ∈ v.asList) : v.isNull = false := by
  cases v with
  | array => rfl
  | _ => cases h

theorem isNull_of_mem_asMap {m : String × Json} (h : m ∈ v.asMap) : v.isNull = false := by
  cases v with
  | object => rfl
  | _ => cases h

/-- An object that does not count as given has no members. -/
theorem asMap_of_not_truthy (h : v.truthy = false) : v.asMap = [] := by
  cases v with
  | object members =>
    rw [truthy, Bool.not_eq_false', List.isEmpty_iff] at h
    exact h
  | _ => rfl

theorem depth_lt_of_mem_nodesBelow {w : PathStep × Json} (h : w ∈ v.nodesBelow) : w.2.depth < v.depth := by
  have hitem {key : String} {x : Json} (hx : x ∈ (valueAt v key).asList) : x.depth < v.depth :=
    Nat.lt_trans (depth_lt_of_mem_asList hx) (depth_valueAt_lt (isNull_of_mem_asList hx))
  rcases List.mem_append.mp h with h | h
  · rcases List.mem_append.mp h with h | h
    · obtain ⟨c, hc, rfl⟩ := List.mem_map.mp h
      exact hitem (List.fst_mem_of_mem_zipIdx hc)
    · obtain ⟨m, hm, rfl⟩ := List.mem_map.mp h
      exact Nat.lt_trans (depth_lt_of_mem_asMap hm) (depth_valueAt_lt (isNull_of_mem_asMap hm))
  · obtain ⟨c, hc, h⟩ := List.mem_filterMap.mp h
    obtain ⟨block, hblock, rfl⟩ := Option.map_eq_some_iff.mp h
    exact Nat.lt_trans (depth_lt_of_get? (get?_of_given? hblock)) (hitem (List.fst_mem_of_mem_zipIdx hc))

end Json

/-! ## Checks -/

/-- What is asked of a value. -/
inductive Check where
  | node (v : Json)
  | directive (v : Json)
  | model (v : Json)
  /-- A slot definition has to be an element. -/
  | slot (v : Json)
  /-- The block of a condition has to be an element. -/
  | block (v : Json)
  /-- The root has to be an element. -/
  | root (v : Json)

namespace Json

/-- The first key that an object has to have and does not have. -/
def missing? (v : Json) (keys : List String) : Option TreeFault :=
  keys.findSome? fun key => if (v.get? key).isSome then none else some (.missingKey key)

theorem missing?_cons (v : Json) (key : String) (keys : List String) :
    v.missing? (key :: keys) = if (v.get? key).isSome then v.missing? keys else some (.missingKey key) := by
  rw [missing?, List.findSome?_cons]
  cases (v.get? key).isSome <;> rfl

/-- Why a value is no node. -/
def nodeFault? (v : Json) : Option TreeFault :=
  if !v.isObject then some (.notMapping v.kindName)
  else if v.nodeType.isNumber 1 then v.missing? ["tag"]
  else if v.nodeType.isNumber 2 then v.missing? ["expression"]
  else if v.nodeType.isNumber 3 then v.missing? ["text"]
  else some (.unknownType v.nodeType)

end Json

/-- What is wrong if a check fails. -/
def Check.fault? : Check → Option TreeFault
  | .node v => v.nodeFault?
  | .directive v => v.missing? ["name"]
  | .model v => v.missing? ["value", "callback", "expression"]
  | .slot v => if v.isElement then none else some .slotNotElement
  | .block v => if v.isElement then none else some .blockNotElement
  | .root v => if v.isElement then none else some .rootNotElement

/-- What is asked of the value that a step leads to, once it is loaded. -/
def PathStep.demands (step : PathStep) (v : Json) : List Check :=
  match step with
  | .slot _ => [.slot v]
  | .condition _ => [.block v]
  | _ => []

namespace Json

/-- What is asked of node data at a path, with all that is below it. A slot or a block that is no element is reported
at the path of the element that it belongs to. -/
def checks (v : Json) (path : Path) : List (Check × Path) :=
  (.node v, path) ::
    if v.isElement then
      (valueAt v "directives").asList.map (fun d => (.directive d, path ++ [.directives])) ++
        (v.given? "model").toList.map (fun m => (.model m, path ++ [.model])) ++
        v.nodesBelow.attach.flatMap fun w =>
          checks w.1.2 (path ++ [w.1.1]) ++ (w.1.1.demands w.1.2).map fun c => (c, path)
    else []
termination_by v.depth
decreasing_by exact depth_lt_of_mem_nodesBelow w.2

theorem checks_eq (v : Json) (path : Path) : v.checks path = (.node v, path) ::
    if v.isElement then
      (valueAt v "directives").asList.map (fun d => (.directive d, path ++ [.directives])) ++
        (v.given? "model").toList.map (fun m => (.model m, path ++ [.model])) ++
        v.nodesBelow.flatMap fun w => w.2.checks (path ++ [w.1]) ++ (w.1.demands w.2).map fun c => (c, path)
    else [] := by
  have hattach (f : PathStep × Json → List (Check × Path)) :
      v.nodesBelow.attach.flatMap (fun w => f w.1) = v.nodesBelow.flatMap f := by
    rw [← List.flatMap_map, List.attach_map_subtype_val]
  rw [checks, hattach fun w => w.2.checks (path ++ [w.1]) ++ (w.1.demands w.2).map fun c => (c, path)]

/-- What is asked of the data of a whole template. Null is the empty template, of which nothing is asked. -/
def treeChecks (v : Json) : List (Check × Path) :=
  if v.isNull then [] else v.checks [] ++ [(.root v, [])]

end Json

/-! ## Where the paths lead -/

/-- The value at which a check is reported: the one that it is about, the list that a directive is in, or the owner of
a slot or a block that has to be an element. -/
def Check.ReportedAt (target : Json) : Check → Prop
  | .node v | .model v | .root v => target = v
  | .directive v => v ∈ target.asList
  | .slot v => ∃ name, target.step? (.slot name) = some v
  | .block v => ∃ k, target.step? (.condition k) = some v

/-- The path leads from the root to where the check is reported. -/
def Check.Leads (root : Json) (c : Check) (path : Path) : Prop :=
  ∃ target, root.at? path = some target ∧ c.ReportedAt target

namespace Json

variable {v w : Json}

/-- In an object without double names a member is found under its name. -/
theorem get?_of_mem_asMap (hv : v.distinct = true) {m : String × Json} (h : m ∈ v.asMap) :
    v.get? m.1 = some m.2 := by
  cases v with
  | object members =>
    obtain ⟨l₁, l₂, rfl⟩ := List.append_of_mem h
    have hnodup := (distinct_object.mp hv).1
    rw [List.map_append, List.map_cons, List.nodup_append] at hnodup
    refine List.lookup_eq_some_iff.mpr ⟨l₁, l₂, rfl, fun n hn => ?_⟩
    have hne := hnodup.2.2 n.1 (List.mem_map_of_mem hn) m.1 (List.mem_cons_self ..)
    exact bne_iff_ne.mpr hne.symm
  | _ => cases h

theorem distinct_valueAt (hv : v.distinct = true) (key : String) : (valueAt v key).distinct = true := by
  unfold valueAt
  rcases hx : v.get? key with _ | x
  · rfl
  · exact distinct_of_get? hv hx

theorem step?_of_mem_nodesBelow (hv : v.distinct = true) {s : PathStep × Json} (h : s ∈ v.nodesBelow) :
    v.step? s.1 = some s.2 := by
  rcases List.mem_append.mp h with h | h
  · rcases List.mem_append.mp h with h | h
    · obtain ⟨c, hc, rfl⟩ := List.mem_map.mp h
      exact List.mem_zipIdx_iff_getElem?.mp hc
    · obtain ⟨m, hm, rfl⟩ := List.mem_map.mp h
      exact get?_of_mem_asMap (distinct_valueAt hv _) hm
  · obtain ⟨c, hc, h⟩ := List.mem_filterMap.mp h
    obtain ⟨block, hblock, rfl⟩ := Option.map_eq_some_iff.mp h
    have hat : (valueAt v "ifConditions").asList[c.2]? = some c.1 := List.mem_zipIdx_iff_getElem?.mp hc
    rw [step?, hat]
    exact hblock

theorem distinct_of_step? (hv : v.distinct = true) {s : PathStep} (h : v.step? s = some w) : w.distinct = true := by
  have hitem {key : String} {x : Json} (hx : x ∈ (valueAt v key).asList) : x.distinct = true := by
    have hlist := distinct_valueAt hv key
    cases hkey : valueAt v key with
    | array items =>
      rw [hkey] at hx hlist
      exact distinct_of_mem_items hlist hx
    | _ =>
      rw [hkey] at hx
      cases hx
  cases s with
  | child k => exact hitem (List.mem_of_getElem? h)
  | slot name => exact distinct_of_get? (distinct_valueAt hv _) h
  | condition k =>
    obtain ⟨c, hc, hblock⟩ := Option.bind_eq_some_iff.mp h
    exact distinct_of_given? (hitem (List.mem_of_getElem? hc)) hblock
  | directives | model => exact distinct_of_given? hv h

/-- A path may begin further up. -/
theorem leads_cons {c : Check} {path : Path} (h : c.Leads w path) {step : PathStep} (hstep : v.step? step = some w) :
    c.Leads v (step :: path) := by
  obtain ⟨target, hat, hc⟩ := h
  refine ⟨target, ?_, hc⟩
  rw [at?, hstep]
  exact hat

/-- By induction on the depth of the data, from an element to what is below it. -/
theorem leads_checks (v : Json) (hv : v.distinct = true) (path : Path) {c : Check × Path} (hc : c ∈ v.checks path) :
    ∃ rest, c.2 = path ++ rest ∧ c.1.Leads v rest := by
  induction hdepth : v.depth using Nat.strongRecOn generalizing v path c with
  | ind depth ih =>
    rw [checks_eq, List.mem_cons] at hc
    rcases hc with rfl | hc
    · exact ⟨[], (List.append_nil path).symm, v, rfl, rfl⟩
    split at hc
    case isFalse => cases hc
    rcases List.mem_append.mp hc with hc | hc
    · rcases List.mem_append.mp hc with hc | hc
      · obtain ⟨d, hd, rfl⟩ := List.mem_map.mp hc
        have hat : v.at? [.directives] = some (valueAt v "directives") := by
          rw [at?, step?, given?_of_not_null (isNull_of_mem_asList hd)]
          rfl
        exact ⟨[.directives], rfl, _, hat, hd⟩
      · obtain ⟨m, hm, rfl⟩ := List.mem_map.mp hc
        have hat : v.at? [.model] = some m := by
          rw [at?, step?, Option.mem_toList.mp hm]
          rfl
        exact ⟨[.model], rfl, m, hat, rfl⟩
    · obtain ⟨⟨step, w⟩, hw, hc⟩ := List.mem_flatMap.mp hc
      have hstep : v.step? step = some w := step?_of_mem_nodesBelow hv hw
      rcases List.mem_append.mp hc with hc | hc
      · obtain ⟨rest, hrest, hleads⟩ := ih w.depth (hdepth ▸ depth_lt_of_mem_nodesBelow hw) w
          (distinct_of_step? hv hstep) (path ++ [step]) hc rfl
        exact ⟨step :: rest, by rw [hrest, List.append_assoc]; rfl, leads_cons hleads hstep⟩
      · obtain ⟨check, hcheck, rfl⟩ := List.mem_map.mp hc
        refine ⟨[], (List.append_nil path).symm, v, rfl, ?_⟩
        cases step with
        | slot name => exact List.mem_singleton.mp hcheck ▸ ⟨name, hstep⟩
        | condition k => exact List.mem_singleton.mp hcheck ▸ ⟨k, hstep⟩
        | child | directives | model => cases hcheck

/-- The path of every check leads to what the check is about. -/
theorem leads_treeChecks {v : Json} (hv : v.distinct = true) {c : Check × Path} (hc : c ∈ v.treeChecks) :
    c.1.Leads v c.2 := by
  unfold treeChecks at hc
  split at hc
  · cases hc
  rcases List.mem_append.mp hc with hc | hc
  · obtain ⟨rest, hrest, hleads⟩ := leads_checks v hv [] hc
    exact hrest ▸ hleads
  · obtain rfl := List.mem_singleton.mp hc
    exact ⟨v, rfl, rfl⟩

end Json

end TemplateCompiler
