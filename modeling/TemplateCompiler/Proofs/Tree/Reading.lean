import TemplateCompiler.Proofs.Tree.Links
import TemplateCompiler.Tree.Loader

/-!
# Reading the fields of a node

`Ensures P x Q` says what a step of loading makes of a tree with `P`, if it ends well. Reading the fields of a
node leaves the tree alone (`Quiet`), and what it gives lists no nodes (`ensures_shell`, `ensures_bindings`).
In data without double names (`Json.distinct`) the parts have none either.
-/

namespace TemplateCompiler

/-! ## Objects without double names -/

namespace Json

mutual

/-- No object in a value has two members of one name. -/
def distinct : Json → Bool
  | .array items => distinctItems items
  | .object members => decide (members.map Prod.fst).Nodup && distinctMembers members
  | _ => true

def distinctItems : List Json → Bool
  | [] => true
  | x :: xs => distinct x && distinctItems xs

def distinctMembers : List (String × Json) → Bool
  | [] => true
  | (_, x) :: ms => distinct x && distinctMembers ms

end

theorem distinct_of_mem_items {items : List Json} (h : distinctItems items = true) {x : Json}
    (hx : x ∈ items) : x.distinct = true := by
  induction items with
  | nil => cases hx
  | cons y ys ih =>
    rw [distinctItems, Bool.and_eq_true] at h
    rcases List.mem_cons.mp hx with rfl | hx
    · exact h.1
    · exact ih h.2 hx

theorem distinct_of_mem_members {members : List (String × Json)} (h : distinctMembers members = true)
    {m : String × Json} (hm : m ∈ members) : m.2.distinct = true := by
  induction members with
  | nil => cases hm
  | cons n ns ih =>
    rw [distinctMembers, Bool.and_eq_true] at h
    rcases List.mem_cons.mp hm with rfl | hm
    · exact h.1
    · exact ih h.2 hm

theorem distinct_object {members : List (String × Json)} :
    (object members).distinct = true ↔
      (members.map Prod.fst).Nodup ∧ distinctMembers members = true := by
  rw [distinct, Bool.and_eq_true, decide_eq_true_iff]

theorem distinct_of_get? {v x : Json} {key : String} (h : v.distinct = true)
    (hx : v.get? key = some x) : x.distinct = true := by
  unfold get? at hx
  split at hx
  · obtain ⟨l₁, l₂, rfl, -⟩ := List.lookup_eq_some_iff.mp hx
    exact distinct_of_mem_members (distinct_object.mp h).2 (m := (key, x)) (by simp)
  · cases hx

theorem distinct_of_given? {v x : Json} {key : String} (h : v.distinct = true)
    (hx : v.given? key = some x) : x.distinct = true :=
  distinct_of_get? h (Option.filter_eq_some_iff.mp hx).1

theorem distinct_of_mem_parts {v x : Json} {parts : List Json} (h : v.distinct = true)
    (hparts : v.parts? = some parts) (hx : x ∈ parts) : x.distinct = true := by
  unfold parts? at hparts
  split at hparts <;> cases hparts
  · exact distinct_of_mem_items (by rwa [distinct] at h) hx
  · obtain ⟨m, -, rfl⟩ := List.mem_map.mp hx
    rfl
  · obtain ⟨c, -, rfl⟩ := List.mem_map.mp hx
    rfl

end Json

namespace Loader

variable {α β : Type}

/-- What holds of the result and the tree if `x` ends well from a tree with `P`. -/
def Ensures (P : Tree → Prop) (x : LoadM α) (Q : α → Tree → Prop) : Prop :=
  ∀ s, P s.tree → ∀ a s', x.run.run s = (.ok a, s') → Q a s'.tree

namespace Ensures

variable {P : Tree → Prop} {x : LoadM α} {f : α → LoadM β} {Q : β → Tree → Prop}

theorem pure {b : β} (h : ∀ t, P t → Q b t) : Ensures P (pure b) Q := by
  intro s hs a s' ha
  cases ha
  exact h _ hs

theorem throw {e : LoadError} : Ensures P (throw e) Q := by
  intro s hs a s' ha
  cases ha

theorem bind {R : α → Tree → Prop} (hx : Ensures P x R) (hf : ∀ a, Ensures (R a) (f a) Q) :
    Ensures P (x >>= f) Q := by
  intro s hs b s'' hb
  rw [ExceptT.run_bind, StateT.run_bind] at hb
  rcases hrun : x.run.run s with ⟨_ | a, s'⟩
  · rw [hrun] at hb; cases hb
  · rw [hrun] at hb; exact hf a s' (hx s hs a s' hrun) b s'' hb

theorem mono {R R' : α → Tree → Prop} (hx : Ensures P x R) (h : ∀ a t, R a t → R' a t) :
    Ensures P x R' :=
  fun s hs a s' ha => h a _ (hx s hs a s' ha)

/-- A fact that is not about the tree is known from the start. -/
theorem given {S : Prop} {R : α → Tree → Prop} (h : S → Ensures P x R) : Ensures (fun t => P t ∧ S) x R :=
  fun s hs => h hs.2 s hs.1

theorem modify {f : Loading → Loading} {Q : Unit → Tree → Prop}
    (h : ∀ s, P s.tree → Q () (f s).tree) : Ensures P (modify f) Q := by
  intro s hs a s' ha
  cases ha
  exact h s hs

/-- What the steps of a list keep, while they use up the list. -/
theorem forM {f : α → LoadM Unit} {I : List α → Tree → Prop} {xs : List α}
    (h : ∀ a rest, Ensures (I (a :: rest)) (f a) fun _ => I rest) :
    Ensures (I xs) (xs.forM f) fun _ => I [] := by
  induction xs with
  | nil => exact pure fun _ ht => ht
  | cons a xs ih => exact (h a xs).bind fun _ => ih

/-- What each step of a list keeps. -/
theorem forM_mem {f : α → LoadM Unit} {xs : List α} (h : ∀ a ∈ xs, Ensures P (f a) fun _ => P) :
    Ensures P (xs.forM f) fun _ => P := by
  induction xs with
  | nil => exact pure fun _ ht => ht
  | cons a xs ih =>
    obtain ⟨ha, hxs⟩ := List.forall_mem_cons.mp h
    exact ha.bind fun _ => ih hxs

end Ensures

/-! ## Reading fields -/

/-- The tree stays as it is. -/
def Quiet (x : LoadM α) : Prop :=
  ∀ P : Tree → Prop, Ensures P x fun _ => P

namespace Quiet

theorem pure (a : α) : Quiet (pure a) := fun _ => .pure fun _ ht => ht

theorem throw {e : LoadError} : Quiet (throw e : LoadM α) := fun _ => .throw

theorem get : Quiet (get : LoadM Loading) := by
  intro P s hs a s' ha
  cases ha
  exact hs

theorem bind {x : LoadM α} {f : α → LoadM β} (hx : Quiet x) (hf : ∀ a, Quiet (f a)) :
    Quiet (x >>= f) :=
  fun P => (hx P).bind fun a => hf a P

theorem mapM {f : α → LoadM β} {xs : List α} (hf : ∀ a, Quiet (f a)) : Quiet (xs.mapM f) := by
  induction xs with
  | nil => exact pure []
  | cons a xs ih =>
    rw [List.mapM_cons]
    exact (hf a).bind fun b => ih.bind fun bs => pure (b :: bs)

end Quiet

theorem quiet_require (v : Json) (key : String) (path : Path) : Quiet (require v key path) := by
  unfold require
  split
  · split
    · exact .pure _
    · exact .throw
  · exact .throw

theorem ensures_partsOf (P : Tree → Prop) (v : Json) :
    Ensures P (partsOf v) fun parts t => P t ∧ v.parts? = some parts := by
  unfold partsOf
  split
  · exact .pure fun t ht => ⟨ht, ‹_›⟩
  · exact .throw

theorem quiet_partsOf (v : Json) : Quiet (partsOf v) :=
  fun P => (ensures_partsOf P v).mono fun _ _ h => h.1

theorem quiet_membersOf (v : Json) : Quiet (membersOf v) := by
  unfold membersOf
  split
  · exact .pure _
  · exact .throw

theorem quiet_membersAt (v : Json) (key : String) : Quiet (membersAt v key) := by
  unfold membersAt
  split
  · exact quiet_membersOf _
  · exact .pure _

theorem quiet_tableOf (v : Json) : Quiet (tableOf v) := by
  have hpair (w : Json) : Quiet (pairOf w) := by
    refine (quiet_partsOf w).bind fun parts => ?_
    split
    · split
      · exact .throw
      · exact .pure _
    · exact .throw
  unfold tableOf
  split
  · exact .pure _
  · exact (quiet_partsOf v).bind fun parts => (Quiet.mapM hpair).bind fun pairs => .pure _

theorem quiet_attr (v : Json) : Quiet (attr v) := by
  unfold attr
  split
  · split
    · exact .throw
    · exact .pure _
  · exact .throw

theorem quiet_modifiers (v : Json) : Quiet (modifiers v) := by
  unfold modifiers
  split
  · exact (quiet_tableOf _).bind fun table => .pure _
  · exact .pure _

theorem quiet_events (v : Json) (key : String) : Quiet (events v key) := by
  have hhandler (w : Json) : Quiet (handler w) :=
    (quiet_membersOf w).bind fun _ => (quiet_modifiers w).bind fun ms => .pure _
  have hhandlers (w : Json) : Quiet (handlers w) := by
    unfold handlers
    split
    · exact (hhandler _).bind fun h => .pure _
    · exact (quiet_partsOf _).bind fun parts => .mapM hhandler
  unfold events
  split
  · refine (quiet_membersOf _).bind fun members => .mapM fun m => ?_
    exact (hhandlers m.2).bind fun hs => .pure _
  · exact .pure _

theorem quiet_directive (v : Json) (path : Path) : Quiet (directive v path) := by
  refine (quiet_membersOf v).bind fun _ => (quiet_require v "name" path).bind fun name => ?_
  split
  · exact (quiet_modifiers v).bind fun ms => .pure _
  · exact .throw

theorem quiet_attrsAt (v : Json) (key : String) : Quiet (attrsAt v key) := by
  unfold attrsAt
  split
  · exact (quiet_partsOf _).bind fun parts => (Quiet.mapM quiet_attr).bind fun attrs => .pure _
  · exact .pure _

theorem quiet_attrTable (v : Json) (attrs : List Attr) : Quiet (attrTable v attrs) := by
  unfold attrTable
  split
  · exact quiet_tableOf _
  · split
    · exact .throw
    · exact .pure _

theorem quiet_record (r : LogRecord) : Quiet (record r) := fun _ => .modify fun _ h => h

theorem quiet_partsAt (v : Json) (key : String) : Quiet (partsAt v key) := by
  unfold partsAt
  split
  · exact quiet_partsOf _
  · exact .pure _

theorem quiet_noteIgnored (v : Json) (path : Path) : Quiet (noteIgnored v path) := by
  unfold noteIgnored
  split
  · exact .pure _
  · exact quiet_record _

theorem quiet_directivesAt (v : Json) (path : Path) : Quiet (directivesAt v path) := by
  unfold directivesAt
  split
  · exact (quiet_partsOf _).bind fun parts => .mapM fun d => quiet_directive d _
  · exact .pure _

theorem quiet_modelAt (v : Json) (path : Path) : Quiet (modelAt v path) := by
  unfold modelAt
  split
  · refine .bind ?_ fun m => .pure _
    exact (quiet_require _ _ _).bind fun _ => (quiet_require _ _ _).bind fun _ =>
      (quiet_require _ _ _).bind fun _ => .pure _
  · exact .pure _

/-- The fields of an element list nothing. -/
theorem ensures_shell (P : Tree → Prop) (v : Json) (path : Path) :
    Ensures P (shell v path) fun e t => P t ∧ ∀ k, e.listed k = [] := by
  refine .bind (quiet_require v "tag" path P) fun tag => ?_
  refine .bind (quiet_partsAt v _ P) fun parts => .bind (Quiet.mapM quiet_attr P) fun attrsList => ?_
  refine .bind (quiet_noteIgnored v path P) fun _ => ?_
  refine .bind (quiet_attrTable v attrsList P) fun attrsMap => ?_
  refine .bind (quiet_membersAt v _ P) fun members => ?_
  refine .bind (Quiet.mapM (fun m => (quiet_attr (Prod.snd m)).bind fun a => .pure _) P) fun rawAttrs => ?_
  refine .pure fun t ht => ⟨ht, fun k => ?_⟩
  cases k <;> rfl

/-- Bindings list nothing. -/
theorem ensures_bindings (P : Tree → Prop) (v : Json) (path : Path) (e : Element) :
    Ensures P (bindings v path e) fun e' t => P t ∧ ∀ k, e'.listed k = e.listed k := by
  refine .bind (quiet_attrsAt v _ P) fun _ => .bind (quiet_attrsAt v _ P) fun _ => ?_
  refine .bind (quiet_attrsAt v _ P) fun _ => .bind (quiet_events v _ P) fun _ => ?_
  refine .bind (quiet_events v _ P) fun _ => .bind (quiet_directivesAt v path P) fun _ => ?_
  refine .bind (quiet_modelAt v path P) fun _ => .pure fun t ht => ⟨ht, fun k => ?_⟩
  cases k <;> rfl

theorem ensures_needElement (P : Tree → Prop) (i : Nat) (cause : TreeFault) (path : Path) :
    Ensures P (needElement i cause path) fun _ t => P t ∧ (t.element? i).isSome := by
  have hget : Ensures P (get : LoadM Loading) fun s t => P t ∧ s.tree = t := by
    intro s hs a s' ha
    cases ha
    exact ⟨hs, rfl⟩
  refine hget.bind fun s => ?_
  split
  · rename_i he
    exact .pure fun t ht => ⟨ht.1, ht.2 ▸ he⟩
  · exact .throw

end Loader

end TemplateCompiler
