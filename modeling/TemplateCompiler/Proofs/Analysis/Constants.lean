import TemplateCompiler.Proofs.Analysis.Repeated
import TemplateCompiler.Proofs.Environment.Compile
import TemplateCompiler.Proofs.Tree.Loaded

/-!
# What the first pass says about a node

The first pass looks below an element unless the element is a component (`Exposes`). It flags a node as constant
exactly if the node and everything that it looks at below it is constant by itself (`ensures_flagged`). The second
pass keeps these flags, so that this is what the flags of an analysed tree mean. In a well-formed tree the links
lead to nodes that come later, so the analysis comes to an end (`analyse_ok`).
-/

namespace TemplateCompiler

namespace Analysis

/-- Whether the platform creates elements with this tag. -/
def isReservedTag (a : Analysis) : Json → Bool
  | .string tag => a.reserved tag
  | _ => false

theorem isReservedTag_of_check {a : Analysis} {tag : Json} {reserved : Bool}
    (h : Tag.check a.reserved tag = .ok reserved) : a.isReservedTag tag = reserved := by
  cases tag with
  | string s => cases h; rfl
  | _ => cases h

/-- Whether a node, taken by itself, never changes. -/
def isConstantAt (a : Analysis) (t : Tree) (i : Nat) : Bool :=
  match t.node? i with
  | none => false
  | some n =>
    match n.content with
    | .text _ | .comment _ => true
    | .expression _ _ => false
    | .element e => a.isConstant e n.span (t.ancestorElements i) (a.isReservedTag e.tag)

/-- Node `j` is a child or a later block of an element that is native, an outlet, or has an inline template. -/
def Exposes (a : Analysis) (t : Tree) (i j : Nat) : Prop :=
  ∃ e, t.element? i = some e ∧
    (a.isReservedTag e.tag = true ∨ e.hasTag "slot" = true ∨ e.rawValue "inline-template" ≠ .null) ∧
    (j ∈ e.children ∨ j ∈ e.branchBlocks)

/-- Node `j` is `i` or stands below it with no component between. -/
def Exposed (a : Analysis) (t : Tree) (i j : Nat) : Prop :=
  Relation.ReflTransGen (a.Exposes t) i j

def AllConstant (a : Analysis) (t : Tree) (i : Nat) : Prop :=
  ∀ j, a.Exposed t i j → a.isConstantAt t j = true

section

variable {a : Analysis} {t : Tree} {i : Nat} {e : Element}

theorem enters_iff (reserved : Bool) : enters e reserved = true ↔
    reserved = true ∨ e.hasTag "slot" = true ∨ e.rawValue "inline-template" ≠ .null := by
  unfold enters
  cases e.rawValue "inline-template" <;> simp [Json.isNull]

theorem exposed_iff (he : t.element? i = some e) (j : Nat) : a.Exposed t i j ↔
    j = i ∨ enters e (a.isReservedTag e.tag) = true ∧
      ∃ c ∈ e.children ++ e.branchBlocks, a.Exposed t c j := by
  constructor
  · intro h
    rcases Relation.ReflTransGen.cases_head h with rfl | ⟨c, ⟨e', he', hopen, hc⟩, hcj⟩
    · exact .inl rfl
    · obtain rfl : e = e' := Option.some.inj (he.symm.trans he')
      exact .inr ⟨(enters_iff _).mpr hopen, c, List.mem_append.mpr hc, hcj⟩
  · rintro (rfl | ⟨hopen, c, hc, hcj⟩)
    · exact .refl
    · exact .head ⟨e, he, (enters_iff _).mp hopen, List.mem_append.mp hc⟩ hcj

theorem exposed_of_none (hi : t.element? i = none) (j : Nat) : a.Exposed t i j ↔ j = i := by
  constructor
  · intro h
    rcases Relation.ReflTransGen.cases_head h with rfl | ⟨c, ⟨e, he, -⟩, -⟩
    · rfl
    · rw [hi] at he
      cases he
  · rintro rfl
    exact .refl

/-- An element is constant with all below it if it is so by itself and so is what the pass looks at. -/
theorem allConstant_iff (he : t.element? i = some e) : a.AllConstant t i ↔
    a.isConstantAt t i = true ∧ (enters e (a.isReservedTag e.tag) = true →
      ∀ c ∈ e.children ++ e.branchBlocks, a.AllConstant t c) := by
  constructor
  · intro h
    refine ⟨h i .refl, fun hopen c hc j hj => h j ?_⟩
    exact (exposed_iff he j).mpr (.inr ⟨hopen, c, hc, hj⟩)
  · rintro ⟨hi, hbelow⟩ j hj
    rcases (exposed_iff he j).mp hj with rfl | ⟨hopen, c, hc, hcj⟩
    · exact hi
    · exact hbelow hopen c hc j hcj

theorem allConstant_of_none (hi : t.element? i = none) :
    a.AllConstant t i ↔ a.isConstantAt t i = true := by
  constructor
  · intro h
    exact h i .refl
  · intro h j hj
    rw [(exposed_of_none hi j).mp hj]
    exact h

end

/-! ## The flags of the first pass -/

theorem Ensures.lift_ok {α : Type} {t : Tree} {r : Except Failure α} {Q : α → Tree → Prop}
    (h : ∀ a, r = .ok a → Q a t) : Ensures (liftM r) t Q := by
  intro a t' ha
  cases r with
  | error e => cases ha
  | ok b => cases ha; exact h a rfl

/-- The nodes `V` were flagged with whether they are constant in `t₀`, and nothing else was changed. -/
structure Flagged (a : Analysis) (t₀ : Tree) (V : Nat → Prop) (t t' : Tree) : Prop where
  unflag : t'.unflag = t.unflag
  outside : ∀ j, ¬V j → t'.flags j = t.flags j
  inside : ∀ j, V j → ∃ b, (t'.flags j).constant = .bool b ∧ (b = true ↔ a.AllConstant t₀ j)

namespace Flagged

variable {a : Analysis} {t₀ t t' t'' : Tree} {V W : Nat → Prop} {i : Nat} {b : Bool}

theorem refl (a : Analysis) (t₀ t : Tree) : Flagged a t₀ (fun _ => False) t t :=
  ⟨rfl, fun _ _ => rfl, fun _ h => h.elim⟩

/-- A node that is flagged twice gets the same flag twice. -/
theorem trans (h : Flagged a t₀ V t t') (h' : Flagged a t₀ W t' t'') :
    Flagged a t₀ (fun j => V j ∨ W j) t t'' where
  unflag := h'.unflag.trans h.unflag
  outside j hj := by
    rw [h'.outside j fun hw => hj (.inr hw), h.outside j fun hv => hj (.inl hv)]
  inside j hj := by
    by_cases hw : W j
    · exact h'.inside j hw
    · rw [h'.outside j hw]
      exact h.inside j (hj.resolve_right hw)

theorem congr (h : Flagged a t₀ V t t') (hVW : ∀ j, V j ↔ W j) : Flagged a t₀ W t t' := by
  have : V = W := funext fun j => propext (hVW j)
  exact this ▸ h

theorem single {n : Node} (hn : t.node? i = some n) (hb : b = true ↔ a.AllConstant t₀ i) :
    Flagged a t₀ (fun j => j = i) t (t.modifyFlags i fun f => { f with constant := .bool b }) where
  unflag := Tree.unflag_modifyFlags ..
  outside j hj := by rw [Tree.flags_modifyFlags, if_neg fun h => hj h.1.symm]
  inside j hj := by
    subst hj
    exact ⟨b, by rw [Tree.flags_modifyFlags, if_pos ⟨rfl, by rw [hn]; rfl⟩], hb⟩

end Flagged

/-- A step flags what is exposed at its node, and says whether all of that is constant. -/
def FlagsAt (a : Analysis) (t₀ : Tree) (i : Nat) (x : AnalysisM Bool) : Prop :=
  ∀ t, t.unflag = t₀.unflag → Ensures x t fun b t' =>
    Flagged a t₀ (a.Exposed t₀ i) t t' ∧ (b = true ↔ a.AllConstant t₀ i)

theorem ensures_mapM_flagged {a : Analysis} {t₀ : Tree} {f : Nat → AnalysisM Bool} {cs : List Nat}
    (hf : ∀ c ∈ cs, FlagsAt a t₀ c (f c)) (t : Tree) (ht : t.unflag = t₀.unflag) :
    Ensures (cs.mapM f) t fun bs t' =>
      Flagged a t₀ (fun j => ∃ c ∈ cs, a.Exposed t₀ c j) t t' ∧
        (bs.all id = true ↔ ∀ c ∈ cs, a.AllConstant t₀ c) := by
  induction cs generalizing t with
  | nil => exact .pure ⟨(Flagged.refl a t₀ t).congr fun j => by simp, by simp⟩
  | cons c cs ih =>
    rw [List.mapM_cons]
    refine .bind ((hf c (List.mem_cons_self ..) t ht).mono fun b t' ⟨hflagged, hb⟩ => .bind ?_)
    have hrest := ih (fun c hc => hf c (List.mem_cons_of_mem _ hc)) t' (hflagged.unflag.trans ht)
    refine hrest.mono fun bs t'' ⟨hflagged', hbs⟩ => .pure ⟨?_, ?_⟩
    · exact (hflagged.trans hflagged').congr fun j => by simp
    · simp only [List.all_cons, id, Bool.and_eq_true, hb, hbs, List.forall_mem_cons]

theorem ensures_flagged (a : Analysis) (t₀ : Tree) (fuel i : Nat) :
    FlagsAt a t₀ i (a.markConstant fuel i) := by
  induction fuel generalizing i with
  | zero => exact fun _ _ => .throw
  | succ fuel ih =>
    intro t ht
    refine .bind (.nodeAt fun n hn => .bind ?_)
    have hnode₀ : (t₀.node? i).map Node.unflag = some n.unflag := by
      rw [Tree.node?_unflag_eq ht.symm, hn, Option.map_some]
    obtain ⟨n₀, hn₀, hnn⟩ := Option.map_eq_some_iff.mp hnode₀
    have hcontent : n₀.content = n.content := by rw [← Node.content_unflag, hnn, Node.content_unflag]
    have hspan : n₀.span = n.span := by rw [← Node.span_unflag, hnn, Node.span_unflag]
    have helement : t₀.element? i = n.element? := by
      rw [Tree.element?, hn₀, Option.bind_some, Node.element?, hcontent, Node.element?]
    -- The node itself is flagged at the end, when all below it has been.
    have hend {V : Nat → Prop} {t' : Tree} {b : Bool} (hbelow : Flagged a t₀ V t t')
        (hb : b = true ↔ a.AllConstant t₀ i) (hV : ∀ j, a.Exposed t₀ i j ↔ j = i ∨ V j) :
        Ensures (do
          modify fun t => t.modifyFlags i fun f => { f with constant := .bool b }
          return b) t' fun b t'' => Flagged a t₀ (a.Exposed t₀ i) t t'' ∧ (b = true ↔ a.AllConstant t₀ i) := by
      have hnode' : (t'.node? i).map Node.unflag = some n.unflag := by
        rw [Tree.node?_unflag_eq hbelow.unflag, hn, Option.map_some]
      obtain ⟨n', hn', -⟩ := Option.map_eq_some_iff.mp hnode'
      refine .bind (.modify (.pure ⟨?_, hb⟩))
      exact (hbelow.trans (.single hn' hb)).congr fun j => by rw [hV, or_comm]
    unfold constantBelow
    cases hc : n.content with
    | text _ | comment _ | expression _ _ =>
      have hnone : t₀.element? i = none := by rw [helement, Node.element?, hc]
      refine .pure (hend (.refl a t₀ t) ?_ fun j => by rw [exposed_of_none hnone, or_false])
      rw [allConstant_of_none hnone, isConstantAt, hn₀]
      simp only [hcontent, hc]
    | element e =>
      have he : t₀.element? i = some e := by rw [helement, Node.element?, hc]
      refine .bind (.lift_ok fun reserved hreserved => .bind (.get ?_))
      have htag := isReservedTag_of_check hreserved
      have hown : a.isConstant e n.span (t.ancestorElements i) reserved = a.isConstantAt t₀ i := by
        rw [isConstantAt, hn₀, Tree.ancestorElements_eq_of_unflag ht, ← hspan, ← htag]
        simp only [hcontent, hc]
      dsimp only
      rw [hown]
      split
      · next hopen =>
        rw [← htag] at hopen
        refine .bind ((ensures_mapM_flagged (fun c _ => ih c) t ht).mono fun bs t' hflagged => ?_)
        obtain ⟨hbelow, hbs⟩ := hflagged
        refine .pure (hend hbelow ?_ fun j => ?_)
        · rw [Bool.and_eq_true, hbs, allConstant_iff he]
          simp only [hopen, forall_const]
        · rw [exposed_iff he]
          simp only [hopen, true_and]
      · next hopen =>
        rw [← htag] at hopen
        refine .bind (.pure (.pure (hend (.refl a t₀ t) ?_ fun j => ?_)))
        · rw [allConstant_iff he]
          simp [hopen]
        · rw [exposed_iff he]
          simp [hopen]

/-! ## Coming to an end -/

/-- The step ends well. -/
def Succeeds {α : Type} (x : AnalysisM α) (t : Tree) : Prop :=
  ∃ a t', x.run t = .ok (a, t')

namespace Succeeds

variable {α β : Type} {x : AnalysisM α} {f : α → AnalysisM β} {t t₀ : Tree}

theorem pure (a : α) : Succeeds (pure a) t := ⟨a, t, rfl⟩

theorem get : Succeeds get t := ⟨t, t, rfl⟩

theorem modify (f : Tree → Tree) : Succeeds (modify f) t := ⟨(), f t, rfl⟩

theorem bind (hx : Succeeds x t) (hf : Ensures x t fun a t' => Succeeds (f a) t') :
    Succeeds (x >>= f) t := by
  obtain ⟨a, t', ha⟩ := hx
  obtain ⟨b, t'', hb⟩ := hf a t' ha
  refine ⟨b, t'', ?_⟩
  rw [StateT.run_bind, ha]
  exact hb

theorem nodeAt {i : Nat} (hi : i < t.size) : Succeeds (nodeAt i) t := by
  refine get.bind (.get ?_)
  rw [Tree.node?, Array.getElem?_eq_getElem hi]
  exact pure _

/-- Steps that end well on every tree with the same template, and keep it. -/
theorem mapM {xs : List Nat} {f : Nat → AnalysisM α}
    (hf : ∀ c ∈ xs, ∀ t, t.unflag = t₀.unflag → Succeeds (f c) t)
    (hkeep : ∀ c t, Ensures (f c) t fun _ t' => t'.unflag = t.unflag)
    (ht : t.unflag = t₀.unflag) : Succeeds (xs.mapM f) t := by
  induction xs generalizing t with
  | nil => exact pure []
  | cons c xs ih =>
    rw [List.mapM_cons]
    refine (hf c (List.mem_cons_self ..) t ht).bind ((hkeep c t).mono fun a t' ht' => ?_)
    have hrest := ih (fun c hc => hf c (List.mem_cons_of_mem _ hc)) (ht'.trans ht)
    exact hrest.bind fun as t'' _ => pure (a :: as)

theorem forM {xs : List Nat} {f : Nat → AnalysisM Unit}
    (hf : ∀ c ∈ xs, ∀ t, t.unflag = t₀.unflag → Succeeds (f c) t)
    (hkeep : ∀ c t, Ensures (f c) t fun _ t' => t'.unflag = t.unflag)
    (ht : t.unflag = t₀.unflag) :
    Succeeds (xs.forM f) t ∧ Ensures (xs.forM f) t fun _ t' => t'.unflag = t.unflag := by
  induction xs generalizing t with
  | nil => exact ⟨pure (), .pure rfl⟩
  | cons c xs ih =>
    have hrest {t' : Tree} (ht' : t'.unflag = t.unflag) :=
      ih (fun c hc => hf c (List.mem_cons_of_mem _ hc)) (ht'.trans ht)
    constructor
    · exact (hf c (List.mem_cons_self ..) t ht).bind ((hkeep c t).mono fun _ _ ht' => (hrest ht').1)
    · refine .bind ((hkeep c t).mono fun _ t' ht' => ?_)
      exact (hrest ht').2.mono fun _ _ ht'' => ht''.trans ht'

end Succeeds

end Analysis

namespace Tree

/-- Tags are text, and no chain comes back to its owner. -/
structure Analysable (t : Tree) : Prop where
  tag : ∀ {i e}, t.element? i = some e → ∃ s, e.tag = .string s
  block : ∀ {i e}, t.element? i = some e → i ∉ e.branchBlocks

theorem analysable_iff (t : Tree) : t.Analysable ↔ ∀ i < t.size, ∀ e ∈ (t.element? i).toList,
    (∃ s ∈ (match e.tag with | .string s => [s] | _ => []), e.tag = .string s) ∧ i ∉ e.branchBlocks := by
  simp only [Option.mem_toList]
  constructor
  · intro h i _ e he
    obtain ⟨s, hs⟩ := h.tag he
    exact ⟨⟨s, by rw [hs]; exact List.mem_singleton_self s, hs⟩, h.block he⟩
  · intro h
    refine ⟨fun {i e} he => ?_, fun {i e} he => (h i (lt_size_of_element? he) e he).2⟩
    obtain ⟨s, -, hs⟩ := (h i (lt_size_of_element? he) e he).1
    exact ⟨s, hs⟩

instance (t : Tree) : Decidable t.Analysable :=
  decidable_of_iff _ t.analysable_iff.symm

/-- What the analysis looks at below an element comes after it. -/
theorem Analysable.later {t : Tree} (h : t.Analysable) (hl : t.Linked) {i c : Nat} {e : Element}
    (he : t.element? i = some e) (hc : c ∈ e.children ++ e.branchBlocks) : i < c ∧ c < t.size := by
  rcases lists_of_visits ⟨e, he, hc⟩ with rfl | hchild | hblock
  · rcases List.mem_append.mp hc with hc | hc
    · obtain ⟨hlt, hsize, -⟩ := hl.below (k := .child) ⟨e, he, hc, nofun⟩
      exact ⟨hlt, hsize⟩
    · exact absurd hc (h.block he)
  · obtain ⟨hlt, hsize, -⟩ := hl.below hchild
    exact ⟨hlt, hsize⟩
  · obtain ⟨hlt, hsize, -⟩ := hl.below hblock
    exact ⟨hlt, hsize⟩

end Tree

namespace Analysis

section

variable {t₀ : Tree} (hl : t₀.Linked) (hok : t₀.Analysable)

include hl hok

theorem succeeds_markConstant (a : Analysis) (fuel i : Nat) (hi : i < t₀.size)
    (hfuel : t₀.size < fuel + i) (t : Tree) (ht : t.unflag = t₀.unflag) :
    Succeeds (a.markConstant fuel i) t := by
  induction fuel generalizing i t with
  | zero => omega
  | succ fuel ih =>
    have hsize : t.size = t₀.size := Tree.size_eq_of_unflag ht
    refine (Succeeds.nodeAt (hsize ▸ hi)).bind (.nodeAt fun n hn => ?_)
    have hbelow : Succeeds (a.constantBelow (a.markConstant fuel) i n) t := by
      unfold constantBelow
      cases hc : n.content with
      | text _ | comment _ | expression _ _ => exact .pure _
      | element e =>
        have he : t₀.element? i = some e := by
          rw [← Tree.element?_eq_of_unflag ht, Tree.element?, hn, Option.bind_some, Node.element?, hc]
        obtain ⟨s, hs⟩ := hok.tag he
        have hcheck : Tag.check a.reserved e.tag = .ok (a.reserved s) := by rw [hs]; rfl
        dsimp only
        rw [hcheck]
        refine .bind (.pure _) (.pure (.bind .get (.get ?_)))
        split
        · refine .bind (.mapM (fun c hc t ht => ?_) (fun c t => ?_) ht) fun _ _ _ => .pure _
          · obtain ⟨hlt, hcsize⟩ := hok.later hl he hc
            exact ih c hcsize (by omega) t ht
          · exact (ensures_markConstant a fuel c t).mono fun _ _ h => h.unflag
        · exact .bind (.pure _) fun _ _ _ => .pure _
    exact hbelow.bind fun b t' _ => .bind (.modify _) fun _ _ _ => .pure b

theorem succeeds_markRoots (fuel i : Nat) (inLoop : Bool) (hi : i < t₀.size)
    (hfuel : t₀.size < fuel + i) (t : Tree) (ht : t.unflag = t₀.unflag) :
    Succeeds (markRoots fuel i inLoop) t := by
  induction fuel generalizing i inLoop t with
  | zero => omega
  | succ fuel ih =>
    have hsize : t.size = t₀.size := Tree.size_eq_of_unflag ht
    refine (Succeeds.nodeAt (hsize ▸ hi)).bind (.nodeAt fun n hn => ?_)
    rcases hne : n.element? with _ | e
    · exact .pure ()
    · have he : t₀.element? i = some e := by
        rw [← Tree.element?_eq_of_unflag ht, Tree.element?, hn, Option.bind_some, hne]
      have hbelow (inLoop : Bool) (c : Nat) (hc : c ∈ e.children ++ e.branchBlocks) (t : Tree)
          (ht : t.unflag = t₀.unflag) : Succeeds (markRoots fuel c inLoop) t := by
        obtain ⟨hlt, hcsize⟩ := hok.later hl he hc
        exact ih c inLoop hcsize (by omega) t ht
      have hkeep (inLoop : Bool) (c : Nat) (t : Tree) :
          Ensures (markRoots fuel c inLoop) t fun _ t' => t'.unflag = t.unflag :=
        (ensures_sameConstants fuel c inLoop t).mono fun _ _ h => h.unflag
      -- What follows the flag of the loop succeeds on every tree with this template.
      have hrest {t : Tree} (ht : t.unflag = t₀.unflag) :
          Succeeds (markBelow fuel i inLoop e n.flags.constant.truthy) t := by
        refine .bind .get (.get ?_)
        split
        · exact .modify _
        · refine .bind (.modify _) (.modify ?_)
          have ht' := (Tree.unflag_modifyFlags t i fun f => { f with root := .bool false }).trans ht
          obtain ⟨hchildren, hafter⟩ := Succeeds.forM
            (fun c (hc : c ∈ e.children) => hbelow (inLoop || e.loops) c (List.mem_append_left _ hc)) (hkeep _) ht'
          refine hchildren.bind (hafter.mono fun _ t'' ht'' => ?_)
          exact (Succeeds.forM (fun c hc => hbelow inLoop c (List.mem_append_right _ hc)) (hkeep _)
            (ht''.trans ht')).1
      dsimp only
      split
      · exact .bind (.modify _) (.modify (hrest ((Tree.unflag_modifyFlags ..).trans ht)))
      · exact hrest ht

/-- The analysis of a linked tree comes to an end. -/
theorem analyse_ok (a : Analysis) (hroot : ∀ r, t₀.root = some r → r < t₀.size) :
    ∃ t₁ log, t₀.analyse a = .ok (t₁, log) := by
  unfold Tree.analyse
  rcases hr : t₀.root with _ | r
  · exact ⟨t₀, [], rfl⟩
  · have hlt := hroot r hr
    have hrun : Succeeds (a.run r) t₀ := by
      refine .bind .get (.get (.bind (succeeds_markConstant hl hok a _ r hlt (by omega) t₀ rfl) ?_))
      refine (ensures_markConstant a _ r t₀).mono fun _ t' ht' => ?_
      exact succeeds_markRoots hl hok _ r false hlt (by omega) t' ht'.unflag
    obtain ⟨u, t₁, h⟩ := hrun
    simp only [h]
    exact ⟨t₁, _, rfl⟩

end

/-! ## The meaning of the flag -/

/-- The flags of the first pass after both passes. -/
theorem constant_analyse {a : Analysis} {t t₁ : Tree} {r i : Nat} {log : List LogRecord}
    (h : t.analyse a = .ok (t₁, log)) (hr : t.root = some r) (hi : a.Exposed t r i) :
    (t₁.flags i).constant = .bool true ↔ a.AllConstant t i := by
  have hrun : Ensures (a.run r) t fun _ t₁ =>
      ∃ b, (t₁.flags i).constant = .bool b ∧ (b = true ↔ a.AllConstant t i) := by
    refine .bind (.get (.bind ((ensures_flagged a t _ r t rfl).mono fun _ t' ⟨hflagged, _⟩ => ?_)))
    refine (ensures_sameConstants _ r false t').mono fun _ t'' hsame => ?_
    rw [hsame.constant]
    exact hflagged.inside i hi
  unfold Tree.analyse at h
  rw [hr] at h
  rcases ha : (a.run r).run t with e | ⟨u, t'⟩ <;> simp only [ha] at h <;> cases h
  obtain ⟨b, hb, hall⟩ := hrun u t' ha
  rw [hb, ← hall, Json.bool.injEq]

/-- A node that never changes is no interpolation, and unless it is written verbatim, nothing is bound to it and
it is neither tested nor repeated. -/
def Still (t : Tree) (i : Nat) : Prop :=
  (∀ n, t.node? i = some n → ∀ code raw, n.content ≠ .expression code raw) ∧
    ∀ e, t.element? i = some e → e.pre.truthy = false →
      e.hasBindings.truthy = false ∧ e.tested = false ∧ e.loops = false

theorem still_of_isConstantAt {a : Analysis} {t : Tree} {i : Nat} (h : a.isConstantAt t i = true) :
    Still t i := by
  unfold isConstantAt at h
  refine ⟨fun n hn code raw hcode => ?_, fun e he hpre => ?_⟩
  · simp [hn, hcode] at h
  · obtain ⟨n, hn, hne⟩ := Option.bind_eq_some_iff.mp he
    have hc : n.content = .element e := by
      unfold Node.element? at hne
      split at hne
      · next e' he' => cases hne; exact he'
      · cases hne
    simp only [hn, hc, isConstant, hpre, Bool.false_or, Bool.and_eq_true, Bool.not_eq_true'] at h
    exact ⟨h.1.1.1.1.1.1, h.1.1.1.1.1.2, h.1.1.1.1.2⟩

/-- An analysis that ends well flags a node as constant exactly if all that is exposed at it never changes, and
the analysis of a linked tree ends well. -/
theorem constant_iff_exposed (a : Analysis) {t : Tree} (ht : t.Linked)
    (hroot : ∀ r, t.root = some r → r < t.size) :
    (t.Analysable → ∃ t₁ log, t.analyse a = .ok (t₁, log)) ∧
      ∀ t₁ log r i, t.analyse a = .ok (t₁, log) → t.root = some r → a.Exposed t r i →
        ((t₁.flags i).constant = .bool true ↔
          ∀ j, a.Exposed t i j → a.isConstantAt t j = true) ∧
        ((t₁.flags i).constant = .bool true → ∀ j, a.Exposed t i j → Still t j) := by
  refine ⟨fun hok => analyse_ok ht hok a hroot, fun t₁ log r i h hr hi => ?_⟩
  have hflag := constant_analyse h hr hi
  exact ⟨hflag, fun hconstant j hj => still_of_isConstantAt (hflag.mp hconstant j hj)⟩

/-- A paragraph that never changes, a list with a chain whose last block does, and a verbatim component. -/
def page : Json :=
  let name : Json := .object [("type", .int 2), ("expression", "_s(name)")]
  let paragraph : Json := .object [("tag", "p"), ("children", .array [.object [("tag", "b")]])]
  let other : Json := .object [("tag", "li"), ("else", .bool true), ("children", .array [name])]
  let item : Json := .object
    [("tag", "li"), ("pre", .bool true), ("ifConditions", .array
      [.object [("exp", "ok")], .object [("block", other)]])]
  let view : Json := .object [("tag", "my-view"), ("pre", .bool true), ("children", .array [name])]
  .object [("tag", "div"), ("children", .array
    [paragraph, .object [("tag", "ul"), ("children", .array [item])], view])]

/-- The list item is constant by itself, but its last block is not. The name in the component does not count. -/
theorem constant_iff_exposed_page : ∃ t t₁ log, (Tree.load page).1 = .ok t ∧
    t.analyse {} = .ok (t₁, log) ∧ ({} : Analysis).isConstantAt t 4 = true ∧
    ¬(∀ j, ({} : Analysis).Exposed t 4 j → ({} : Analysis).isConstantAt t j = true) ∧
    ({} : Analysis).isConstantAt t 8 = false ∧
    ∀ j, ({} : Analysis).Exposed t 7 j → ({} : Analysis).isConstantAt t j = true := by
  have h : ((Tree.load page).1.toOption.map fun t => decide (t.Analysable ∧ t.root = some 0 ∧ 0 < t.size ∧
      ((t.element? 0).map fun e => (e.tag, e.children)) = some (.string "div", [1, 3, 7]) ∧
      ((t.element? 3).map fun e => (e.tag, e.children)) = some (.string "ul", [4]) ∧
      ({} : Analysis).isConstantAt t 4 = true ∧ ({} : Analysis).isConstantAt t 8 = false ∧
      ((t.analyse {}).toOption.map fun p => ((p.1.flags 4).constant, (p.1.flags 7).constant)) =
        some (.bool false, .bool true))) = some true := by
    decide +kernel
  obtain ⟨t, hload, h⟩ := Option.map_eq_some_iff.mp h
  obtain ⟨hok, hroot, hsize, hdiv, hul, hitem, hname, hflags⟩ := of_decide_eq_true h
  have hsize : ∀ r, t.root = some r → r < t.size := by
    intro r hr
    obtain rfl : 0 = r := Option.some.inj (hroot.symm.trans hr)
    exact hsize
  obtain ⟨hends, hmeaning⟩ :=
    constant_iff_exposed {} (Tree.linked_load (ok_of_toOption hload)).1 hsize
  obtain ⟨t₁, log, ha⟩ := hends hok
  rw [ha, Except.toOption, Option.map_some, Option.some.injEq, Prod.mk.injEq] at hflags
  obtain ⟨div, hdiv, htag, hchildren⟩ : ∃ e, t.element? 0 = some e ∧ e.tag = "div" ∧ e.children = [1, 3, 7] := by
    simpa only [Option.map_eq_some_iff, Prod.mk.injEq] using hdiv
  obtain ⟨ul, hul, htag', hchildren'⟩ : ∃ e, t.element? 3 = some e ∧ e.tag = "ul" ∧ e.children = [4] := by
    simpa only [Option.map_eq_some_iff, Prod.mk.injEq] using hul
  have hexposes (c : Nat) (hc : c ∈ [1, 3, 7]) : ({} : Analysis).Exposes t 0 c :=
    ⟨div, hdiv, .inl (by rw [htag]; decide), .inl (hchildren ▸ hc)⟩
  have hlist : ({} : Analysis).Exposes t 3 4 :=
    ⟨ul, hul, .inl (by rw [htag']; decide), .inl (hchildren' ▸ List.mem_singleton_self 4)⟩
  have hfour := (hmeaning t₁ log 0 4 ha hroot (.tail (.single (hexposes 3 (by decide))) hlist)).1
  have hseven := (hmeaning t₁ log 0 7 ha hroot (.single (hexposes 7 (by decide)))).1
  refine ⟨t, t₁, log, ok_of_toOption hload, ha, hitem, fun hall => ?_, hname, hseven.mp hflags.2⟩
  have hconstant := hfour.mpr hall
  rw [hflags.1] at hconstant
  cases hconstant

end Analysis

end TemplateCompiler
