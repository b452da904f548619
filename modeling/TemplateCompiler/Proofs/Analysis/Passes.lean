import TemplateCompiler.Analysis
import TemplateCompiler.Proofs.Tree.Regions

/-!
# What the analysis writes

`Ensures x t Q` says what holds if `x` ends well from `t`. Neither pass changes anything but flags. The
first one leaves the flags of the second alone (`ensures_markConstant`); the second one writes only to
the nodes that it reaches, down to the static roots (`Enters`), says of each element there whether it is a
static root (`isRoot`), and tells it whether it stands in a loop only if the element is constant or rendered
once (`ensures_markRoots`). What is passed down as the answer about loops is left open: `Passed` is any
relation that is kept along the links. Whatever becomes a static root of a tree without flags was visited
(`visits_of_root`).
-/

namespace TemplateCompiler.Analysis

variable {α β : Type}

/-- What holds of the result and the tree if `x` ends well from `t`. -/
def Ensures (x : AnalysisM α) (t : Tree) (Q : α → Tree → Prop) : Prop :=
  ∀ a t', x.run t = .ok (a, t') → Q a t'

namespace Ensures

variable {x : AnalysisM α} {f : α → AnalysisM β} {t : Tree} {Q : β → Tree → Prop}

theorem pure {b : β} (h : Q b t) : Ensures (pure b) t Q := by
  intro a t' ha
  cases ha
  exact h

theorem throw {e : Failure} : Ensures (throw e) t Q := by
  intro a t' ha
  cases ha

theorem bind (h : Ensures x t fun a t' => Ensures (f a) t' Q) : Ensures (x >>= f) t Q := by
  intro b t'' hb
  rw [StateT.run_bind] at hb
  rcases hx : x.run t with _ | ⟨a, t'⟩
  · rw [hx] at hb; cases hb
  · rw [hx] at hb; exact h a t' hx b t'' hb

theorem mono {P : α → Tree → Prop} {P' : α → Tree → Prop} (hx : Ensures x t P)
    (h : ∀ a t', P a t' → P' a t') : Ensures x t P' :=
  fun a t' ha => h a t' (hx a t' ha)

theorem get {Q : Tree → Tree → Prop} (h : Q t t) : Ensures get t Q := by
  intro a t' ha
  cases ha
  exact h

theorem modify {f : Tree → Tree} {Q : Unit → Tree → Prop} (h : Q () (f t)) :
    Ensures (modify f) t Q := by
  intro a t' ha
  cases ha
  exact h

theorem lift {r : Except Failure α} {Q : α → Tree → Prop} (h : ∀ a, Q a t) :
    Ensures (liftM r) t Q := by
  intro a t' ha
  cases r with
  | error e => cases ha
  | ok b => cases ha; exact h a

theorem nodeAt {i : Nat} {Q : Node → Tree → Prop} (h : ∀ n, t.node? i = some n → Q n t) :
    Ensures (nodeAt i) t Q := by
  refine bind (get ?_)
  rcases hn : t.node? i with _ | n
  · exact throw
  · exact pure (h n hn)

/-- A relation between trees that each step of a list keeps. -/
theorem mapM {R : Tree → Tree → Prop} (hrefl : ∀ t, R t t)
    (htrans : ∀ {t t' t''}, R t t' → R t' t'' → R t t'') {f : Nat → AnalysisM α} {xs : List Nat}
    (h : ∀ c t, Ensures (f c) t fun _ t' => R t t') (t : Tree) :
    Ensures (xs.mapM f) t fun _ t' => R t t' := by
  induction xs generalizing t with
  | nil => exact pure (hrefl t)
  | cons c xs ih =>
    rw [List.mapM_cons]
    refine bind ((h c t).mono fun a t' ht => bind ((ih t').mono fun as t'' ht' => ?_))
    exact pure (htrans ht ht')

end Ensures

/-! ## The first pass -/

/-- The flags that the first pass writes are the only change. -/
structure SameRoots (t t' : Tree) : Prop where
  unflag : t'.unflag = t.unflag
  root : ∀ j, (t'.flags j).root = (t.flags j).root
  inLoop : ∀ j, (t'.flags j).inLoop = (t.flags j).inLoop

theorem SameRoots.refl (t : Tree) : SameRoots t t := ⟨rfl, fun _ => rfl, fun _ => rfl⟩

theorem SameRoots.trans {t t' t'' : Tree} (h : SameRoots t t') (h' : SameRoots t' t'') :
    SameRoots t t'' :=
  ⟨h'.unflag.trans h.unflag, fun j => (h'.root j).trans (h.root j),
    fun j => (h'.inLoop j).trans (h.inLoop j)⟩

theorem SameRoots.modifyFlags (t : Tree) (i : Nat) (constant : Json) :
    SameRoots t (t.modifyFlags i fun f => { f with constant := constant }) := by
  refine ⟨Tree.unflag_modifyFlags .., fun j => ?_, fun j => ?_⟩
  · rw [Tree.flags_modifyFlags]; split <;> rfl
  · rw [Tree.flags_modifyFlags]; split <;> rfl

theorem ensures_markConstant (a : Analysis) (fuel i : Nat) (t : Tree) :
    Ensures (a.markConstant fuel i) t fun _ t' => SameRoots t t' := by
  induction fuel generalizing i t with
  | zero => exact .throw
  | succ fuel ih =>
    refine .bind (.nodeAt fun n hn => .bind ?_)
    have hbelow : Ensures (a.constantBelow (a.markConstant fuel) i n) t fun _ t' => SameRoots t t' := by
      unfold constantBelow
      cases n.content with
      | text _ | comment _ | expression _ _ => exact .pure (.refl t)
      | element e =>
        refine .bind (.lift fun reserved => .bind (.get ?_))
        dsimp only
        split
        · exact .bind ((Ensures.mapM SameRoots.refl SameRoots.trans ih t).mono fun _ _ ht => .pure ht)
        · exact .bind (.pure (.pure (.refl t)))
    refine hbelow.mono fun constant t' ht => .bind (.modify ?_)
    exact .pure (ht.trans (.modifyFlags t' i _))

/-! ## The second pass -/

/-- Whether the second pass makes an element a static root and stops there. -/
def isRoot (t : Tree) (i : Nat) (e : Element) : Bool :=
  (t.flags i).constant.truthy && !e.children.isEmpty && !isLoneText t e.children

/-- The links that the second pass follows. -/
def Enters (t : Tree) (i j : Nat) : Prop :=
  ∃ e, t.element? i = some e ∧ isRoot t i e = false ∧ j ∈ e.children ++ e.branchBlocks

/-- The nodes that the second pass reaches from `i`. -/
def Reached (t : Tree) (i j : Nat) : Prop :=
  Relation.ReflTransGen (Enters t) i j

/-- A tree that the second pass may make of `t`. -/
structure SameConstants (t t' : Tree) : Prop where
  unflag : t'.unflag = t.unflag
  constant : ∀ j, (t'.flags j).constant = (t.flags j).constant

theorem isLoneText_unflag (t : Tree) (children : List Nat) :
    isLoneText t.unflag children = isLoneText t children := by
  unfold isLoneText
  split
  · rw [Tree.node?_unflag]
    rcases t.node? _ with _ | n <;> rfl
  · rfl

namespace SameConstants

variable {t t' t'' : Tree}

theorem refl (t : Tree) : SameConstants t t := ⟨rfl, fun _ => rfl⟩

theorem trans (h : SameConstants t t') (h' : SameConstants t' t'') : SameConstants t t'' :=
  ⟨h'.unflag.trans h.unflag, fun j => (h'.constant j).trans (h.constant j)⟩

theorem element? (h : SameConstants t t') (i : Nat) : t'.element? i = t.element? i :=
  Tree.element?_eq_of_unflag h.unflag i

theorem isRoot (h : SameConstants t t') (i : Nat) (e : Element) : isRoot t' i e = isRoot t i e := by
  unfold Analysis.isRoot
  rw [h.constant, ← isLoneText_unflag, h.unflag, isLoneText_unflag]

theorem reached (h : SameConstants t t') (i j : Nat) : Reached t' i j ↔ Reached t i j := by
  have henters : Enters t' = Enters t := by
    funext i j
    simp only [Enters, h.element?, h.isRoot]
  rw [Reached, henters, Reached]

end SameConstants

/-- The second pass wrote to the nodes `V` what was passed to them. -/
structure Marks (Passed : Nat → Bool → Prop) (V : Nat → Prop) (t t' : Tree) : Prop
    extends SameConstants t t' where
  outside : ∀ j, ¬V j → t'.flags j = t.flags j
  inside : ∀ j e, V j → t.element? j = some e → ∃ b, Passed j b ∧ (t'.flags j).inLoop =
    if (t.flags j).constant.truthy || e.once.truthy then .bool b else (t.flags j).inLoop
  roots : ∀ j e, V j → t.element? j = some e → (t'.flags j).root = .bool (isRoot t j e)

namespace Marks

variable {Passed : Nat → Bool → Prop} {V W : Nat → Prop} {t t' t'' : Tree}

theorem refl (t : Tree) : Marks Passed (fun _ => False) t t :=
  { SameConstants.refl t with
    outside := fun _ _ => rfl
    inside := fun _ _ h => h.elim
    roots := fun _ _ h => h.elim }

/-- What was written twice holds what was written last. -/
theorem trans (h : Marks Passed V t t') (h' : Marks Passed W t' t'') :
    Marks Passed (fun j => V j ∨ W j) t t'' where
  toSameConstants := h.toSameConstants.trans h'.toSameConstants
  outside j hj := by
    rw [h'.outside j fun hw => hj (.inr hw), h.outside j fun hv => hj (.inl hv)]
  inside j e hj he := by
    by_cases hw : W j
    · obtain ⟨b, hb, hin⟩ := h'.inside j e hw (by rw [h.element?, he])
      refine ⟨b, hb, ?_⟩
      rw [hin, h.constant]
      by_cases hv : V j
      · obtain ⟨b', -, hin'⟩ := h.inside j e hv he
        rw [hin']
        split <;> rfl
      · rw [h.outside j hv]
    · obtain ⟨b, hb, hin⟩ := h.inside j e (hj.resolve_right hw) he
      exact ⟨b, hb, by rw [h'.outside j hw, hin]⟩
  roots j e hj he := by
    by_cases hw : W j
    · rw [h'.roots j e hw (by rw [h.element?, he]), h.toSameConstants.isRoot]
    · rw [h'.outside j hw, h.roots j e (hj.resolve_right hw) he]

theorem congr (h : Marks Passed V t t') (hVW : ∀ j, V j ↔ W j) : Marks Passed W t t' := by
  have : V = W := funext fun j => propext (hVW j)
  exact this ▸ h

/-- Writing to a single element. -/
theorem single {i : Nat} {n : Node} {e : Element} {b : Bool} (hn : t.node? i = some n)
    (he : t.element? i = some e) (hb : Passed i b) (f : Flags → Flags)
    (hc : ∀ flags, (f flags).constant = flags.constant)
    (hl : (f (t.flags i)).inLoop =
      if (t.flags i).constant.truthy || e.once.truthy then .bool b else (t.flags i).inLoop)
    (hroot : (f (t.flags i)).root = .bool (isRoot t i e)) :
    Marks Passed (fun j => j = i) t (t.modifyFlags i f) where
  unflag := Tree.unflag_modifyFlags ..
  constant j := by
    rw [Tree.flags_modifyFlags]
    split
    · exact hc _
    · rfl
  outside j hj := by
    rw [Tree.flags_modifyFlags, if_neg fun h => hj h.1.symm]
  inside j e' hj he' := by
    subst hj
    obtain rfl : e = e' := Option.some.inj (he.symm.trans he')
    exact ⟨b, hb, by rw [Tree.flags_modifyFlags, if_pos ⟨rfl, by rw [hn]; rfl⟩, hl]⟩
  roots j e' hj he' := by
    subst hj
    obtain rfl : e = e' := Option.some.inj (he.symm.trans he')
    rw [Tree.flags_modifyFlags, if_pos ⟨rfl, by rw [hn]; rfl⟩, hroot]

end Marks

theorem ensures_forM {Passed : Nat → Bool → Prop} {t₀ : Tree} {f : Nat → AnalysisM Unit}
    {cs : List Nat} (hf : ∀ c ∈ cs, ∀ t, SameConstants t₀ t →
      Ensures (f c) t fun _ t' => Marks Passed (Reached t₀ c) t t')
    (t : Tree) (ht : SameConstants t₀ t) :
    Ensures (cs.forM f) t fun _ t' => Marks Passed (fun j => ∃ c ∈ cs, Reached t₀ c j) t t' := by
  induction cs generalizing t with
  | nil => exact .pure ((Marks.refl t).congr fun j => by simp)
  | cons c cs ih =>
    refine .bind ((hf c (List.mem_cons_self ..) t ht).mono fun _ t' hc => ?_)
    have hrest := ih (fun c hc => hf c (List.mem_cons_of_mem _ hc)) t' (ht.trans hc.toSameConstants)
    exact hrest.mono fun _ t'' hcs => (hc.trans hcs).congr fun j => by simp

/-- What an element reaches is itself and, unless it is a static root, what is reached below it. -/
theorem reached_iff {t : Tree} {i : Nat} {e : Element} (he : t.element? i = some e) (j : Nat) :
    Reached t i j ↔ j = i ∨
      isRoot t i e = false ∧ ((∃ c ∈ e.children, Reached t c j) ∨ ∃ c ∈ e.branchBlocks, Reached t c j) := by
  constructor
  · intro h
    rcases Relation.ReflTransGen.cases_head h with rfl | ⟨c, ⟨e', he', hr, hc⟩, hcj⟩
    · exact .inl rfl
    · obtain rfl : e = e' := Option.some.inj (he.symm.trans he')
      rcases List.mem_append.mp hc with hc | hc
      · exact .inr ⟨hr, .inl ⟨c, hc, hcj⟩⟩
      · exact .inr ⟨hr, .inr ⟨c, hc, hcj⟩⟩
  · rintro (rfl | ⟨hr, ⟨c, hc, hcj⟩ | ⟨c, hc, hcj⟩⟩)
    · exact .refl
    · exact .head ⟨e, he, hr, List.mem_append_left _ hc⟩ hcj
    · exact .head ⟨e, he, hr, List.mem_append_right _ hc⟩ hcj

theorem reached_of_none {t : Tree} {i j : Nat} (hi : t.element? i = none) (h : Reached t i j) :
    j = i := by
  rcases Relation.ReflTransGen.cases_head h with rfl | ⟨c, ⟨e, he, -⟩, -⟩
  · rfl
  · rw [hi] at he; cases he

/-- The second pass at an element, behind the answer for the element itself. -/
def markBelow (fuel i : Nat) (inLoop : Bool) (e : Element) (constant : Bool) : AnalysisM Unit := do
  if constant && !e.children.isEmpty && !isLoneText (← get) e.children then
    modify fun t => t.modifyFlags i fun f => { f with root := .bool true }
  else
    modify fun t => t.modifyFlags i fun f => { f with root := .bool false }
    e.children.forM fun c => markRoots fuel c (inLoop || e.loops)
    e.branchBlocks.forM fun b => markRoots fuel b inLoop

section Roots

variable {Passed : Nat → Bool → Prop} {t₀ : Tree}
variable (hchild : ∀ i e b c, t₀.element? i = some e → Passed i b → c ∈ e.children →
  Passed c (b || e.loops))
variable (hblock : ∀ i e b c, t₀.element? i = some e → Passed i b → c ∈ e.branchBlocks → Passed c b)

include hchild hblock in
/-- The answer for the element itself made `t₁` of `t`. -/
theorem ensures_markBelow {fuel i : Nat} {b : Bool} {t t₁ : Tree} {e : Element} {constant : Bool}
    (ih : ∀ i b t, SameConstants t₀ t → Passed i b →
      Ensures (markRoots fuel i b) t fun _ t' => Marks Passed (Reached t₀ i) t t')
    (ht : SameConstants t₀ t) (ht₁ : SameConstants t t₁) (he : t.element? i = some e) (hb : Passed i b)
    (hc : (t.flags i).constant.truthy = constant)
    (hmark : Marks Passed (fun j => j = i) t
      (t₁.modifyFlags i fun f => { f with root := .bool (isRoot t i e) })) :
    Ensures (markBelow fuel i b e constant) t₁ fun _ t' => Marks Passed (Reached t₀ i) t t' := by
  have he₀ : t₀.element? i = some e := by rw [← ht.element?, he]
  have hroot : (constant && !e.children.isEmpty && !isLoneText t₁ e.children) = isRoot t₀ i e := by
    rw [← (ht.trans ht₁).isRoot, isRoot, ht₁.constant, hc]
  refine .bind (.get ?_)
  rw [ht.isRoot] at hmark
  rw [hroot]
  split
  · next hr =>
    rw [hr] at hmark
    exact .modify (hmark.congr fun j => by rw [reached_iff he₀]; simp [hr])
  · next hr =>
    rw [Bool.not_eq_true] at hr
    rw [hr] at hmark
    refine .bind (.modify (.bind ?_))
    have hchildren := ensures_forM (fun c hc t ht => ih c (b || e.loops) t ht (hchild i e b c he₀ hb hc))
      _ (ht.trans hmark.toSameConstants)
    refine hchildren.mono fun _ t₃ h₃ => ?_
    have hblocks := ensures_forM (fun c hc t ht => ih c b t ht (hblock i e b c he₀ hb hc))
      t₃ ((ht.trans hmark.toSameConstants).trans h₃.toSameConstants)
    refine hblocks.mono fun _ t₄ h₄ => ((hmark.trans h₃).trans h₄).congr fun j => ?_
    rw [reached_iff he₀]
    simp [hr, or_assoc]

include hchild hblock in
theorem ensures_markRoots (fuel i : Nat) (b : Bool) (t : Tree) (ht : SameConstants t₀ t)
    (hb : Passed i b) :
    Ensures (markRoots fuel i b) t fun _ t' => Marks Passed (Reached t₀ i) t t' := by
  induction fuel generalizing i b t with
  | zero => exact .throw
  | succ fuel ih =>
    refine .bind (.nodeAt fun n hn => ?_)
    rcases hne : n.element? with _ | e
    · have hi : t.element? i = none := by rw [Tree.element?, hn, Option.bind_some, hne]
      have hnone {j : Nat} {e : Element} (hj : Reached t₀ i j) : t.element? j ≠ some e := by
        rw [reached_of_none (by rw [← ht.element?, hi]) hj, hi]
        exact (Option.some_ne_none e).symm
      exact .pure { SameConstants.refl t with
        outside := fun _ _ => rfl
        inside := fun _ _ hj he => absurd he (hnone hj)
        roots := fun _ _ hj he => absurd he (hnone hj) }
    · have he : t.element? i = some e := by rw [Tree.element?, hn, Option.bind_some, hne]
      have hflags : n.flags = t.flags i := by rw [Tree.flags, hn]; rfl
      dsimp only
      rw [hflags]
      split
      · next hcond =>
        refine .bind (.modify (ensures_markBelow hchild hblock ih ht ⟨Tree.unflag_modifyFlags .., ?_⟩ he hb rfl
          ?_))
        · intro j
          rw [Tree.flags_modifyFlags]
          split <;> rfl
        · rw [Tree.modifyFlags_modifyFlags]
          exact .single hn he hb _ (fun _ => rfl) (by rw [if_pos hcond]) rfl
      · next hcond =>
        refine ensures_markBelow hchild hblock ih ht (.refl t) he hb rfl ?_
        exact .single hn he hb _ (fun _ => rfl) (by rw [if_neg hcond]) rfl

end Roots

/-! ## Both passes -/

/-- What the analysis made of a tree with root `r`. -/
structure Analysed (Passed : Nat → Bool → Prop) (t : Tree) (r : Nat) (t' : Tree) : Prop where
  unflag : t'.unflag = t.unflag
  root : ∀ j, ¬Reached t' r j → (t'.flags j).root = (t.flags j).root
  outside : ∀ j, ¬Reached t' r j → (t'.flags j).inLoop = (t.flags j).inLoop
  inside : ∀ j e, Reached t' r j → t.element? j = some e → ∃ b, Passed j b ∧ (t'.flags j).inLoop =
    if (t'.flags j).constant.truthy || e.once.truthy then .bool b else (t.flags j).inLoop
  roots : ∀ j e, Reached t' r j → t.element? j = some e → (t'.flags j).root = .bool (isRoot t' j e)

theorem analysed {Passed : Nat → Bool → Prop} {a : Analysis} {t t' : Tree} {r : Nat}
    {log : List LogRecord} (h : t.analyse a = .ok (t', log)) (hr : t.root = some r)
    (hroot : Passed r false)
    (hchild : ∀ i e b c, t.element? i = some e → Passed i b → c ∈ e.children → Passed c (b || e.loops))
    (hblock : ∀ i e b c, t.element? i = some e → Passed i b → c ∈ e.branchBlocks → Passed c b) :
    Analysed Passed t r t' := by
  have hrun : Ensures (a.run r) t fun _ t' => Analysed Passed t r t' := by
    refine .bind (.get (.bind ?_))
    refine (ensures_markConstant a _ r t).mono fun _ t₁ h₁ => ?_
    have he := Tree.element?_eq_of_unflag h₁.unflag
    have hmarks : Ensures (markRoots (t.size + 1) r false) t₁ fun _ t₂ =>
        Marks Passed (Reached t₁ r) t₁ t₂ :=
      ensures_markRoots (fun i e b c h => hchild i e b c (by rw [← he, h]))
        (fun i e b c h => hblock i e b c (by rw [← he, h])) _ r false t₁ (.refl t₁) hroot
    refine hmarks.mono fun _ t₂ h₂ => ?_
    refine ⟨h₂.unflag.trans h₁.unflag, fun j hj => ?_, fun j hj => ?_, fun j e hj hje => ?_,
      fun j e hj hje => ?_⟩
    · rw [h₂.outside j fun h => hj ((h₂.reached r j).mpr h), h₁.root]
    · rw [h₂.outside j fun h => hj ((h₂.reached r j).mpr h), h₁.inLoop]
    · obtain ⟨b, hb, hin⟩ := h₂.inside j e ((h₂.reached r j).mp hj) (by rw [he, hje])
      exact ⟨b, hb, by rw [hin, h₂.constant, h₁.inLoop]⟩
    · rw [h₂.roots j e ((h₂.reached r j).mp hj) (by rw [he, hje]), h₂.toSameConstants.isRoot]
  unfold Tree.analyse at h
  rw [hr] at h
  rcases ha : (a.run r).run t with e | ⟨u, t₁⟩
  · simp only [ha] at h; cases h
  · simp only [ha] at h
    cases h
    exact hrun u t₁ ha

section Visits

variable {Passed : Nat → Bool → Prop} {a : Analysis} {t t' : Tree} {r j : Nat} {log : List LogRecord}

/-- What the second pass reaches is visited. -/
theorem Analysed.visits (h : Analysed Passed t r t') (hj : Reached t' r j) :
    Relation.ReflTransGen t.Visits r j := by
  refine Relation.ReflTransGen.mono (fun i k ⟨e, he, _, hk⟩ => ⟨e, ?_, hk⟩) _ _ hj
  rw [← Tree.element?_eq_of_unflag h.unflag, he]

theorem analysed_any (h : t.analyse a = .ok (t', log)) (hr : t.root = some r) :
    Analysed (fun _ _ => True) t r t' :=
  analysed h hr trivial (fun _ _ _ _ _ _ _ => trivial) fun _ _ _ _ _ _ _ => trivial

/-- The static roots of a tree that had no flags were visited by the analysis. -/
theorem visits_of_root (ht : t.unflag = t) (h : t.analyse a = .ok (t', log)) (hr : t.root = some r)
    (hj : (t'.flags j).root.truthy = true) : Relation.ReflTransGen t.Visits r j := by
  have han := analysed_any h hr
  by_cases hreached : Reached t' r j
  · exact han.visits hreached
  · rw [han.root j hreached, ← ht, Tree.flags_unflag] at hj
    cases hj

end Visits

end TemplateCompiler.Analysis
