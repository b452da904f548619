import TemplateCompiler.Proofs.Analysis.Passes

/-!
# Analysing a tree again

Two runs of a pass over the same template do the same to each flag, whatever flags they started from: both
leave it as it was, or both write the same value (`Agree`). `Repeats` has a rule for each way of building an
action. The first pass reads no flags at all, and the second one only those that the first one writes, so that
analysing an analysed tree changes nothing (`analyse_again`).
-/

namespace TemplateCompiler

/-- The flags of a node by name. -/
inductive Flag where
  | constant
  | root
  | inLoop

def Flags.get (f : Flags) : Flag → Json
  | .constant => f.constant
  | .root => f.root
  | .inLoop => f.inLoop

theorem Flags.ext_get {f f' : Flags} (h : ∀ k, f.get k = f'.get k) : f = f' := by
  have hc : f.constant = f'.constant := h .constant
  have hr : f.root = f'.root := h .root
  have hl : f.inLoop = f'.inLoop := h .inLoop
  cases f; cases f'
  simp_all

namespace Tree

variable {t u : Tree}

theorem node?_unflag_eq (h : t.unflag = u.unflag) (i : Nat) :
    (t.node? i).map Node.unflag = (u.node? i).map Node.unflag := by
  rw [← node?_unflag, h, node?_unflag]

theorem size_eq_of_unflag (h : t.unflag = u.unflag) : t.size = u.size := by
  rw [← size_unflag, h, size_unflag]

/-- A tree is what it is without its flags, and its flags. -/
theorem ext_flags (h : t.unflag = u.unflag) (hf : ∀ i, t.flags i = u.flags i) : t = u := by
  refine ext_node? (by rw [← root_unflag, h, root_unflag]) fun i => ?_
  have hn := node?_unflag_eq h i
  have hi := hf i
  unfold flags at hi
  rcases ht : t.node? i with _ | n <;> rcases hu : u.node? i with _ | n' <;>
    simp only [ht, hu, Option.map_none, Option.map_some, reduceCtorEq, Option.some.injEq,
      Option.getD_some] at hn hi ⊢
  cases n; cases n'
  simp_all [Node.unflag]

end Tree

namespace Analysis

variable {α β : Type}

/-- What a run from `t` to `u` and one from `t'` to `u'` did to each flag: both left it as it was, or both
wrote the same. -/
def Agree (t t' u u' : Tree) : Prop :=
  ∀ j k, ((u.flags j).get k = (t.flags j).get k ∧ (u'.flags j).get k = (t'.flags j).get k) ∨
    (u.flags j).get k = (u'.flags j).get k

namespace Agree

variable {t t' u u' v v' : Tree}

theorem refl (t t' : Tree) : Agree t t' t t' := fun _ _ => .inl ⟨rfl, rfl⟩

theorem trans (h : Agree t t' u u') (h' : Agree u u' v v') : Agree t t' v v' := by
  intro j k
  rcases h' j k with ⟨hv, hv'⟩ | hv
  · rw [hv, hv']
    exact h j k
  · exact .inr hv

/-- If the second run starts where the first one ended, it ends there as well. -/
theorem eq_of_again (h : Agree t u u v) (hflags : v.unflag = u.unflag) : v = u := by
  refine Tree.ext_flags hflags fun j => Flags.ext_get fun k => ?_
  rcases h j k with ⟨-, hv⟩ | hv
  · exact hv
  · exact hv.symm

/-- Two runs that start with equal flags, or write what is not equal, end with equal flags. -/
theorem eq_flag {j : Nat} {k : Flag} (h : Agree t t' u u')
    (hstart : (u.flags j).get k = (t'.flags j).get k) : (u.flags j).get k = (u'.flags j).get k := by
  rcases h j k with ⟨-, hu'⟩ | hu
  · rw [hstart, hu']
  · exact hu

end Agree

/-- If `x` ends well, so does `y` from a related tree, and they do the same to all flags. -/
def Repeats (R : Tree → Tree → Prop) (x : AnalysisM α) (y : AnalysisM β) (Q : α → β → Prop) : Prop :=
  ∀ t t', R t t' → ∀ a u, x.run t = .ok (a, u) →
    ∃ b u', y.run t' = .ok (b, u') ∧ Q a b ∧ R u u' ∧ Agree t t' u u'

namespace Repeats

variable {γ δ : Type} {R : Tree → Tree → Prop} {Q : α → β → Prop} {S : γ → δ → Prop}
variable {x : AnalysisM α} {y : AnalysisM β} {f : α → AnalysisM γ} {h : β → AnalysisM δ}

theorem pure {a : α} {b : β} (hab : Q a b) : Repeats R (pure a) (pure b) Q := by
  intro t t' ht a' u ha
  cases ha
  exact ⟨b, t', rfl, hab, ht, .refl t t'⟩

theorem throw {e : Failure} : Repeats R (throw e : AnalysisM α) y Q := by
  intro t t' ht a u ha
  cases ha

theorem bind (hx : Repeats R x y Q) (hf : ∀ a b, Q a b → Repeats R (f a) (h b) S) :
    Repeats R (x >>= f) (y >>= h) S := by
  intro t t' ht c v hc
  rw [StateT.run_bind] at hc
  rcases hrun : x.run t with _ | ⟨a, u⟩
  · rw [hrun] at hc; cases hc
  · rw [hrun] at hc
    obtain ⟨b, u', hb, hab, hu, hagree⟩ := hx t t' ht a u hrun
    obtain ⟨d, v', hd, hcd, hv, hagree'⟩ := hf a b hab u u' hu c v hc
    refine ⟨d, v', ?_, hcd, hv, hagree.trans hagree'⟩
    rw [StateT.run_bind, hb]
    exact hd

theorem get : Repeats R get get R := by
  intro t t' ht a u ha
  cases ha
  exact ⟨t', t', rfl, ht, ht, .refl t t'⟩

theorem lift (r : Except Failure α) : Repeats R (liftM r) (liftM r) (fun a b => a = b) := by
  intro t t' ht a u ha
  cases r with
  | error e => cases ha
  | ok b => cases ha; exact ⟨a, t', rfl, rfl, ht, .refl t t'⟩

theorem mapM {xs : List γ} {f : γ → AnalysisM α} (hf : ∀ c, Repeats R (f c) (f c) (fun a b => a = b)) :
    Repeats R (xs.mapM f) (xs.mapM f) (fun a b => a = b) := by
  induction xs with
  | nil => exact pure rfl
  | cons c xs ih =>
    rw [List.mapM_cons]
    refine (hf c).bind fun a b hab => ih.bind fun as bs habs => pure ?_
    rw [hab, habs]

theorem forM {xs : List γ} {f : γ → AnalysisM Unit} (hf : ∀ c, Repeats R (f c) (f c) (fun _ _ => True)) :
    Repeats R (xs.forM f) (xs.forM f) (fun _ _ => True) := by
  induction xs with
  | nil => exact pure trivial
  | cons c xs ih => exact (hf c).bind fun _ _ _ => ih

/-- Writing flags of one node. -/
theorem write {i : Nat} {w : Flags → Flags} (hflags : ∀ {t t'}, R t t' → t'.unflag = t.unflag)
    (hw : ∀ k, (∀ f, (w f).get k = f.get k) ∨ ∀ f f', (w f).get k = (w f').get k)
    (hR : ∀ {t t'}, R t t' → R (t.modifyFlags i w) (t'.modifyFlags i w)) :
    Repeats R (modify fun t => t.modifyFlags i w) (modify fun t => t.modifyFlags i w)
      (fun _ _ => True) := by
  intro t t' ht a u ha
  cases ha
  refine ⟨(), _, rfl, trivial, hR ht, fun j k => ?_⟩
  have hnode : (t'.node? j).isSome = (t.node? j).isSome := by
    rw [← Option.isSome_map (f := Node.unflag), Tree.node?_unflag_eq (hflags ht), Option.isSome_map]
  rw [Tree.flags_modifyFlags, Tree.flags_modifyFlags, hnode]
  split
  · exact (hw k).imp (fun h => ⟨h _, h _⟩) fun h => h _ _
  · exact .inl ⟨rfl, rfl⟩

end Repeats

/-! ## The first pass -/

/-- The same template, with any flags. -/
def SameTemplate (t t' : Tree) : Prop :=
  t'.unflag = t.unflag

theorem repeats_nodeAt {R : Tree → Tree → Prop} {i : Nat} {Q : Node → Node → Prop}
    (h : ∀ {t t' n n'}, R t t' → t.node? i = some n → t'.node? i = some n' → Q n n')
    (hflags : ∀ {t t'}, R t t' → t'.unflag = t.unflag) : Repeats R (nodeAt i) (nodeAt i) Q := by
  intro t t' ht n u hn
  have hnodes := Tree.node?_unflag_eq (hflags ht) i
  unfold nodeAt at hn ⊢
  simp only [StateT.run_bind, StateT.run_get, pure_bind] at hn ⊢
  rcases ht₀ : t.node? i with _ | n₀ <;> rcases ht₁ : t'.node? i with _ | n₁ <;>
    simp only [ht₀, ht₁, Option.map_none, Option.map_some, reduceCtorEq] at hnodes hn ⊢
  · cases hn
  · cases hn
    exact ⟨n₁, t', rfl, h ht ht₀ ht₁, ht, .refl _ _⟩

theorem repeats_markConstant (a : Analysis) (fuel i : Nat) :
    Repeats SameTemplate (a.markConstant fuel i) (a.markConstant fuel i) (fun b b' => b = b') := by
  induction fuel generalizing i with
  | zero => exact .throw
  | succ fuel ih =>
    have hnode : Repeats SameTemplate (nodeAt i) (nodeAt i) fun n n' => n'.unflag = n.unflag :=
      repeats_nodeAt (fun {t t' n n'} ht hn hn' => by
        simpa [hn, hn'] using Tree.node?_unflag_eq ht i) fun ht => ht
    refine .bind hnode fun n n' hn => ?_
    have hcontent : n'.content = n.content := by rw [← Node.content_unflag, hn, Node.content_unflag]
    have hspan : n'.span = n.span := by rw [← Node.span_unflag, hn, Node.span_unflag]
    have hbelow : Repeats SameTemplate (a.constantBelow (a.markConstant fuel) i n)
        (a.constantBelow (a.markConstant fuel) i n') (fun b b' => b = b') := by
      unfold constantBelow
      rw [hcontent]
      cases n.content with
      | text _ | comment _ | expression _ _ => exact .pure rfl
      | element e =>
        refine .bind (.lift _) fun reserved reserved' hr => .bind .get fun t t' ht => ?_
        subst hr
        dsimp only
        rw [Tree.ancestorElements_eq_of_unflag ht, hspan]
        split
        · exact .bind (.mapM ih) fun bs bs' hbs => .pure (by rw [hbs])
        · exact .bind (.pure (Q := fun bs bs' => bs = bs') rfl) fun bs bs' hbs => .pure (by rw [hbs])
    refine .bind hbelow fun b b' hb => ?_
    subst hb
    refine .bind (.write (fun ht => ht) (fun k => ?_) fun {t t'} ht => ?_) fun _ _ _ => .pure rfl
    · cases k with
      | constant => exact .inr fun _ _ => rfl
      | root | inLoop => exact .inl fun _ => rfl
    · exact (Tree.unflag_modifyFlags ..).trans (ht.trans (Tree.unflag_modifyFlags ..).symm)

/-! ## The second pass -/

theorem SameConstants.modifyFlags {t t' : Tree} {i : Nat} {w : Flags → Flags}
    (h : SameConstants t t') (hw : ∀ f, (w f).constant = f.constant) :
    SameConstants (t.modifyFlags i w) (t'.modifyFlags i w) := by
  have hkeep (t : Tree) (j : Nat) : ((t.modifyFlags i w).flags j).constant = (t.flags j).constant := by
    rw [Tree.flags_modifyFlags]
    split
    · exact hw _
    · rfl
  refine ⟨?_, fun j => by rw [hkeep, hkeep, h.constant]⟩
  exact (Tree.unflag_modifyFlags ..).trans (h.unflag.trans (Tree.unflag_modifyFlags ..).symm)

theorem repeats_markRoots (fuel i : Nat) (inLoop : Bool) :
    Repeats SameConstants (markRoots fuel i inLoop) (markRoots fuel i inLoop) (fun _ _ => True) := by
  induction fuel generalizing i inLoop with
  | zero => exact .throw
  | succ fuel ih =>
    have hnode : Repeats SameConstants (nodeAt i) (nodeAt i) fun n n' =>
        n'.element? = n.element? ∧ n'.flags.constant = n.flags.constant := by
      refine repeats_nodeAt (fun {t t' n n'} ht hn hn' => ⟨?_, ?_⟩) SameConstants.unflag
      · have he := ht.element? i
        rwa [Tree.element?, hn', Tree.element?, hn] at he
      · have hc := ht.constant i
        rwa [Tree.flags, hn', Tree.flags, hn] at hc
    -- A write of the second pass fixes one flag and leaves the constants alone.
    have hroot (b : Bool) := Repeats.write (R := SameConstants) (i := i)
      (w := fun f => { f with root := .bool b }) SameConstants.unflag (fun k => by
        cases k with
        | root => exact .inr fun _ _ => rfl
        | constant | inLoop => exact .inl fun _ => rfl) fun ht => ht.modifyFlags fun _ => rfl
    have hloop := Repeats.write (R := SameConstants) (i := i)
      (w := fun f => { f with inLoop := .bool inLoop }) SameConstants.unflag (fun k => by
        cases k with
        | inLoop => exact .inr fun _ _ => rfl
        | constant | root => exact .inl fun _ => rfl) fun ht => ht.modifyFlags fun _ => rfl
    refine .bind hnode fun n n' hn => ?_
    obtain ⟨he, hc⟩ := hn
    rw [he]
    rcases n.element? with _ | e
    · exact .pure trivial
    · dsimp only
      rw [hc]
      have hrest : Repeats SameConstants (markBelow fuel i inLoop e n.flags.constant.truthy)
          (markBelow fuel i inLoop e n.flags.constant.truthy) (fun _ _ => True) := by
        refine .bind .get fun t t' ht => ?_
        rw [← isLoneText_unflag, ← isLoneText_unflag t', ht.unflag]
        split
        · exact hroot true
        · refine .bind (hroot false) fun _ _ _ => ?_
          exact .bind (.forM fun c => ih c _) fun _ _ _ => .forM fun c => ih c _
      split
      · exact .bind hloop fun _ _ _ => hrest
      · exact hrest

/-- The second pass writes neither to the template nor to the flags of the first pass. -/
theorem ensures_sameConstants (fuel i : Nat) (inLoop : Bool) (t : Tree) :
    Ensures (markRoots fuel i inLoop) t fun _ t' => SameConstants t t' := by
  have hmarks : Ensures (markRoots fuel i inLoop) t fun _ t' => Marks (fun _ _ => True) (Reached t i) t t' :=
    ensures_markRoots (fun _ _ _ _ _ _ _ => trivial) (fun _ _ _ _ _ _ _ => trivial) fuel i inLoop t (.refl t)
      trivial
  exact hmarks.mono fun _ _ h => h.toSameConstants

/-! ## Both passes -/

theorem run_again {a : Analysis} {t t₁ : Tree} {r : Nat} {u : Unit} (h : (a.run r).run t = .ok (u, t₁)) :
    (a.run r).run t₁ = .ok (u, t₁) := by
  have hsteps (t : Tree) : (a.run r).run t = (do
      let p ← (a.markConstant (t.size + 1) r).run t
      (markRoots (t.size + 1) r false).run p.2) := rfl
  rw [hsteps] at h
  rcases hfirst : (a.markConstant (t.size + 1) r).run t with _ | ⟨b, u₁⟩ <;> rw [hfirst] at h
  · cases h
  have hsecond : (markRoots (t.size + 1) r false).run u₁ = .ok (u, t₁) := h
  have hu₁ : SameConstants u₁ t₁ := ensures_sameConstants _ r false u₁ u t₁ hsecond
  have ht₁ : SameTemplate t t₁ :=
    hu₁.unflag.trans (ensures_markConstant a _ r t b u₁ hfirst).unflag
  obtain ⟨b', u₂, hfirst', -, hu₂, hagree⟩ := repeats_markConstant a _ r t t₁ ht₁ b u₁ hfirst
  -- The first pass wrote the same constants over those that it had left.
  have hconstants : SameConstants u₁ u₂ :=
    ⟨hu₂, fun j => (hagree.eq_flag (k := .constant) (hu₁.constant j).symm).symm⟩
  obtain ⟨v, t₂, hsecond', -, ht₂, hagree'⟩ := repeats_markRoots _ r false u₁ u₂ hconstants u t₁ hsecond
  rw [hsteps, Tree.size_eq_of_unflag ht₁, hfirst']
  refine Eq.trans hsecond' ?_
  rw [(hagree.trans hagree').eq_of_again ht₂.unflag]

theorem unflag_analyse {a : Analysis} {t t₁ : Tree} {log : List LogRecord}
    (h : t.analyse a = .ok (t₁, log)) : t₁.unflag = t.unflag := by
  rcases hr : t.root with _ | r
  · unfold Tree.analyse at h
    rw [hr] at h
    cases h
    rfl
  · exact (analysed_any h hr).unflag

/-- An analysed tree stays as it is if it is analysed again. -/
theorem analyse_again {a : Analysis} {t t₁ : Tree} {log : List LogRecord}
    (h : t.analyse a = .ok (t₁, log)) : t₁.analyse a = .ok (t₁, log) := by
  have hroot : t₁.root = t.root := by
    rw [← Tree.root_unflag, unflag_analyse h, Tree.root_unflag]
  unfold Tree.analyse at h ⊢
  rw [hroot]
  rcases hr : t.root with _ | r <;> rw [hr] at h
  · cases h
    rfl
  · rcases hrun : (a.run r).run t with _ | ⟨u, t'⟩ <;> simp only [hrun] at h <;> cases h
    simp only [run_again hrun]
    rfl

end Analysis

end TemplateCompiler
