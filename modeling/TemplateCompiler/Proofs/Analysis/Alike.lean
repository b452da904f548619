import TemplateCompiler.Proofs.Analysis.Constants
import TemplateCompiler.Proofs.Generator.Alike

/-!
# Flags on entry

The analysis is run on trees that may have flags already. It overwrites most of them without a look. Those that
it leaves as they were are `Stale`: constants behind a component, which the first pass does not see but the second
one reads, and what neither pass writes. Two trees with the same template whose stale flags mean the same are
analysed alike (`analyse_alike`). For the second pass, `Settles R W x y` says that `x` and `y` do the same from
related trees, and that the flags `W` mean the same from then on. What stale flags there are, a second run finds them
as the first one did, and changes nothing (`analyse_idempotent`).
-/

namespace TemplateCompiler.Analysis

variable {α β γ δ : Type}

/-- The flags `D` mean the same in both trees. -/
def Agreed (D : Nat → Flag → Prop) (t u : Tree) : Prop :=
  ∀ j k, D j k → ((t.flags j).get k).truthy = ((u.flags j).get k).truthy

/-- If `x` ends well, so does `y` from a related tree. Flags that meant the same still do, and so do the
flags `W`. -/
def Settles (R : Tree → Tree → Prop) (W : Nat → Flag → Prop) (x : AnalysisM α) (y : AnalysisM β)
    (Q : α → β → Prop) : Prop :=
  ∀ D t u, R t u → Agreed D t u → ∀ a t', x.run t = .ok (a, t') →
    ∃ b u', y.run u = .ok (b, u') ∧ Q a b ∧ R t' u' ∧ Agreed (fun j k => D j k ∨ W j k) t' u'

namespace Settles

variable {R : Tree → Tree → Prop} {W W' : Nat → Flag → Prop} {Q : α → β → Prop} {S : γ → δ → Prop}
variable {x : AnalysisM α} {y : AnalysisM β} {f : α → AnalysisM γ} {h : β → AnalysisM δ}

theorem weaken (hx : Settles R W x y Q) (hW : ∀ j k, W' j k → W j k) : Settles R W' x y Q := by
  intro D t u ht hD a t' ha
  obtain ⟨b, u', hb, hab, ht', hD'⟩ := hx D t u ht hD a t' ha
  exact ⟨b, u', hb, hab, ht', fun j k hjk => hD' j k (hjk.imp_right (hW j k))⟩

theorem pure {a : α} {b : β} (hab : Q a b) : Settles R (fun _ _ => False) (pure a) (pure b) Q := by
  intro D t u ht hD a' t' ha
  cases ha
  exact ⟨b, u, rfl, hab, ht, fun j k hjk => hD j k (hjk.resolve_right id)⟩

theorem throw {e : Failure} : Settles R W (throw e : AnalysisM α) y Q := by
  intro D t u ht hD a t' ha
  cases ha

theorem bind (hx : Settles R W x y Q) (hf : ∀ a b, Q a b → Settles R W' (f a) (h b) S) :
    Settles R (fun j k => W j k ∨ W' j k) (x >>= f) (y >>= h) S := by
  intro D t u ht hD c t'' hc
  rw [StateT.run_bind] at hc
  rcases hrun : x.run t with _ | ⟨a, t'⟩
  · rw [hrun] at hc; cases hc
  · rw [hrun] at hc
    obtain ⟨b, u', hb, hab, ht', hD'⟩ := hx D t u ht hD a t' hrun
    obtain ⟨d, u'', hd, hcd, ht'', hD''⟩ := hf a b hab _ t' u' ht' hD' c t'' hc
    refine ⟨d, u'', ?_, hcd, ht'', fun j k hjk => hD'' j k (or_assoc.mpr hjk)⟩
    rw [StateT.run_bind, hb]
    exact hd

/-- A step that writes nothing. -/
theorem read (hx : Settles R (fun _ _ => False) x y Q) (hf : ∀ a b, Q a b → Settles R W (f a) (h b) S) :
    Settles R W (x >>= f) (y >>= h) S :=
  (hx.bind hf).weaken fun _ _ => .inr

theorem get : Settles R (fun _ _ => False) get get R := by
  intro D t u ht hD a t' ha
  cases ha
  exact ⟨u, u, rfl, ht, ht, fun j k hjk => hD j k (hjk.resolve_right id)⟩

theorem forM {xs : List γ} {f h : γ → AnalysisM Unit} {W : γ → Nat → Flag → Prop}
    (hf : ∀ c ∈ xs, Settles R (W c) (f c) (h c) fun _ _ => True) :
    Settles R (fun j k => ∃ c ∈ xs, W c j k) (xs.forM f) (xs.forM h) fun _ _ => True := by
  induction xs with
  | nil => exact (pure trivial).weaken fun _ _ => by simp
  | cons c xs ih =>
    obtain ⟨hc, hxs⟩ := List.forall_mem_cons.mp hf
    exact (hc.bind fun _ _ _ => ih hxs).weaken fun j k => by simp

/-- Writing one flag of a node. -/
theorem write {i : Nat} {k : Flag} {v : Json} {w : Flags → Flags} (hw : ∀ f, (w f).get k = v)
    (hother : ∀ f k', k' ≠ k → (w f).get k' = f.get k') (hflags : ∀ {t u}, R t u → t.unflag = u.unflag)
    (hR : ∀ {t u}, R t u → R (t.modifyFlags i w) (u.modifyFlags i w)) :
    Settles R (fun j k' => j = i ∧ k' = k) (modify fun t => t.modifyFlags i w)
      (modify fun t => t.modifyFlags i w) fun _ _ => True := by
  intro D t u ht hD a t' ha
  cases ha
  refine ⟨(), _, rfl, trivial, hR ht, fun j k' hjk => ?_⟩
  have hnode : (u.node? j).isSome = (t.node? j).isSome := by
    rw [← Option.isSome_map (f := Node.unflag), ← Tree.node?_unflag_eq (hflags ht), Option.isSome_map]
  rw [Tree.flags_modifyFlags, Tree.flags_modifyFlags, hnode]
  split
  · by_cases hk : k' = k
    · rw [hk, hw, hw]
    · rw [hother _ _ hk, hother _ _ hk]
      exact hD j k' (hjk.resolve_right fun h => hk h.2)
  · rename_i hout
    rcases hjk with hjk | ⟨rfl, -⟩
    · exact hD j k' hjk
    · -- There is no such node on either side.
      have hnone (t : Tree) (h : (t.node? j).isSome = false) : t.flags j = {} := by
        rw [Option.isSome_eq_false_iff, Option.isNone_iff_eq_none] at h
        rw [Tree.flags, h]
        rfl
      have hmissing : (t.node? j).isSome = false := by simpa using hout
      rw [hnone t hmissing, hnone u (hnode.trans hmissing)]

end Settles

/-! ## The second pass -/

/-- The flags that the second pass writes if it reaches a node. -/
def Written (t : Tree) (j : Nat) (k : Flag) : Prop :=
  ∃ e, t.element? j = some e ∧
    (k = .root ∨ k = .inLoop ∧ ((t.flags j).constant.truthy || e.once.truthy) = true)

theorem SameConstants.write {t₁ t : Tree} (h : SameConstants t₁ t) {i : Nat} {w : Flags → Flags}
    (hw : ∀ f, (w f).constant = f.constant) : SameConstants t₁ (t.modifyFlags i w) := by
  refine h.trans ⟨Tree.unflag_modifyFlags .., fun j => ?_⟩
  rw [Tree.flags_modifyFlags]
  split
  · exact hw _
  · rfl

/-- What the second pass makes of `t₁` and of `u₁`. -/
def Marking (t₁ u₁ t u : Tree) : Prop :=
  SameConstants t₁ t ∧ SameConstants u₁ u

section

variable {t₁ u₁ : Tree} {r i : Nat} {e : Element} (hsame : t₁.unflag = u₁.unflag)

include hsame

theorem Marking.unflag_eq {t u : Tree} (h : Marking t₁ u₁ t u) : t.unflag = u.unflag := by
  rw [h.1.unflag, h.2.unflag, hsame]

theorem Marking.isLoneText {t u : Tree} (h : Marking t₁ u₁ t u) (children : List Nat) :
    isLoneText t children = isLoneText t₁ children ∧ isLoneText u children = isLoneText t₁ children := by
  constructor
  · rw [← isLoneText_unflag, h.1.unflag, isLoneText_unflag]
  · rw [← isLoneText_unflag, h.2.unflag, ← hsame, isLoneText_unflag]

theorem settles_nodeAt (i : Nat) : Settles (Marking t₁ u₁) (fun _ _ => False) (nodeAt i) (nodeAt i) fun n n' =>
    (n.element? = t₁.element? i ∧ n.flags.constant = (t₁.flags i).constant) ∧
      n'.element? = t₁.element? i ∧ n'.flags.constant = (u₁.flags i).constant := by
  refine .read .get fun t u h => ?_
  have hmap := Tree.node?_unflag_eq (h.unflag_eq hsame) i
  rcases hn : t.node? i with _ | n <;> rcases hn' : u.node? i with _ | n' <;>
    simp only [hn, hn', Option.map_none, Option.map_some, reduceCtorEq] at hmap
  · exact .throw
  · refine .pure ⟨⟨?_, ?_⟩, ?_, ?_⟩
    · rw [← h.1.element?, Tree.element?, hn, Option.bind_some]
    · rw [← h.1.constant, Tree.flags, hn]; rfl
    · rw [Tree.element?_eq_of_unflag hsame, ← h.2.element?, Tree.element?, hn', Option.bind_some]
    · rw [← h.2.constant, Tree.flags, hn']; rfl

theorem settles_root (i : Nat) (b : Bool) :
    Settles (Marking t₁ u₁) (fun j k => j = i ∧ k = .root)
      (modify fun t => t.modifyFlags i fun f => { f with root := .bool b })
      (modify fun t => t.modifyFlags i fun f => { f with root := .bool b }) fun _ _ => True := by
  refine .write (v := .bool b) (fun _ => rfl) (fun _ k hk => ?_) (·.unflag_eq hsame)
    fun h => ⟨h.1.write fun _ => rfl, h.2.write fun _ => rfl⟩
  cases k with
  | root => exact absurd rfl hk
  | constant | inLoop => rfl

theorem settles_inLoop (i : Nat) (b : Bool) :
    Settles (Marking t₁ u₁) (fun j k => j = i ∧ k = .inLoop)
      (modify fun t => t.modifyFlags i fun f => { f with inLoop := .bool b })
      (modify fun t => t.modifyFlags i fun f => { f with inLoop := .bool b }) fun _ _ => True := by
  refine .write (v := .bool b) (fun _ => rfl) (fun _ k hk => ?_) (·.unflag_eq hsame)
    fun h => ⟨h.1.write fun _ => rfl, h.2.write fun _ => rfl⟩
  cases k with
  | inLoop => exact absurd rfl hk
  | constant | root => rfl

/-- Behind the answer for the element itself. -/
theorem settles_markBelow {fuel : Nat} (inLoop : Bool) (he : t₁.element? i = some e)
    (ih : ∀ c, Enters t₁ i c → ∀ b, Settles (Marking t₁ u₁) (fun j k => Reached t₁ c j ∧ Written t₁ j k)
      (markRoots fuel c b) (markRoots fuel c b) fun _ _ => True) :
    Settles (Marking t₁ u₁) (fun j k => (j = i ∧ k = .root) ∨ j ≠ i ∧ Reached t₁ i j ∧ Written t₁ j k)
      (markBelow fuel i inLoop e (t₁.flags i).constant.truthy)
      (markBelow fuel i inLoop e (t₁.flags i).constant.truthy) fun _ _ => True := by
  refine .read .get fun t u h => ?_
  rw [(h.isLoneText hsame e.children).1, (h.isLoneText hsame e.children).2]
  show Settles _ _ (if isRoot t₁ i e then _ else _) (if isRoot t₁ i e then _ else _) _
  split
  · rename_i hr
    refine (settles_root hsame i true).weaken fun j k hjk => ?_
    rcases hjk with hjk | ⟨hne, hj, -⟩
    · exact hjk
    · rw [reached_iff he, hr] at hj
      exact absurd (hj.resolve_right fun h => nomatch h.1) hne
  · rename_i hr
    rw [Bool.not_eq_true] at hr
    have hchildren (b : Bool) := Settles.forM fun c hc => ih c ⟨e, he, hr, List.mem_append_left _ hc⟩ b
    have hblocks (b : Bool) := Settles.forM fun c hc => ih c ⟨e, he, hr, List.mem_append_right _ hc⟩ b
    refine ((settles_root hsame i false).bind fun _ _ _ =>
      (hchildren _).bind fun _ _ _ => hblocks _).weaken fun j k hjk => ?_
    rcases hjk with hjk | ⟨hne, hj, hw⟩
    · exact .inl hjk
    · rw [reached_iff he] at hj
      rcases (hj.resolve_left hne).2 with ⟨c, hc, hcj⟩ | ⟨c, hc, hcj⟩
      · exact .inr (.inl ⟨c, hc, hcj, hw⟩)
      · exact .inr (.inr ⟨c, hc, hcj, hw⟩)

/-- The constants have to mean the same where the second pass reads them. -/
theorem settles_markRoots
    (hconstant : ∀ {j e}, Reached t₁ r j → t₁.element? j = some e →
      (t₁.flags j).constant.truthy = (u₁.flags j).constant.truthy)
    (fuel i : Nat) (hi : Reached t₁ r i) (inLoop : Bool) :
    Settles (Marking t₁ u₁) (fun j k => Reached t₁ i j ∧ Written t₁ j k)
      (markRoots fuel i inLoop) (markRoots fuel i inLoop) fun _ _ => True := by
  induction fuel generalizing i inLoop with
  | zero => exact .throw
  | succ fuel ih =>
    refine .read (settles_nodeAt hsame i) fun n n' ⟨⟨hn, hc⟩, hn', hc'⟩ => ?_
    rw [hn, hn']
    rcases he : t₁.element? i with _ | e
    · refine (Settles.pure trivial).weaken fun j k ⟨hj, e, hje, _⟩ => ?_
      rw [reached_of_none he hj, he] at hje
      cases hje
    dsimp only
    rw [hc, hc', ← hconstant hi he]
    have hrest := settles_markBelow hsame inLoop he fun c hc => ih c (hi.tail hc)
    split
    · refine ((settles_inLoop hsame i inLoop).bind fun _ _ _ => hrest).weaken fun j k ⟨hj, hw⟩ => ?_
      by_cases hji : j = i
      · obtain ⟨e', -, hk | ⟨hk, -⟩⟩ := hw
        · exact .inr (.inl ⟨hji, hk⟩)
        · exact .inl ⟨hji, hk⟩
      · exact .inr (.inr ⟨hji, hj, hw⟩)
    · rename_i hmarked
      refine hrest.weaken fun j k ⟨hj, hw⟩ => ?_
      by_cases hji : j = i
      · subst hji
        obtain ⟨e', he', hk | ⟨-, hmarked'⟩⟩ := hw
        · exact .inl ⟨rfl, hk⟩
        · obtain rfl : e = e' := Option.some.inj (he.symm.trans he')
          exact absurd hmarked' hmarked
      · exact .inr ⟨hji, hj, hw⟩

end

/-! ## Both passes -/

/-- The flags of element `e` at `j` that the analysis of `t` from `r`, which gives `t₁`, leaves as they were and that
are read later: a constant behind a component, where the second pass looks and the first one does not; the other two
where the second pass does not look; and the answer about loops where nothing asks for it. -/
def Stale (a : Analysis) (t t₁ : Tree) (r j : Nat) (e : Element) : Flag → Prop
  | .constant => Reached t₁ r j ∧ ¬a.Exposed t r j
  | .root => ¬Reached t₁ r j
  | .inLoop => ¬(Reached t₁ r j ∧ ((t₁.flags j).constant.truthy || e.once.truthy) = true)

/-- What the first pass leaves means the same where both trees agreed, and wherever it wrote. -/
theorem constant_alike {a : Analysis} {t u t' u' : Tree} {r fuel : Nat} {b b' : Bool}
    (hu : t.unflag = u.unflag) (ht : (a.markConstant fuel r).run t = .ok (b, t'))
    (hu' : (a.markConstant fuel r).run u = .ok (b', u')) (j : Nat)
    (h : ¬a.Exposed t r j → (t.flags j).constant.truthy = (u.flags j).constant.truthy) :
    (t'.flags j).constant.truthy = (u'.flags j).constant.truthy := by
  obtain ⟨hflagged, -⟩ := ensures_flagged a t fuel r t rfl b t' ht
  obtain ⟨hflagged', -⟩ := ensures_flagged a t fuel r u hu.symm b' u' hu'
  by_cases hj : a.Exposed t r j
  · obtain ⟨c, hc, hiff⟩ := hflagged.inside j hj
    obtain ⟨c', hc', hiff'⟩ := hflagged'.inside j hj
    rw [hc, hc', Bool.eq_iff_iff.mpr (hiff.trans hiff'.symm)]
  · rw [hflagged.outside j hj, hflagged'.outside j hj]
    exact h hj

/-- After the second pass the flags mean the same that did before it, and those that it wrote. -/
theorem markRoots_alike {t u t' : Tree} {r fuel : Nat} {inLoop : Bool} {x : Unit} (hsame : t.unflag = u.unflag)
    (hconstant : ∀ {j e}, Reached t r j → t.element? j = some e →
      (t.flags j).constant.truthy = (u.flags j).constant.truthy)
    (h : (markRoots fuel r inLoop).run t = .ok (x, t')) :
    ∃ u', (markRoots fuel r inLoop).run u = .ok (x, u') ∧ t'.unflag = u'.unflag ∧
      ∀ {j k}, ((t.flags j).get k).truthy = ((u.flags j).get k).truthy ∨ Reached t r j ∧ Written t j k →
        ((t'.flags j).get k).truthy = ((u'.flags j).get k).truthy := by
  obtain ⟨_, u', hu', -, hmarking, hagreed⟩ := settles_markRoots hsame hconstant fuel r .refl inLoop
    (fun j k => ((t.flags j).get k).truthy = ((u.flags j).get k).truthy) t u ⟨.refl t, .refl u⟩ (fun _ _ => id) x t' h
  exact ⟨u', hu', hmarking.unflag_eq hsame, fun {j k} hjk => hagreed j k hjk⟩

theorem run_alike {a : Analysis} {t u t₁ : Tree} {r : Nat} {x : Unit} (hu : t.unflag = u.unflag)
    (h : (a.run r).run t = .ok (x, t₁))
    (hstale : ∀ {j e k}, t.element? j = some e → a.Stale t t₁ r j e k →
      ((t.flags j).get k).truthy = ((u.flags j).get k).truthy) :
    ∃ u₁, (a.run r).run u = .ok (x, u₁) ∧ t₁.Alike (fun j => (t.element? j).isSome) u₁ := by
  have hsteps (t : Tree) : (a.run r).run t = (do
      let p ← (a.markConstant (t.size + 1) r).run t
      (markRoots (t.size + 1) r false).run p.2) := rfl
  rw [hsteps] at h
  rcases hfirst : (a.markConstant (t.size + 1) r).run t with _ | ⟨b, t'⟩ <;> rw [hfirst] at h
  · cases h
  have hsecond : (markRoots (t.size + 1) r false).run t' = .ok (x, t₁) := h
  obtain ⟨b', u', hfirst', -, hsame, -⟩ := repeats_markConstant a _ r t u hu.symm b t' hfirst
  have hmarks : SameConstants t' t₁ := ensures_sameConstants _ r false t' x t₁ hsecond
  have hroots := ensures_markConstant a _ r t b t' hfirst
  have hroots' := ensures_markConstant a _ r u b' u' hfirst'
  have helement (j : Nat) : t'.element? j = t.element? j := Tree.element?_eq_of_unflag hroots.unflag j
  have hconstant {j : Nat} {e : Element} (hj : Reached t' r j) (he : t'.element? j = some e) :
      (t'.flags j).constant.truthy = (u'.flags j).constant.truthy :=
    constant_alike hu hfirst hfirst' j fun hexposed =>
      hstale (k := .constant) (helement j ▸ he) ⟨(hmarks.reached r j).mpr hj, hexposed⟩
  obtain ⟨u₁, hsecond', hunflag, hflag⟩ := markRoots_alike hsame.symm hconstant hsecond
  refine ⟨u₁, ?_, hunflag, fun {j e} he => ?_, fun {j} hj => ?_, fun {j} hj => ?_⟩
  · rw [hsteps, ← Tree.size_eq_of_unflag hu, hfirst']
    exact hsecond'
  · rw [← helement, ← hmarks.element?, he]
    rfl
  · obtain ⟨e, he⟩ := Option.isSome_iff_exists.mp hj
    refine hflag (k := .root) ?_
    by_cases hr : Reached t' r j
    · exact .inr ⟨hr, e, (helement j).trans he, .inl rfl⟩
    · rw [Flags.get, Flags.get, hroots.root, hroots'.root]
      exact .inl (hstale (k := .root) he fun h => hr ((hmarks.reached r j).mp h))
  · obtain ⟨e, he⟩ := Option.isSome_iff_exists.mp hj
    refine hflag (k := .inLoop) ?_
    by_cases hw : Reached t' r j ∧ ((t'.flags j).constant.truthy || e.once.truthy) = true
    · exact .inr ⟨hw.1, e, (helement j).trans he, .inr ⟨rfl, hw.2⟩⟩
    · rw [Flags.get, Flags.get, hroots.inLoop, hroots'.inLoop]
      refine .inl (hstale (k := .inLoop) he fun h => hw ⟨(hmarks.reached r j).mp h.1, ?_⟩)
      rw [← hmarks.constant]
      exact h.2

/-- Alike trees are analysed alike. -/
theorem analyse_alike {a : Analysis} {t u t₁ : Tree} {r : Nat} {log : List LogRecord}
    (hu : t.unflag = u.unflag) (hr : t.root = some r) (h : t.analyse a = .ok (t₁, log))
    (hstale : ∀ {j e k}, t.element? j = some e → a.Stale t t₁ r j e k →
      ((t.flags j).get k).truthy = ((u.flags j).get k).truthy) :
    ∃ u₁ log', u.analyse a = .ok (u₁, log') ∧ t₁.Alike (fun j => (t.element? j).isSome) u₁ := by
  have hru : u.root = some r := by rw [← Tree.root_unflag, ← hu, Tree.root_unflag, hr]
  unfold Tree.analyse at h ⊢
  rw [hr] at h
  rw [hru]
  rcases hrun : (a.run r).run t with _ | ⟨x, t'⟩ <;> simp only [hrun] at h <;> cases h
  obtain ⟨u₁, hrun', halike⟩ := run_alike hu hrun hstale
  refine ⟨u₁, [.staticRoots u₁.rootCount], ?_, halike⟩
  simp only [hrun']
  rfl

/-! ## A second run -/

/-- A tree in good order, with whatever flags, can be analysed if its tags are text and no chain comes back to its
owner; and what an analysis left is left as it is by a second one. -/
theorem analyse_idempotent (a : Analysis) {t : Tree} (ht : t.WellFormed)
    (hroot : ∀ r, t.root = some r → r < t.size) :
    (t.Analysable → ∃ t₁ log, t.analyse a = .ok (t₁, log)) ∧
      ∀ t₁ log, t.analyse a = .ok (t₁, log) →
        ∃ t₂ log', t₁.analyse a = .ok (t₂, log') ∧ log' = log ∧ t₂.unflag = t.unflag ∧
          ∀ i, t₂.flags i = t₁.flags i := by
  refine ⟨fun hok => analyse_ok ht.linked hok a hroot, fun t₁ log h => ?_⟩
  exact ⟨t₁, log, analyse_again h, rfl, unflag_analyse h, fun _ => rfl⟩

/-- A paragraph that is said to stand in a loop, and one behind a component that is said to be constant. -/
def annotated : Json :=
  let bold : Json := .object [("tag", "b")]
  let paragraph : Json := .object [("tag", "p"), ("staticInFor", .bool true), ("children", .array [bold])]
  let hidden : Json := .object [("tag", "p"), ("static", .bool true), ("children", .array [bold])]
  .object [("tag", "div"), ("children", .array
    [paragraph, .object [("tag", "my-badge"), ("children", .array [hidden])]])]

/-- The first run corrects the one flag and keeps to the other, which makes a static root; the second run changes
nothing. -/
theorem analyse_idempotent_annotated : ∃ t t₁ t₂ log log', (Tree.load annotated).1 = .ok t ∧
    t.analyse {} = .ok (t₁, log) ∧ (t.flags 1).inLoop = .bool true ∧ (t₁.flags 1).inLoop = .bool false ∧
    (t₁.flags 4).root = .bool true ∧ t₁.analyse {} = .ok (t₂, log') ∧ ∀ i, t₂.flags i = t₁.flags i := by
  have h : ((Tree.load annotated).1.toOption.map fun t => decide (t.Analysable ∧ t.root = some 0 ∧ 0 < t.size ∧
      (t.flags 1).inLoop = .bool true ∧
      ((t.analyse {}).toOption.map fun p => ((p.1.flags 1).inLoop, (p.1.flags 4).root)) =
        some (.bool false, .bool true))) = some true := by
    decide +kernel
  obtain ⟨t, hload, h⟩ := Option.map_eq_some_iff.mp h
  obtain ⟨hok, hroot, hsize, hloop, hflags⟩ := of_decide_eq_true h
  have hsize : ∀ r, t.root = some r → r < t.size := by
    intro r hr
    obtain rfl : 0 = r := Option.some.inj (hroot.symm.trans hr)
    exact hsize
  obtain ⟨hends, hagain⟩ :=
    analyse_idempotent {} (Tree.wellFormed_load (ok_of_toOption hload)) hsize
  obtain ⟨t₁, log, ha⟩ := hends hok
  obtain ⟨t₂, log', ha', -, -, hsame⟩ := hagain t₁ log ha
  rw [ha, Except.toOption, Option.map_some, Option.some.injEq, Prod.mk.injEq] at hflags
  exact ⟨t, t₁, t₂, log, log', ok_of_toOption hload, ha, hloop, hflags.1, hflags.2, ha', hsame⟩

end TemplateCompiler.Analysis
