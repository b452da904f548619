import TemplateCompiler.Proofs.Generator.Once

/-!
# What the generator reads off a tree besides bindings

Plugins change bindings while code is generated, so an emitter may be given any tree `u` with `t.Rebound u`. Its
questions about the tree have the same answer there as in `t`: whether an element is verbatim, how far children have
to be flattened, and when a component has to update.
-/

namespace TemplateCompiler

open Generator

/-- A function of lists of elements that does not look at bindings. -/
theorem eq_of_map_unbound {α : Type} {f : List Element → α} (hf : ∀ es, f (es.map Element.unbound) = f es)
    {es es' : List Element} (h : es.map Element.unbound = es'.map Element.unbound) : f es = f es' := by
  rw [← hf es, h, hf es']

theorem Options.anyM_unbound (o : Options) (es : List Element) :
    (es.map Element.unbound).anyM o.maybeComponent = es.anyM o.maybeComponent := by
  induction es with
  | nil => rfl
  | cons e es ih =>
    rw [List.map_cons, List.anyM, List.anyM, ih]
    rfl

/-- Nodes that are alike apart from bindings are both elements, or hold the same. -/
theorem Node.content_of_unbound {n n₀ : Node} (h : n.unbound = n₀.unbound) :
    (∃ e e₀, n.content = .element e ∧ n₀.content = .element e₀) ∨
      n.content = n₀.content ∧ ∀ e, n₀.content ≠ .element e := by
  have hcontent : n.unbound.content = n₀.unbound.content := by rw [h]
  unfold Node.unbound Node.mapElement at hcontent
  rcases hn : n.content with e | _ | _ | _ <;> rcases hn₀ : n₀.content with e₀ | _ | _ | _ <;>
    simp_all

namespace Tree.Rebound

variable {t u : Tree} {i : Nat} {e : Element}

/-- Changing nothing but bindings. -/
theorem modifyElement (h : t.Rebound u) {f : Element → Element}
    (hf : ∀ e, u.element? i = some e → (f e).unbound = e.unbound) : t.Rebound (u.modifyElement i f) := by
  refine ⟨(size_modifyElement ..).trans h.1, fun j => ?_⟩
  rw [← h.2 j, Tree.modifyElement, node?_modifyNode]
  split
  · next hij =>
    subst hij
    rcases hn : u.node? i with _ | n
    · rfl
    · have hn' (e : Element) (hc : n.content = .element e) : (f e).unbound = e.unbound :=
        hf e (by rw [Tree.element?, hn, Option.bind_some, Node.element?, hc])
      simp only [Option.map_some, Option.some.injEq, Node.unbound, Node.mapElement]
      cases hc : n.content with
      | element e => simp only [hn' e hc]
      | text | expression | comment => simp only [hc]
  · rfl

/-- What can be read off an element without its bindings. -/
theorem element?_eq (h : t.Rebound u) (he : u.element? i = some e) :
    ∃ e₀, t.element? i = some e₀ ∧ e₀.unbound = e.unbound := by
  have hi := h.element? i
  rw [he, Option.map_some] at hi
  exact Option.map_eq_some_iff.mp hi.symm

variable (h : t.Rebound u)

include h

theorem element?_any {p : Element → Bool} (hp : ∀ e, p e.unbound = p e) (i : Nat) :
    (u.element? i).any p = (t.element? i).any p := by
  have hi := congrArg (Option.any p) (h.element? i)
  simpa only [Option.any_map, Function.comp_def, hp] using hi

theorem query (fuel i : Nat) (memo : Memo) : Memo.query u fuel i memo = Memo.query t fuel i memo := by
  induction fuel generalizing i memo with
  | zero => rfl
  | succ fuel ih =>
    unfold Memo.query
    simp only [h.element?_any (p := fun e => e.pre.truthy) (fun _ => rfl), h.parent?, ih]

theorem hasOutlet (i : Nat) : u.hasOutlet i = t.hasOutlet i := by
  have hany (t : Tree) (fuel i : Nat) : t.hasOutletWithin (fuel + 1) i =
      (t.element? i).any fun e => e.hasTag "slot" || e.children.any (t.hasOutletWithin fuel) := by
    rw [hasOutletWithin]
    cases t.element? i <;> rfl
  have hwithin (fuel : Nat) : u.hasOutletWithin fuel = t.hasOutletWithin fuel := by
    induction fuel with
    | zero => rfl
    | succ fuel ih =>
      funext i
      rw [hany, hany, ih]
      exact h.element?_any (fun _ => rfl) i
  rw [Tree.hasOutlet, Tree.hasOutlet, h.1, hwithin]

theorem isUnstable (i : Nat) : Generator.isUnstable u i = Generator.isUnstable t i := by
  have hany (t : Tree) : Generator.isUnstable t i = (t.element? i).any fun e =>
      e.slotTargetDynamic.truthy || e.tested || e.loops || t.hasOutlet i := by
    rw [Generator.isUnstable]
    cases t.element? i <;> rfl
  rw [hany, hany, h.hasOutlet]
  exact h.element?_any (fun _ => rfl) i

theorem updateHint (i : Nat) (e : Element) : Generator.updateHint u i e = Generator.updateHint t i e := by
  have habove (es : List Element) (keyed : Bool) : hintAbove (es.map Element.unbound) keyed = hintAbove es keyed := by
    induction es generalizing keyed with
    | nil => rfl
    | cons e es ih =>
      rw [List.map_cons, hintAbove, hintAbove, ih]
      rfl
  have hunstable : Generator.isUnstable u = Generator.isUnstable t := funext h.isUnstable
  rw [Generator.updateHint, Generator.updateHint, hunstable,
    eq_of_map_unbound (f := (hintAbove · e.tested)) (habove · _) (h.ancestorElements i)]

theorem arms {e₀ : Element} (heq : e₀.unbound = e.unbound) :
    (Generator.arms u e).map Element.unbound = (Generator.arms t e₀).map Element.unbound := by
  have hconditions : e₀.conditions = e.conditions := (congrArg Element.conditions heq :)
  rw [Generator.arms, Generator.arms, List.map_cons, List.map_cons, List.map_filterMap, List.map_filterMap, heq,
    hconditions]
  simp only [h.element?]

/-- The level of a list of children, for the same tags that are no components. -/
theorem flatteningLevel {o : Options} (o' : Options) (ho : o.reserved = o'.reserved) (children : List Nat) :
    Generator.flatteningLevel o u children = Generator.flatteningLevel o' t children := by
  have hcomponent : o.maybeComponent = o'.maybeComponent := by
    funext e
    rw [Options.maybeComponent, Options.maybeComponent, ho]
  induction children with
  | nil => rfl
  | cons c rest ih =>
    rcases hu : u.element? c with _ | e
    · have ht : t.element? c = none := by
        have hc := h.element? c
        rw [hu] at hc
        exact Option.map_eq_none_iff.mp hc.symm
      rw [Generator.flatteningLevel, Generator.flatteningLevel, hu, ht]
      exact ih
    · obtain ⟨e₀, ht, heq⟩ := h.element?_eq hu
      have hany : (Generator.arms u e).any needsFlattening = (Generator.arms t e₀).any needsFlattening :=
        eq_of_map_unbound (f := (List.any · needsFlattening)) (fun _ => List.any_map) (h.arms heq)
      rw [Generator.flatteningLevel, Generator.flatteningLevel, hu, ht]
      simp only [hcomponent, ih, hany, eq_of_map_unbound o'.anyM_unbound (h.arms heq)]

end Tree.Rebound

end TemplateCompiler
