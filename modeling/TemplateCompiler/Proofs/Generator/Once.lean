import TemplateCompiler.Proofs.Environment.Scope
import TemplateCompiler.Proofs.Plugin.Frame
import TemplateCompiler.Proofs.Tree.Built

/-!
# Elements that are rendered once and the loops above them

Two parts of the compiler ask whether an element stands in a loop. The analysis hands the answer down, over
children and over the blocks of a chain. The generator climbs from the element to its nearest loop to find a
key. In a loaded or a built tree both say the same (`inLoop_iff_ancestor_loops`), so that the nearest loop
alone decides what becomes of the element.

Plugins change bindings while code is generated, so the generator may see other bindings than the analysis
did (`Tree.Rebound`). Neither of the two looks at them.
-/

namespace TemplateCompiler

open Generator Analysis

/-! ## Other bindings -/

def Node.unbound (n : Node) : Node :=
  n.mapElement Element.unbound

namespace Tree

/-- The tree `u` is `t` with other bindings. -/
def Rebound (t u : Tree) : Prop :=
  u.size = t.size ∧ ∀ j, (u.node? j).map Node.unbound = (t.node? j).map Node.unbound

namespace Rebound

variable {t u : Tree} (h : t.Rebound u)

theorem refl (t : Tree) : t.Rebound t :=
  ⟨rfl, fun _ => rfl⟩

include h

/-- What can be read off a node without its bindings. -/
theorem node?_bind {α : Type} {f : Node → Option α} (hf : ∀ n, f n.unbound = f n) (j : Nat) :
    (u.node? j).bind f = (t.node? j).bind f := by
  have hj := congrArg (Option.bind · f) (h.2 j)
  simpa only [Option.bind_map, Function.comp_def, hf] using hj

theorem parent? (j : Nat) : u.parent? j = t.parent? j :=
  h.node?_bind (fun n => n.parent_mapElement _) j

theorem node?_map {α : Type} {f : Node → α} (hf : ∀ n, f n.unbound = f n) (j : Nat) :
    (u.node? j).map f = (t.node? j).map f := by
  have hj := congrArg (Option.map f) (h.2 j)
  simpa only [Option.map_map, Function.comp_def, hf] using hj

theorem flags (j : Nat) : u.flags j = t.flags j := by
  have hj := h.node?_map (fun n => n.flags_mapElement Element.unbound) j
  unfold Tree.flags
  rw [hj]

theorem span (j : Nat) : u.span j = t.span j := by
  have hj := h.node?_map (fun n => n.span_mapElement Element.unbound) j
  unfold Tree.span
  rw [hj]

theorem element? (j : Nat) : (u.element? j).map Element.unbound = (t.element? j).map Element.unbound := by
  rw [Tree.element?, Tree.element?, Option.map_bind, Option.map_bind]
  refine h.node?_bind (fun n => ?_) j
  show (n.mapElement Element.unbound).element?.map Element.unbound = n.element?.map Element.unbound
  rw [Node.element?_mapElement, Option.map_map]
  rfl

theorem ancestors (j : Nat) : u.ancestors j = t.ancestors j :=
  ancestors_congr h.1 h.parent? j

theorem ancestorElements (j : Nat) :
    (u.ancestorElements j).map Element.unbound = (t.ancestorElements j).map Element.unbound := by
  rw [Tree.ancestorElements, Tree.ancestorElements, h.ancestors, List.map_filterMap, List.map_filterMap]
  simp only [h.element?]

/-- The key of the nearest loop is no binding. -/
theorem loopKey? (j : Nat) :
    Generator.loopKey? (u.ancestorElements j) = Generator.loopKey? (t.ancestorElements j) := by
  have hunbound (es : List Element) :
      Generator.loopKey? (es.map Element.unbound) = Generator.loopKey? es := by
    rw [Generator.loopKey?, List.find?_map, Option.bind_map]
    rfl
  rw [← hunbound, h.ancestorElements, hunbound]

end Rebound

end Tree

/-! ## What becomes of an element -/

namespace Generator

variable {t : Tree} {g : Generation} {self : Emit} {o : Options} {i : Nat} {e : Element} {done : Stages}

theorem outcome_flagsOf (i : Nat) (g : Generation) :
    outcome (flagsOf i) g = (.ok (g.tree.flags i), g) := rfl

/-- An element that is rendered once, with no test that is still to be made. -/
theorem outcome_emitOnce (self : Emit) (he : g.tree.element? i = some e)
    (htest : e.tested = true → done.branched = true) :
    outcome (emitOnce self i done) g =
      if (g.tree.flags i).inLoop.truthy = false then
        outcome (emitHoisted self i { done with once := true }) g
      else match loopKey? (g.tree.ancestorElements i) with
        | some key => outcome (do
            let body ← self (.element i { done with once := true })
            return .once i key body) g
        | none => outcome (self (.element i { done with once := true }))
            { g with warnings := g.warnings ++ [keylessOnce e ⟨i, g.tree.span i⟩] } := by
  have hbranched : (e.tested && !done.branched) = false := by
    rcases ht : e.tested
    · rfl
    · rw [htest ht]; rfl
  have helement : outcome (elementAt i) g = (.ok e, g) := by rw [outcome_elementAt, he]
  unfold emitOnce
  rw [outcome_bind_of_ok helement]
  dsimp only
  rw [if_neg (by rw [hbranched]; decide), outcome_bind_of_ok (outcome_flagsOf i g)]
  rcases hloop : (g.tree.flags i).inLoop.truthy
  · rfl
  · rw [if_neg (by decide), if_neg (by decide), outcome_bind_of_ok (outcome_get g)]
    rcases loopKey? (g.tree.ancestorElements i) with _ | key <;> rfl

/-- An element that is no static root is rendered once first, and then in place. -/
theorem outcome_emitElement (he : g.tree.element? i = some e) (hroot : (g.tree.flags i).root.truthy = false)
    (honce : e.once.truthy = true) :
    outcome (emitElement o self i done) g =
      if done.once = false then outcome (emitOnce self i done) g
      else outcome (emitInPlace o self i e done) g := by
  have helement : outcome (elementAt i) g = (.ok e, g) := by rw [outcome_elementAt, he]
  unfold emitElement
  rw [outcome_bind_of_ok helement, outcome_bind_of_ok (outcome_flagsOf i g), hroot, honce, Bool.false_and,
    Bool.true_and]
  rcases done.once <;> rfl

end Generator

/-- In a loaded or a built tree, the answer of the analysis is what a walk up from the element finds. Hence
an element that is rendered once is hoisted if no element above it loops, marked with the key of the nearest
loop if that has one, and else generated in place, with one error. -/
theorem inLoop_iff_ancestor_loops {a : Analysis} {t t₁ : Tree} {log : List LogRecord} {r i : Nat}
    {e : Element} (ht : (∃ v, (Tree.load v).1 = .ok t) ∨ t.Built) (h : t.analyse a = .ok (t₁, log))
    (hr : t.root = some r) (hi : Reached t₁ r i) (he : t.element? i = some e)
    (hmarked : ((t₁.flags i).constant.truthy || e.once.truthy) = true) :
    ((t₁.flags i).inLoop = .bool true ↔ ∃ l ∈ t.ancestorElements i, l.loops = true) ∧
    (e.once.truthy = true → (t₁.flags i).root.truthy = false →
      ∀ (o : Options) (self : Emit) (done : Stages) (g : Generation), t₁.Rebound g.tree →
        done.once = false → (e.tested = true → done.branched = true) →
        let done' := { done with once := true }
        outcome (emitElement o self i done) g = outcome (emitOnce self i done) g ∧
        (∃ e', g.tree.element? i = some e' ∧
          outcome (emitElement o self i done') g = outcome (emitInPlace o self i e' done') g) ∧
        match (t.ancestorElements i).find? Element.loops with
        | none => outcome (emitOnce self i done) g = outcome (emitHoisted self i done') g
        | some loop =>
          match loop.key.filled? with
          | some key => outcome (emitOnce self i done) g = outcome (do
              let body ← self (.element i done')
              return .once i key body) g
          | none => ∃ w : Warning, w.code = some .onceWithoutKey ∧ w.tip = false ∧
              outcome (emitOnce self i done) g =
                outcome (self (.element i done')) { g with warnings := g.warnings ++ [w] }) := by
  obtain ⟨hl, hparent⟩ : t.Linked ∧ t.parent? r = none := by
    rcases ht with ⟨v, hv⟩ | hb
    · obtain ⟨hl, hroot⟩ := Tree.linked_load hv
      exact ⟨hl, (hroot r hr).2⟩
    · exact ⟨hb.rooted.linked, hb.rooted.parentless r hr⟩
  have han := analysed_underLoop hl hr hparent h
  obtain ⟨b, rfl, hflag⟩ := han.inside i e hi he
  rw [if_pos hmarked] at hflag
  refine ⟨by rw [hflag, Json.bool.injEq, Tree.underLoop, List.any_eq_true], ?_⟩
  intro honce hroot o self done g hg hdone htest done'
  -- The generator sees the element, the flags and the ancestors of the analysed tree.
  obtain ⟨e', he', hsame⟩ : ∃ e', g.tree.element? i = some e' ∧ e'.unbound = e.unbound := by
    have hu := hg.element? i
    rw [Tree.element?_eq_of_unflag han.unflag, he, Option.map_some, Option.map_eq_some_iff] at hu
    exact hu
  have honce' : e'.unbound.once.truthy = true := hsame ▸ honce
  have htest' : e'.unbound.tested = true → done.branched = true := hsame ▸ htest
  have hroot' : (g.tree.flags i).root.truthy = false := by rw [hg.flags, hroot]
  have hkey : loopKey? (g.tree.ancestorElements i) = loopKey? (t.ancestorElements i) := by
    rw [hg.loopKey?, Tree.ancestorElements_eq_of_unflag han.unflag]
  have hin : (g.tree.flags i).inLoop.truthy = t.underLoop i := by rw [hg.flags, hflag, Json.truthy]
  have hstep := outcome_emitOnce self he' htest'
  rw [hin, hkey, loopKey?] at hstep
  refine ⟨?_, ⟨e', he', ?_⟩, ?_⟩
  · rw [outcome_emitElement he' hroot' honce', if_pos hdone]
  · rw [outcome_emitElement he' hroot' honce', if_neg Bool.false_ne_true.symm]
  rcases hloop : (t.ancestorElements i).find? Element.loops with _ | loop
  · have hout : t.underLoop i = false := by
      rw [Tree.underLoop, List.any_eq_false]
      exact List.find?_eq_none.mp hloop
    rwa [hout, if_pos rfl] at hstep
  · have hout : t.underLoop i = true := by
      rw [Tree.underLoop, List.any_eq_true]
      exact ⟨loop, List.mem_of_find?_eq_some hloop, List.find?_some hloop⟩
    rw [hout, if_neg (by decide), hloop, Option.bind_some] at hstep
    dsimp only
    rcases hk : loop.key.filled? with _ | key
    · rw [hk] at hstep
      exact ⟨_, rfl, rfl, hstep⟩
    · rw [hk] at hstep
      exact hstep

/-- Paragraphs that are rendered once, in a loop with a key and in one without. -/
def shelf : Json :=
  let name (code : String) : Json := .object
    [("tag", "p"), ("once", .bool true),
      ("children", .array [.object [("type", .int 2), ("expression", .string code)]])]
  let books : Json := .object
    [("tag", "li"), ("for", "books"), ("alias", "book"), ("key", "book.id"),
      ("children", .array [name "_s(book.title)"])]
  let tags : Json := .object
    [("tag", "li"), ("for", "tags"), ("alias", "tag"), ("children", .array [name "_s(tag)"])]
  .object [("tag", "ul"), ("children", .array [books, tags])]

theorem inLoop_iff_ancestor_loops_shelf : ∃ t t₁ log, (Tree.load shelf).1 = .ok t ∧
    t.analyse {} = .ok (t₁, log) ∧ ∀ self : Emit,
      outcome (emitOnce self 2 {}) { tree := t₁ } = outcome (do
        let body ← self (.element 2 { once := true })
        return .once 2 "book.id" body) { tree := t₁ } ∧
      ∃ w : Warning, w.code = some .onceWithoutKey ∧ w.tip = false ∧
        outcome (emitOnce self 5 {}) { tree := t₁ } =
          outcome (self (.element 5 { once := true })) { tree := t₁, warnings := [w] } := by
  have h : ((Tree.load shelf).1.toOption.bind fun t => (t.analyse {}).toOption.map fun p =>
      decide (t.root = some 0 ∧
        ((p.1.element? 0).map fun e => (isRoot p.1 0 e, e.children)) = some (false, [1, 4]) ∧
        ((p.1.element? 1).map fun e => (isRoot p.1 1 e, e.children)) = some (false, [2]) ∧
        ((p.1.element? 4).map fun e => (isRoot p.1 4 e, e.children)) = some (false, [5]) ∧
        ∀ i ∈ [2, 5], ((t.element? i).map fun e => (e.once.truthy, e.tested)) = some (true, false) ∧
          (p.1.flags i).root.truthy = false ∧
          (((t.ancestorElements i).find? Element.loops).map fun l => l.key.filled?) =
            some (if i = 2 then some "book.id" else none))) = some true := by
    decide +kernel
  obtain ⟨t, hload, h⟩ := Option.bind_eq_some_iff.mp h
  obtain ⟨⟨t₁, log⟩, ha, h⟩ := Option.map_eq_some_iff.mp h
  obtain ⟨hroot, hul, hbooks, htags, hcases⟩ := of_decide_eq_true h
  have henters (i j : Nat) (children : List Nat) (hj : j ∈ children)
      (hi : ((t₁.element? i).map fun e => (isRoot t₁ i e, e.children)) = some (false, children)) :
      Enters t₁ i j := by
    obtain ⟨e, he, hi⟩ := Option.map_eq_some_iff.mp hi
    rw [Prod.mk.injEq] at hi
    exact ⟨e, he, hi.1, List.mem_append_left _ (hi.2 ▸ hj)⟩
  have hreached : ∀ i ∈ [2, 5], Reached t₁ 0 i := by
    intro i hi
    rcases List.mem_pair.mp hi with rfl | rfl
    · exact .tail (.single (henters 0 1 _ (by decide) hul)) (henters 1 2 _ (by decide) hbooks)
    · exact .tail (.single (henters 0 4 _ (by decide) hul)) (henters 4 5 _ (by decide) htags)
  have hagree (self : Emit) (i : Nat) (hi : i ∈ [2, 5]) (e : Element) (he : t.element? i = some e)
      (hfields : (e.once.truthy, e.tested) = (true, false)) :=
    ((inLoop_iff_ancestor_loops (.inl ⟨shelf, ok_of_toOption hload⟩) (ok_of_toOption ha) hroot
      (hreached i hi) he (by rw [(Prod.mk.inj hfields).1, Bool.or_true])).2 (Prod.mk.inj hfields).1
      (hcases i hi).2.1 {} self {} { tree := t₁ } (.refl t₁) rfl
      fun htested => nomatch htested.symm.trans (Prod.mk.inj hfields).2).2.2
  refine ⟨t, t₁, log, ok_of_toOption hload, ok_of_toOption ha, fun self => ⟨?_, ?_⟩⟩
  · obtain ⟨hfields, -, hloop⟩ := hcases 2 (by decide)
    obtain ⟨e, he, hfields⟩ := Option.map_eq_some_iff.mp hfields
    obtain ⟨l, hl, hkey⟩ := Option.map_eq_some_iff.mp hloop
    simpa only [hl, hkey, if_pos] using hagree self 2 (by decide) e he hfields
  · obtain ⟨hfields, -, hloop⟩ := hcases 5 (by decide)
    obtain ⟨e, he, hfields⟩ := Option.map_eq_some_iff.mp hfields
    obtain ⟨l, hl, hkey⟩ := Option.map_eq_some_iff.mp hloop
    rw [if_neg (by decide)] at hkey
    simpa only [hl, hkey, List.nil_append] using hagree self 5 (by decide) e he hfields

end TemplateCompiler
