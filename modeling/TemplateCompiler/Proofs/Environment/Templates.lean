import TemplateCompiler.Proofs.Environment.Reuse
import TemplateCompiler.Proofs.Generator.Admitted
import TemplateCompiler.Proofs.Tree.Loaded

/-!
# Templates in verbatim parts

A template that is passed to no slot gives way to its children, and stays a node where the generator writes verbatim
code. It does so in the hoists of verbatim elements. A verbatim element that is not hoisted, because something below it
is not static or because nothing is, does not turn the switch, so that what becomes of a template depends on the hoists
around it and not on the elements (`Environment.templates_by_hoist`).
-/

namespace TemplateCompiler

/-- A place in code that stands for an element: whether it is in a verbatim hoist, and what the node is created from,
or nothing if the children stand for the element. -/
structure Place where
  owner : Nat
  verbatim : Bool
  target : Option (Bool × String)
  deriving DecidableEq, Repr

/-- The places in code, for the elements that are verbatim. Inline templates are compiled apart. -/
def Code.places (isVerbatim : Nat → Bool) : Bool → Code → List Place
  | _, text _ | _, helper _ | _, call _ _ => []
  | v, append a b => a.places isVerbatim v ++ b.places isVerbatim v
  | v, create i dynamic target data children =>
    ⟨i, v, some (dynamic, target)⟩ :: data.places isVerbatim v ++ children.places isVerbatim v
  | v, fragment i body => ⟨i, v, none⟩ :: body.places isVerbatim v
  | v, branch _ _ yes no => yes.places isVerbatim v ++ no.places isVerbatim v
  | v, loop _ _ _ body | v, outlet _ body | v, slots _ body _ | v, once _ _ body | v, memo _ _ body
  | v, rewritten _ body => body.places isVerbatim v
  | v, hoist i _ body => body.places isVerbatim (v || isVerbatim i)
  | _, inline body | _, unit body => body.places isVerbatim false

namespace Tree

/-- Code that is admitted for the verbatim elements of a tree has children in the place of a template outside of
verbatim hoists, and nodes otherwise. -/
theorem target_of_admits {t : Tree} {P : Char → Prop} {c : Code} {v : Bool}
    (h : Rubric.Admits ⟨t, P, fun i found => found = t.verbatim i⟩ v c) :
    ∀ p ∈ c.places t.verbatim v, ∃ e, t.element? p.owner = some e ∧
      p.target = if e.dissolves && !p.verbatim then none else some e.target := by
  induction c generalizing v with
  | text _ | helper _ | call _ _ => nofun
  | append _ _ iha ihb => exact List.forall_mem_append.mpr ⟨iha h.1, ihb h.2⟩
  | create i dynamic target data children ihd ihc =>
    obtain ⟨⟨e, he, hv, htarget⟩, -, hd, hc⟩ := h
    refine List.forall_mem_cons.mpr ⟨⟨e, he, ?_⟩, List.forall_mem_append.mpr ⟨ihd hd, ihc hc⟩⟩
    rw [htarget, if_neg]
    intro hplace
    obtain ⟨hdissolves, hoff⟩ := Bool.and_eq_true_iff.mp hplace
    simp [hv hdissolves] at hoff
  | fragment i body ih =>
    obtain ⟨⟨e, he, hdissolves⟩, rfl, hb⟩ := h
    refine List.forall_mem_cons.mpr ⟨⟨e, he, ?_⟩, ih hb⟩
    rw [hdissolves]
    rfl
  | branch _ _ _ _ ihy ihn => exact List.forall_mem_append.mpr ⟨ihy h.2.1, ihn h.2.2⟩
  | loop _ _ _ _ ih => exact ih h.2.2
  | outlet _ _ ih | slots _ _ _ ih | inline _ ih => exact ih h
  | once _ _ _ ih => exact ih h.2
  | hoist i inLoop body ih =>
    obtain ⟨_, rfl, hb⟩ := h
    exact ih hb
  | memo _ _ _ _ | unit _ _ | rewritten _ _ _ => exact h.elim

/-- All characters are characters. -/
theorem over_true (t : Tree) : t.Over fun _ => True := by
  intro i n _
  unfold Content.Over
  split
  · exact Element.over_of_values fun _ _ _ _ => trivial
  all_goals exact fun _ _ => trivial

end Tree

/-- Plugins that keep to bindings, with modules that leave code alone, are free to write what they like. -/
theorem Options.Tidy.spelling_true {o : Options} (ho : o.Tidy) (hm : ∀ m ∈ o.modules, ∀ e c, m.transform e c = c) :
    o.Spelling fun _ => True where
  tidy := ho
  data _ _ _ _ _ _ := trivial
  transform := hm
  directives _ _ _ _ _ := Element.over_of_values fun _ _ _ _ => trivial

namespace Environment

/-- In the code of a template, with the analysis or without it, every element that stands for itself is a node, except
for a template that is passed to no slot: inside the hoist of a verbatim element it is a node as well, and anywhere
else its children take its place. That an element above it is verbatim does not matter by itself. -/
theorem templates_by_hoist {env : Environment} (ho : env.options.Tidy)
    (hm : ∀ m ∈ env.modules, ∀ e c, m.transform e c = c) {t : Tree} (ht : t.WellFormed) {r : Compiled}
    (hr : (env.compile t).result = .ok r) :
    ∃ t₁ log c, (if env.optimize then t.analyse env.analysis else .ok (t, [])) = .ok (t₁, log) ∧
      (t₁.generate env.options none).code = .ok c ∧ r.program = c.program env.names ∧
      ∀ p ∈ c.places t.verbatim false, ∃ e, t.element? p.owner = some e ∧
        p.target = if e.dissolves && !p.verbatim then none else some e.target := by
  obtain ⟨t₁, log, c, ha, hc, rfl⟩ := result_compile_iff.mp hr
  have hu : t₁.unflag = t.unflag := unflag_prepared ha
  have hlinked : t₁.Linked := (ht.of_unflag hu).linked
  have hverbatim : t₁.verbatim = t.verbatim := by
    funext i
    rw [← Tree.verbatim_unflag, hu, Tree.verbatim_unflag]
  let S : Rubric := ⟨t₁, fun _ => True, fun i found => found = t₁.verbatim i⟩
  have hfuel (i : Nat) : min i t₁.size < t₁.size + 1 := by omega
  have hS : S.Sound :=
    ⟨⟨fun _ _ => trivial, fun _ _ _ _ _ => trivial⟩, fun i hmemo => Memo.query_verbatim hlinked (hfuel i) hmemo⟩
  have hadmits : S.Admits false c := S.admits_generate hS t₁.over_true (ho.spelling_true hm) hc
  refine ⟨t₁, log, c, ha, hc, rfl, fun p hp => ?_⟩
  rw [← Tree.element?_eq_of_unflag hu]
  exact Tree.target_of_admits hadmits p (hverbatim ▸ hp)

/-- Two verbatim parts with a template each. The second one has a component in it and is not hoisted. -/
def samples : Json :=
  let text : Json := .object [("type", .int 3), ("text", "x")]
  let template : Json := .object [("tag", "template"), ("children", .array [text])]
  let verbatim (others : List Json) : Json :=
    .object [("tag", "div"), ("pre", .bool true), ("children", .array (template :: others))]
  .object [("tag", "main"), ("children", .array
    [verbatim [.object [("tag", "b")]], verbatim [.object [("tag", "my-part")]]])]

/-- Both templates are verbatim, and only the first one is a node. -/
theorem templates_by_hoist_samples : ∃ t r, ∃ c : Code, (Tree.load samples).1 = .ok t ∧ t.WellFormed ∧
    ({} : Environment).options.Tidy ∧ (compile {} t).result = .ok r ∧ r.program = c.program Names.standard ∧
    r.program.render =
      "with(this)\x7breturn _c('main',[_m(0),_c('div',[[_v(\"x\")],_c('my-part',\x7bpre:true\x7d)],2)])\x7d" ∧
    r.program.functions = ["with(this)\x7breturn _c('div',[_c('template',[_v(\"x\")]),_c('b')],2)\x7d"] ∧
    t.verbatim 2 = true ∧ t.verbatim 6 = true ∧ ⟨2, true, some (false, "'template'")⟩ ∈ c.places t.verbatim false ∧
    ⟨6, false, none⟩ ∈ c.places t.verbatim false ∧
    ∀ p ∈ c.places t.verbatim false, ∃ e, t.element? p.owner = some e ∧
      p.target = if e.dissolves && !p.verbatim then none else some e.target := by
  have h : test samples (fun t c => decide ((c.program Names.standard).render =
        "with(this)\x7breturn _c('main',[_m(0),_c('div',[[_v(\"x\")],_c('my-part',\x7bpre:true\x7d)],2)])\x7d" ∧
      (c.program Names.standard).functions =
        ["with(this)\x7breturn _c('div',[_c('template',[_v(\"x\")]),_c('b')],2)\x7d"] ∧
      t.verbatim 2 = true ∧ t.verbatim 6 = true ∧
      ⟨2, true, some (false, "'template'")⟩ ∈ c.places t.verbatim false ∧
      ⟨6, false, none⟩ ∈ c.places t.verbatim false)) = some true := by
    decide +kernel
  obtain ⟨t, t₁, log, c, hload, ha, hc, hr, h⟩ := exists_of_test h
  obtain ⟨hrender, hfunctions, hfirst, hsecond, hnode, hchildren⟩ := of_decide_eq_true h
  have ht : t.WellFormed := Tree.wellFormed_load hload
  have ho : ({} : Environment).options.Tidy := Options.tidy_standard rfl
  obtain ⟨t₂, _, c₂, ha₂, hc₂, -, hplaces⟩ :=
    templates_by_hoist ho (fun _ hm => CompilerModule.transform_standard hm) ht hr
  obtain rfl : t₁ = t₂ := congrArg Prod.fst (Except.ok.inj (ha.symm.trans ha₂))
  obtain rfl : c = c₂ := Except.ok.inj (hc.symm.trans hc₂)
  exact ⟨t, _, c, hload, ht, ho, hr, rfl, hrender, hfunctions, hfirst, hsecond, hnode, hchildren, hplaces⟩

end Environment

end TemplateCompiler
