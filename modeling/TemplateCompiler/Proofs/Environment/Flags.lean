import TemplateCompiler.Proofs.Analysis.Alike
import TemplateCompiler.Proofs.Environment.Compile

/-!
# Compiling trees that have flags

A tree may come with flags from elsewhere. What an optimizing compile gives depends on them only where the analysis
leaves them as they were (`compile_alike`). There it does depend on them: an element behind a component that is
said to be constant is hoisted, and one that is not is written in place (`compile_alike_badge`).
-/

namespace TemplateCompiler.Environment

variable {env : Environment} {t u t₁ u₁ : Tree} {log log' : List LogRecord} {c : Compiled}

theorem result_compile_of_alike {D : Nat → Prop} (hoptimize : env.optimize = true)
    (ht : t.analyse env.analysis = .ok (t₁, log)) (hu : u.analyse env.analysis = .ok (u₁, log'))
    (halike : t₁.Alike D u₁) (h : (env.compile t).result = .ok c) : (env.compile u).result = .ok c := by
  obtain ⟨t₂, _, code, ha, hcode, rfl⟩ := result_compile_iff.mp h
  rw [if_pos hoptimize, ht] at ha
  cases ha
  obtain ⟨hcode', hwarnings⟩ := halike.generate hcode
  refine result_compile_iff.mpr ⟨u₁, log', code, ?_, hcode', ?_⟩
  · rw [if_pos hoptimize, hu]
  · rw [compiled, compiled, hwarnings]

/-- A template without a root gives the same whatever its tree is. -/
theorem result_compile_of_rootless (ht : t.root = none) (hu : u.root = none) :
    (env.compile t).result = (env.compile u).result := by
  have hanalyse {t : Tree} (ht : t.root = none) :
      (if env.optimize then t.analyse env.analysis else .ok (t, [])) = .ok (t, []) := by
    split
    · rw [Tree.analyse, ht]
    · rfl
  have hgenerate {t : Tree} (ht : t.root = none) : t.generate env.options none =
      { code := .ok (Code.callHelper .create (Code.text "\"div\"")), tree := t, warnings := [], lifted := {} } := by
    rw [Generator.generate_eq, ht]
    rfl
  rw [compile_eq, compile_eq]
  simp only [compiled, hanalyse ht, hanalyse hu, hgenerate ht, hgenerate hu]

/-- Two trees that differ in their flags only, and not in what stale flags mean, are compiled to the same. -/
theorem compile_alike (hoptimize : env.optimize = true) (hu : t.unflag = u.unflag)
    (ha : t.analyse env.analysis = .ok (t₁, log))
    (hstale : ∀ {r j e k}, t.root = some r → t.element? j = some e → env.analysis.Stale t t₁ r j e k →
      ((t.flags j).get k).truthy = ((u.flags j).get k).truthy) :
    (env.compile t).result = .ok c ↔ (env.compile u).result = .ok c := by
  rcases hr : t.root with _ | r
  · have hru : u.root = none := by rw [← Tree.root_unflag, ← hu, Tree.root_unflag, hr]
    rw [result_compile_of_rootless hr hru]
  · obtain ⟨u₁, log', ha', halike⟩ := Analysis.analyse_alike hu hr ha (hstale hr)
    exact ⟨result_compile_of_alike hoptimize ha ha' halike, result_compile_of_alike hoptimize ha' ha halike.symm⟩

/-- The same paragraph in place and behind a component. -/
def badge : Json :=
  let paragraph : Json := .object [("tag", "p"), ("children", .array [.object [("tag", "b")]])]
  .object [("tag", "div"), ("children", .array
    [paragraph, .object [("tag", "my-badge"), ("children", .array [paragraph])]])]

/-- The flags of the first paragraph do not matter; but if the second one is said to be constant, it is hoisted. -/
theorem compile_alike_badge : ∃ t c c', (Tree.load badge).1 = .ok t ∧
    (({} : Environment).compile t).result = .ok c ∧
    (({} : Environment).compile (t.modifyFlags 1 fun _ => { root := .bool true, inLoop := .bool true })).result =
      .ok c ∧
    (({} : Environment).compile (t.modifyFlags 4 fun _ => { constant := .bool true })).result = .ok c' ∧
    c.program.functions.length = 1 ∧ c'.program.functions.length = 2 := by
  have hcompile : ((Tree.load badge).1.toOption.bind fun t =>
      (({} : Environment).compile t).result.toOption.bind fun c =>
        (({} : Environment).compile (t.modifyFlags 4 fun _ => { constant := .bool true })).result.toOption.map
          fun c' => (c.program.functions.length, c'.program.functions.length)) = some (1, 2) := by
    unfold compile
    rw [analysis_standard]
    decide +kernel
  have hshape : ((Tree.load badge).1.toOption.bind fun t =>
      (t.analyse ({} : Environment).analysis).toOption.map fun p => decide (t.root = some 0 ∧
        ((t.element? 0).map fun e => (e.tag, e.children, Analysis.isRoot p.1 0 e)) =
          some (.string "div", [1, 3], false) ∧
        (p.1.flags 1).constant = .bool true)) = some true := by
    rw [analysis_standard]
    decide +kernel
  obtain ⟨t, hload, hcompile⟩ := Option.bind_eq_some_iff.mp hcompile
  obtain ⟨c, hc, hcompile⟩ := Option.bind_eq_some_iff.mp hcompile
  obtain ⟨c', hc', hlengths⟩ := Option.map_eq_some_iff.mp hcompile
  rw [Prod.mk.injEq] at hlengths
  rw [hload, Option.bind_some] at hshape
  obtain ⟨⟨t₁, log⟩, ha, hshape⟩ := Option.map_eq_some_iff.mp hshape
  obtain ⟨hroot, hdiv, hconstant⟩ := of_decide_eq_true hshape
  have ha := ok_of_toOption (x := t.analyse _) ha
  obtain ⟨e, he, hfields⟩ := Option.map_eq_some_iff.mp hdiv
  rw [Prod.mk.injEq, Prod.mk.injEq] at hfields
  obtain ⟨htag, hchildren, hwhole⟩ := hfields
  have hchild : 1 ∈ e.children := by rw [hchildren]; decide
  have he₁ : t₁.element? 0 = some e := by
    rw [Tree.element?_eq_of_unflag (Analysis.unflag_analyse ha), he]
  -- Both passes see the first paragraph.
  have hexposed : ({} : Environment).analysis.Exposed t 0 1 :=
    .single ⟨e, he, .inl (by rw [htag]; rfl), .inl hchild⟩
  have hreached : Analysis.Reached t₁ 0 1 :=
    .single ⟨e, he₁, hwhole, List.mem_append_left _ hchild⟩
  have hc := ok_of_toOption hc
  refine ⟨t, c, c', ok_of_toOption hload, hc, ?_, ok_of_toOption hc', hlengths⟩
  refine (compile_alike rfl (Tree.unflag_modifyFlags ..).symm ha fun {r j e k} hr _ hk => ?_).mp hc
  obtain rfl : 0 = r := Option.some.inj (hroot.symm.trans hr)
  rw [Tree.flags_modifyFlags]
  split
  · rename_i hj
    obtain rfl := hj.1
    cases k with
    | constant => exact absurd hexposed hk.2
    | root => exact absurd hreached hk
    | inLoop => exact absurd ⟨hreached, by rw [hconstant]; rfl⟩ hk
  · rfl

end TemplateCompiler.Environment
