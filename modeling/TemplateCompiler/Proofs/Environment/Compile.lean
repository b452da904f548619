import TemplateCompiler.Environment
import TemplateCompiler.Proofs.Generator.Lifts

/-!
# The result of a compile

A compile is an analysis, unless it is switched off, and a generation that numbers on the way.
`Environment.compile_eq` lifts from the whole code instead, and `Environment.result_compile_iff` takes the
result apart into those of the analysis and the generation.
-/

namespace TemplateCompiler

theorem ok_of_toOption {ε α : Type} {x : Except ε α} {a : α} (h : x.toOption = some a) : x = .ok a := by
  cases x with
  | error e => cases h
  | ok b => cases h; rfl

namespace Environment

/-- What a compile gives that generated `c`. -/
def compiled (env : Environment) (g : Generated) (c : Code) : Compiled :=
  { program := c.program env.names
    errors := (g.warnings.filter fun w => !w.tip).map Warning.diagnostic
    tips := (g.warnings.filter Warning.tip).map Warning.diagnostic }

/-- A compile could as well lift everything when the whole code has been generated. -/
theorem compile_eq (env : Environment) (t : Tree) : env.compile t =
    match if env.optimize then t.analyse env.analysis else .ok (t, []) with
    | .error failure =>
      { result := .error failure, tree := t, warnings := [], log := [.compiling t.size] }
    | .ok (t₁, analysed) =>
      let g := t₁.generate env.options none
      let log := [.compiling t.size] ++ analysed ++ g.warnings.flatMap env.warningLog
      match g.code with
      | .error failure => { result := .error failure, tree := g.tree, warnings := g.warnings, log := log }
      | .ok code =>
        let r := env.compiled g code
        { result := .ok r
          tree := g.tree
          warnings := g.warnings
          log := log ++ [.generated r.program.functions.length r.errors.length r.tips.length] } := by
  unfold compile
  rcases if env.optimize then t.analyse env.analysis else .ok (t, []) with f | ⟨t₁, analysed⟩
  · rfl
  · dsimp only
    obtain ⟨c, hc, hnumbered⟩ | ⟨f, l, hf, hnumbered⟩ := t₁.generate_numbered env.options none
    · rw [hnumbered, hc]
      rfl
    · rw [hnumbered, hf]

/-- A compile succeeds if the analysis, where there is one, and the generation do. -/
theorem result_compile_iff {env : Environment} {t : Tree} {r : Compiled} : (env.compile t).result = .ok r ↔
    ∃ t₁ log c, (if env.optimize then t.analyse env.analysis else .ok (t, [])) = .ok (t₁, log) ∧
      (t₁.generate env.options none).code = .ok c ∧
      env.compiled (t₁.generate env.options none) c = r := by
  rw [compile_eq]
  rcases if env.optimize then t.analyse env.analysis else .ok (t, []) with e | ⟨t₁, log⟩
  · simp
  · rcases hc : (t₁.generate env.options none).code with e | c
    · simp [hc]
    · simp [hc]

/-- A compile that fails does so in its analysis or in its generation. -/
theorem result_compile_error {env : Environment} {t : Tree} {f : Failure}
    (h : (env.compile t).result = .error f) :
    (if env.optimize then t.analyse env.analysis else .ok (t, [])) = .error f ∨
      ∃ t₁ log, (if env.optimize then t.analyse env.analysis else .ok (t, [])) = .ok (t₁, log) ∧
        (t₁.generate env.options none).code = .error f := by
  rw [compile_eq] at h
  rcases ha : (if env.optimize then t.analyse env.analysis else .ok (t, [])) with e | ⟨t₁, log⟩
  · simp only [ha] at h
    cases h
    exact .inl rfl
  · refine .inr ⟨t₁, log, rfl, ?_⟩
    rcases hc : (t₁.generate env.options none).code with e | c
    · simp only [ha, hc] at h
      cases h
      rfl
    · simp only [ha, hc] at h
      cases h

theorem analysis_standard : ({} : Environment).analysis =
    { reserved := Tag.isReserved, staticKeys := ["static_class", "static_style"] } := by
  have hkeys : ({} : Environment).allStaticKeys = ["static_class", "static_style"] :=
    List.mergeSort_of_pairwise (by decide +kernel)
  rw [analysis, hkeys]

/-- A test of the tree that is loaded and of the code that is generated for it in the standard environment. -/
def test (v : Json) (p : Tree → Code → Bool) : Option Bool :=
  (Tree.load v).1.toOption.bind fun t =>
    (t.analyse { reserved := Tag.isReserved, staticKeys := ["static_class", "static_style"] }).toOption.bind fun q =>
      (q.1.generate ({} : Environment).options none).code.toOption.map (p t)

/-- What can be tested loads and compiles. -/
theorem exists_of_test {v : Json} {p : Tree → Code → Bool} (h : test v p = some true) :
    ∃ t t₁ log c, (Tree.load v).1 = .ok t ∧ t.analyse ({} : Environment).analysis = .ok (t₁, log) ∧
      (t₁.generate ({} : Environment).options none).code = .ok c ∧
      (compile {} t).result = .ok (compiled {} (t₁.generate ({} : Environment).options none) c) ∧ p t c = true := by
  obtain ⟨t, hload, h⟩ := Option.bind_eq_some_iff.mp h
  obtain ⟨⟨t₁, log⟩, ha, h⟩ := Option.bind_eq_some_iff.mp h
  obtain ⟨c, hc, hp⟩ := Option.map_eq_some_iff.mp h
  rw [← analysis_standard] at ha
  have ha := ok_of_toOption ha
  have hc := ok_of_toOption hc
  exact ⟨t, t₁, log, c, ok_of_toOption hload, ha, hc, result_compile_iff.mpr ⟨t₁, log, c, ha, hc, rfl⟩, hp⟩

end Environment

end TemplateCompiler
