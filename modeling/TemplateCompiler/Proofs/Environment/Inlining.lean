import TemplateCompiler.Proofs.Analysis.Passes
import TemplateCompiler.Proofs.Environment.Compile
import TemplateCompiler.Proofs.Generator.Hoistless
import TemplateCompiler.Proofs.Tree.Loaded

/-!
# Compiling with and without the analysis

The analysis only decides what is hoisted: replacing each call of a hoisted function by the function's
expression gives the program that is compiled without the analysis, with the same errors and tips
(`onlyHoists_of_slotsInPlace`), as long as nothing is hoisted out of a slot definition. The number after a
set of slot definitions is a hash of their text, and the hash of a text with a call in it is another one.
The slot definitions of a loaded tree are not visited by the analysis (`slotsInPlace_of_load`). One that is
a block of a chain as well is visited, and may have a static root in it (`not_onlyHoists_sharedSlot`).
-/

namespace TemplateCompiler

open Generator

namespace Environment

/-- Nothing in a slot definition becomes a static root. -/
def SlotsInPlace (env : Environment) (t : Tree) : Prop :=
  ∀ t₁ log r j, t.analyse env.analysis = .ok (t₁, log) → t.root = some r → t.InSlot r j →
    (t₁.flags j).root.truthy = false

/-- The analysis decides what is hoisted and nothing else: the program that is compiled with it, its calls
replaced by what they call, is the one that is compiled without it. -/
def OnlyHoists (env : Environment) (t : Tree) : Prop :=
  ∀ r, ({ env with optimize := true }.compile t).result = .ok r →
    ∃ t₁ log c r', t.analyse env.analysis = .ok (t₁, log) ∧
      (t₁.generate env.options none).code = .ok c ∧
      (c.marked env.names).program env.names = r.program ∧
      ({ env with optimize := false }.compile t).result = .ok r' ∧
      (c.marked env.names).inlined = r'.program.render ∧ r'.program.functions = [] ∧
      r'.errors = r.errors ∧ r'.tips = r.tips

end Environment

/-- Generating the analysed tree gives the code of the tree itself with some of it hoisted. -/
theorem generate_analysed {env : Environment} (hm : env.modules = CompilerModule.standard)
    (hd : env.directives = DirectivePlugin.standard env.names env.reserved) {t t₁ : Tree}
    {log : List LogRecord} {c : Code} (ht : t.unflag = t) (hord : t.Ordinary)
    (hslots : env.SlotsInPlace t) (ha : t.analyse env.analysis = .ok (t₁, log))
    (hc : (t₁.generate env.options none).code = .ok c) :
    (t.generate env.options none).code = .ok c.unhoisted ∧ c.Inlinable ∧
      (t.generate env.options none).warnings = (t₁.generate env.options none).warnings := by
  rcases hr : t.root with _ | r
  · unfold Tree.analyse at ha
    rw [hr] at ha
    cases ha
    rw [generate_eq, hr] at hc ⊢
    cases hc
    exact ⟨rfl, ⟨trivial, ⟨trivial, ⟨trivial, trivial, trivial⟩, trivial⟩, trivial⟩, rfl⟩
  · let S : Setting env.options :=
      { t := t
        flagged := t₁
        root := r
        ordinary := hord
        apart := fun i hi => hslots t₁ log r i ha hr hi
        modules := hm
        plugins := fun name p hp site e d => by
          rw [Environment.options, hd] at hp
          exact unbound_standard hp site e d }
    exact S.generate ((Analysis.analysed_any ha hr).unflag.trans ht) hr hc

namespace Environment

theorem slotsInPlace_of_slotsApart (env : Environment) {t : Tree} (ht : t.unflag = t)
    (hslots : t.SlotsApart) : env.SlotsInPlace t := by
  intro t₁ log r j ha hr hj
  by_contra hroot
  rw [Bool.not_eq_false] at hroot
  exact hslots r hr j hj (Analysis.visits_of_root ht ha hr hroot)

theorem slotsInPlace_of_load (env : Environment) {v : Json} {t : Tree} (hv : (Tree.load v).1 = .ok t)
    (ht : t.unflag = t) : env.SlotsInPlace t := by
  obtain ⟨hlinked, hroot⟩ := Tree.linked_load hv
  exact slotsInPlace_of_slotsApart env ht (hlinked.slotsApart fun r hr => (hroot r hr).1)

theorem onlyHoists_of_slotsInPlace (env : Environment) (hm : env.modules = CompilerModule.standard)
    (hd : env.directives = DirectivePlugin.standard env.names env.reserved) {t : Tree}
    (ht : t.unflag = t) (hord : t.Ordinary) (hslots : env.SlotsInPlace t) : env.OnlyHoists t := by
  intro r h
  obtain ⟨t₁, log, c, ha, hc, rfl⟩ := result_compile_iff.mp h
  obtain ⟨hc', hin, hw⟩ := generate_analysed hm hd ht hord hslots ha hc
  refine ⟨t₁, log, c, _, ha, hc, program_marked env.names c,
    result_compile_iff.mpr ⟨t, [], _, rfl, hc', rfl⟩, Code.inlined_marked env.names hin,
    Code.functions_program_unhoisted env.names hin, ?_, ?_⟩
  · exact congrArg (fun ws => (List.filter (fun w => !w.tip) ws).map Warning.diagnostic) hw
  · exact congrArg (fun ws => (List.filter Warning.tip ws).map Warning.diagnostic) hw

/-- Static content in a loop, and a component that is given the same content in a slot. -/
def gallery : Json :=
  let picture : Json := .object [("tag", "p"), ("children", .array [.object [("tag", "b")]])]
  let rows : Json := .object
    [("tag", "li"), ("for", "rows"), ("alias", "row"), ("children", .array [picture])]
  let slot : Json := .object
    [("tag", "template"), ("slotTarget", "\"default\""), ("children", .array [picture])]
  let view : Json := .object
    [("tag", "list-view"), ("scopedSlots", .object [("\"default\"", slot)])]
  .object [("tag", "div"), ("children", .array [rows, view])]

theorem onlyHoists_gallery : ∃ t r, (Tree.load gallery).1 = .ok t ∧ t.unflag = t ∧ t.Ordinary ∧
    ({} : Environment).SlotsInPlace t ∧ (({} : Environment).compile t).result = .ok r ∧
    r.program.functions.length = 1 ∧ ({} : Environment).OnlyHoists t := by
  have h : ((Tree.load gallery).1.toOption.bind fun t =>
      (({} : Environment).compile t).result.toOption.map fun r =>
        decide (t.unflag = t ∧ t.Ordinary ∧ r.program.functions.length = 1)) = some true := by
    decide +kernel
  obtain ⟨t, hload, h⟩ := Option.bind_eq_some_iff.mp h
  obtain ⟨r, hr, h⟩ := Option.map_eq_some_iff.mp h
  obtain ⟨hflags, hord, hcount⟩ := of_decide_eq_true h
  have hslots := slotsInPlace_of_load {} (ok_of_toOption hload) hflags
  exact ⟨t, r, ok_of_toOption hload, hflags, hord, hslots, ok_of_toOption hr, hcount,
    onlyHoists_of_slotsInPlace {} rfl rfl hflags hord hslots⟩

/-- A chain whose second block is the slot definition of a component that stands beside it. -/
def sharedSlot : Tree :=
  let tested (test : Json) : Node → Node := Node.mapElement fun e => { e with ifExpr := test }
  let t := (({} : Tree).addElement { tag := "div" } none).1
  let t := (t.addElement { tag := "list-view", fill := tested "ok" } (some 0)).1
  let t := (t.addScopedSlot 1 "\"default\"" emptySlotScope (.bool false) { tag := "template" }).1
  let t := (t.addElement { tag := "p" } (some 2)).1
  let t := (t.addElement { tag := "b" } (some 3)).1
  let t := (t.addElement { tag := "p", fill := tested "a" } (some 0)).1
  t.addCondition 5 ⟨"b", 2⟩

/-- Without the analysis, the hash of the slot definition is taken over the content and not over a call. -/
theorem not_onlyHoists_sharedSlot :
    sharedSlot.unflag = sharedSlot ∧ sharedSlot.Ordinary ∧ ¬({} : Environment).OnlyHoists sharedSlot := by
  refine ⟨by decide +kernel, by decide +kernel, fun honly => ?_⟩
  have h : ((sharedSlot.analyse ({} : Environment).analysis).toOption.bind fun p =>
      (p.1.generate ({} : Environment).options none).code.toOption.bind fun c =>
        ({ optimize := false : Environment }.compile sharedSlot).result.toOption.map fun r =>
          decide ((c.marked Names.standard).inlined ≠ r.program.render)) = some true := by
    rw [analysis_standard]
    decide +kernel
  obtain ⟨⟨t₁, log⟩, ha, h⟩ := Option.bind_eq_some_iff.mp h
  obtain ⟨c, hc, h⟩ := Option.bind_eq_some_iff.mp h
  obtain ⟨r, hr, h⟩ := Option.map_eq_some_iff.mp h
  have ha := ok_of_toOption ha
  have hc := ok_of_toOption hc
  obtain ⟨t₂, log', c', r', ha', hc', -, hr', hin, -⟩ :=
    honly _ (result_compile_iff.mpr ⟨t₁, log, c, ha, hc, rfl⟩)
  obtain ⟨rfl, rfl⟩ : t₁ = t₂ ∧ log = log' := by simpa [ha] using ha'
  obtain rfl : c = c' := by simpa [hc] using hc'
  obtain rfl : r = r' := by simpa [ok_of_toOption hr] using hr'
  exact of_decide_eq_true h hin

end Environment

end TemplateCompiler
