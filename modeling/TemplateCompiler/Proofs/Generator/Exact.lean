import TemplateCompiler.Proofs.Code.References
import TemplateCompiler.Proofs.Generator.Lifts
import TemplateCompiler.Proofs.Generator.Watch

/-!
# The calls and once marks of generated programs

The emitters write code that nothing has been lifted from, unless a module puts something else there.
Lifting numbers the hoists and the once marks of such code exactly (`exact_marked`), and the inline
templates in it, which have numbers of their own, are exact too (`exactUnit_lift`). A generator that numbers
on the way comes to the same code and the same functions, so all this holds of what it returns.
-/

namespace TemplateCompiler

/-- The standard modules leave the code of an element as it is. -/
theorem CompilerModule.transform_standard {m : CompilerModule} (hm : m ∈ standard) (e : Element)
    (c : Code) : m.transform e c = c := by
  simp only [standard, List.mem_cons, List.not_mem_nil, or_false] at hm
  rcases hm with rfl | rfl <;> rfl

namespace Generator

/-- Watches that nothing is lifted yet. -/
def Watch.raw {o : Options} (hm : o.modules = CompilerModule.standard) : Watch o where
  tree _ := True
  code c := c.isProcessed = false
  modifyElement _ _ _ := trivial
  ordinary h _ := h
  hoist _ _ _ _ _ := rfl
  mark _ _ _ _ _ := rfl
  transform h hc := by rw [CompilerModule.transform_standard (hm ▸ h)]; exact hc

end Generator

open Generator

/-- The functions of a generated program and of the inline templates in it are called exactly once
each, only by what comes after them, and the once marks are numbered without gaps. -/
theorem Tree.exact_generate (t : Tree) (o : Options) (root : Option Nat) (names : Names)
    (hm : o.modules = CompilerModule.standard) {main : Code} {lifted : Lifted}
    (hmain : (t.generate (p := .numbered) o root).code = .ok main)
    (hlifted : (t.generate (p := .numbered) o root).lifted = lifted) :
    (MarkedProgram.ofLifted names main lifted.functions).program names = lifted.program names main ∧
      (MarkedProgram.ofLifted names main lifted.functions).Exact ∧
      ∀ c ∈ main :: lifted.functions, c.Everywhere (Code.ExactUnit names) := by
  obtain ⟨c, hc, hnumbered⟩ | ⟨f, l, hf, hnumbered⟩ := t.generate_numbered o root
  · rw [hnumbered] at hmain hlifted
    cases hmain
    cases hlifted
    have hraw : c.Raw := (Watch.raw hm).generate trivial hc
    exact ⟨MarkedProgram.program_ofLifted .., exact_marked names hraw,
      exactUnit_lift names hraw (List.forall_mem_nil _)⟩
  · rw [hnumbered] at hmain
    cases hf.symm.trans hmain

/-- A static root, and in a loop an inline template that is rendered once for each key. -/
def Tree.catalogue : Tree where
  nodes := #[
    { content := .element { tag := "div", plain := .bool true, children := [1, 2] } },
    { parent := some 0, flags := { root := .bool true, inLoop := .bool false },
      content := .element { tag := "hr", plain := .bool true } },
    { parent := some 0, content := .element
        { tag := "shop", forSource := "shops", forAlias := "shop", key := "shop.id",
          inlineTemplate := .bool true, children := [3] } },
    { parent := some 2, flags := { inLoop := .bool true },
      content := .element { tag := "p", once := .bool true, plain := .bool true } }]
  root := some 0

/-- The main function calls the only function, and the inline template has a once mark of its own. -/
def Tree.catalogueProgram : Program where
  render := "with(this)\x7breturn _c('div',[_m(0),_l((shops),function(shop)\x7breturn _c('shop',\x7bkey:shop.id," ++
    "inlineTemplate:\x7brender:function()\x7bwith(this)\x7breturn _o(_c('p'),0,shop.id)\x7d\x7d," ++
    "staticRenderFns:[]\x7d\x7d)\x7d)],2)\x7d"
  functions := ["with(this)\x7breturn _c('hr')\x7d"]

theorem Tree.exact_generate_catalogue : ∃ (main : Code) (lifted : Lifted),
    (Tree.catalogue.generate (p := .numbered) { modules := CompilerModule.standard } none).code = .ok main ∧
    (Tree.catalogue.generate (p := .numbered) { modules := CompilerModule.standard } none).lifted = lifted ∧
    lifted.program Names.standard main = catalogueProgram ∧
    (MarkedProgram.ofLifted Names.standard main lifted.functions).Exact ∧
    ∀ c ∈ main :: lifted.functions, c.Everywhere (Code.ExactUnit Names.standard) := by
  have h : (Tree.catalogue.generate (p := .numbered) { modules := CompilerModule.standard } none).code.toOption.map
      (fun main => Lifted.program Names.standard main
        (Tree.catalogue.generate (p := .numbered) { modules := CompilerModule.standard } none).lifted) =
      some catalogueProgram := by
    decide +kernel
  rcases hmain : (Tree.catalogue.generate (p := .numbered) { modules := CompilerModule.standard } none).code with
    f | main
  · rw [hmain] at h
    cases h
  · rw [hmain, Except.toOption, Option.map_some, Option.some.injEq] at h
    exact ⟨main, _, rfl, rfl, h, (Tree.exact_generate _ _ none Names.standard rfl hmain rfl).2⟩

end TemplateCompiler
