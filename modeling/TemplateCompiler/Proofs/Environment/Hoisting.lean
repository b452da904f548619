import TemplateCompiler.Proofs.Code.Lift
import TemplateCompiler.Proofs.Code.References
import TemplateCompiler.Proofs.Environment.Compile
import TemplateCompiler.Proofs.Environment.Reuse
import TemplateCompiler.Proofs.Generator.HoistCount
import TemplateCompiler.Proofs.Tree.Loaded

/-!
# One function for an element

`Code.owners` lists the elements for which functions are lifted, in the order of the functions. In the program of a
loaded template every element has one function at most, and no function is a bare call of another one for the same
element, except for elements that are static roots and rendered once outside of loops: these may have two
(`hoisted_compile`).
-/

namespace TemplateCompiler

namespace Code

/-- The elements of the hoists that lifting takes out, in this order. -/
def owners : Code → List Nat
  | append a b => a.owners ++ b.owners
  | create _ true _ data children => children.owners ++ data.owners
  | create _ false _ data children => data.owners ++ children.owners
  | branch _ _ yes no => yes.owners ++ no.owners
  | loop _ _ _ body | fragment _ body | outlet _ body | slots _ body _ | once _ _ body
  | memo _ _ body | rewritten _ body => body.owners
  | hoist i _ body => body.owners ++ [i]
  | text _ | helper _ | call _ _ | inline _ | unit _ => []

theorem length_hoisted (c : Code) (s : Lifted) : (c.hoisted s).length = c.owners.length := by
  induction c generalizing s with
  | append a b iha ihb => simp [hoisted, owners, iha, ihb]
  | create _ dynamic _ _ _ ihd ihc => cases dynamic <;> simp [hoisted, owners, ihd, ihc]
  | branch _ _ _ _ ihy ihn => simp [hoisted, owners, ihy, ihn]
  | hoist _ _ _ ih | loop _ _ _ _ ih | fragment _ _ ih | outlet _ _ ih | slots _ _ _ ih | once _ _ _ ih
  | memo _ _ _ ih | rewritten _ _ ih => simp [hoisted, owners, ih]
  | text | helper | call | inline | unit => rfl

/-- There is a function for each owner. -/
theorem length_functions (names : Names) (c : Code) : (c.program names).functions.length = c.owners.length := by
  simp [program, lift_functions, length_hoisted]

theorem count_owners_le (c : Code) (i : Nat) : c.owners.count i ≤ c.marks.count (.hoist i) := by
  induction c with
  | append a b iha ihb => simpa [owners, marks] using Nat.add_le_add iha ihb
  | create _ dynamic _ _ _ ihd ihc =>
    cases dynamic
    · simpa [owners, marks] using Nat.add_le_add ihd ihc
    · simpa [owners, marks, Nat.add_comm] using Nat.add_le_add ihd ihc
  | branch _ _ _ _ ihy ihn => simpa [owners, marks] using Nat.add_le_add ihy ihn
  | hoist j _ body ih =>
    rw [owners, marks, List.count_append, Multiset.count_cons, List.count_singleton]
    refine Nat.add_le_add ih ?_
    by_cases hij : j = i
    · simp [hij]
    · simp [hij, Ne.symm hij]
  | outlet j body ih => simpa [owners, marks] using ih
  | loop _ _ _ _ ih | fragment _ _ ih | slots _ _ _ ih | once _ _ _ ih | memo _ _ _ ih
  | rewritten _ _ ih => exact ih
  | text | helper | call | inline | unit => exact Nat.zero_le _

/-- The marks of a part of code are marks of the code. -/
theorem everywhere_marks_le {c : Code} {m : Multiset Mark} (h : c.marks ≤ m) :
    c.Everywhere fun d => d.marks ≤ m := by
  induction c with
  | append a b iha ihb | create _ _ _ a b iha ihb | branch _ _ a b iha ihb =>
    exact ⟨h, iha ((Multiset.le_add_right ..).trans h), ihb ((Multiset.le_add_left ..).trans h)⟩
  | hoist _ _ _ ih | outlet _ _ ih => exact ⟨h, ih ((Multiset.le_cons_self ..).trans h)⟩
  | loop _ _ _ _ ih | fragment _ _ ih | slots _ _ _ ih | once _ _ _ ih | memo _ _ _ ih | inline _ ih
  | unit _ ih | rewritten _ _ ih => exact ⟨h, ih h⟩
  | text | helper | call => exact h

end Code

open Generator

/-- In the program of a loaded template, where no element is a later block of its own chain, an element has as
many functions at most as hoists, and no more than one hoist, in inline templates too; and no hoist is a bare
call of another one for the same element. An element that the analysis left as a static root outside of loops and
that is rendered once is the exception, with two hoists at most. -/
theorem Environment.hoisted_compile {env : Environment} (ho : env.options.Tidy) (hm : env.options.Unmarking)
    {v : Json} {t : Tree} {r : Compiled} (hv : (Tree.load v).1 = .ok t)
    (hself : ∀ i e, t.element? i = some e → i ∉ e.branchBlocks) (hr : (env.compile t).result = .ok r) :
    ∃ t₁ log c, (if env.optimize then t.analyse env.analysis else .ok (t, [])) = .ok (t₁, log) ∧
      (t₁.generate env.options none).code = .ok c ∧ r.program = c.program env.names ∧
      r.program.functions.length = c.owners.length ∧
      ∀ i, c.owners.count i ≤ c.marks.count (.hoist i) ∧ c.marks.count (.hoist i) ≤ 2 ∧
        (¬Twofold t₁ i → c.marks.count (.hoist i) ≤ 1 ∧
          c.Everywhere fun d => ∀ inLoop inLoop' body, d ≠ .hoist i inLoop (.hoist i inLoop' body)) := by
  obtain ⟨t₁, log, c, ha, hc, rfl⟩ := result_compile_iff.mp hr
  have hu : t₁.unflag = t.unflag := unflag_prepared ha
  have hw : t₁.WellFormed := (Tree.wellFormed_load hv).of_unflag hu
  have hself₁ (i : Nat) (e : Element) (he : t₁.element? i = some e) : i ∉ e.branchBlocks :=
    hself i e (by rwa [← Tree.element?_eq_of_unflag hu])
  have hcount (i : Nat) : c.marks.count (.hoist i) ≤ 2 ∧ (¬Twofold t₁ i → c.marks.count (.hoist i) ≤ 1) := by
    rcases marks_generate ho hm hc with hzero | ⟨j, hle⟩
    · simp [hzero]
    · have hmono := Multiset.count_le_of_le (.hoist i) hle
      obtain ⟨htwo, hone⟩ := count_budget hw hself₁ i (depth t₁) j
      exact ⟨hmono.trans htwo, fun h => hmono.trans (hone h)⟩
  refine ⟨t₁, log, c, ha, hc, rfl, Code.length_functions env.names c, fun i => ?_⟩
  refine ⟨c.count_owners_le i, (hcount i).1, fun h => ⟨(hcount i).2 h, ?_⟩⟩
  refine (Code.everywhere_marks_le (c := c) le_rfl).mono ?_
  rintro d hd inLoop inLoop' body rfl
  -- A hoist in a hoist of the same element would count twice.
  have htwice : 2 ≤ c.marks.count (.hoist i) := by
    refine le_trans ?_ (Multiset.count_le_of_le (.hoist i) hd)
    simp [Code.marks]
  exact absurd (htwice.trans ((hcount i).2 h)) (by decide)

/-- Two paragraphs that are rendered once, the first of them verbatim and so a static root as well. -/
def notices : Json :=
  let bold : Json := .object [("tag", "b")]
  let verbatim : Json := .object
    [("tag", "p"), ("pre", .bool true), ("once", .bool true), ("children", .array [bold])]
  let name : Json := .object [("type", .int 2), ("expression", "_s(name)")]
  .object [("tag", "div"), ("children", .array
    [verbatim, .object [("tag", "p"), ("once", .bool true), ("children", .array [name])]])]

/-- The first paragraph has two functions, one of which calls the other, and the second has one. -/
theorem Environment.hoisted_compile_notices : ∃ t r, ∃ c : Code, (Tree.load notices).1 = .ok t ∧
    (({} : Environment).compile t).result = .ok r ∧ r.program = c.program Names.standard ∧
    r.program.functions = ["with(this)\x7breturn _c('p',[_c('b')])\x7d",
      "with(this)\x7breturn _m(0)\x7d", "with(this)\x7breturn _c('p',[_v(_s(name))])\x7d"] ∧
    c.owners = [1, 1, 3] ∧ c.marks.count (.hoist 1) ≤ 2 ∧ c.marks.count (.hoist 3) ≤ 1 := by
  have h : ((Tree.load notices).1.toOption.bind fun t =>
      (t.analyse ({} : Environment).analysis).toOption.bind fun p =>
        (p.1.generate ({} : Environment).options none).code.toOption.map fun c =>
          decide ((∀ i < t.size, ∀ e ∈ t.element? i, i ∉ e.branchBlocks) ∧ (p.1.flags 3).root.truthy = false ∧
            c.owners = [1, 1, 3] ∧ (c.program Names.standard).functions =
              ["with(this)\x7breturn _c('p',[_c('b')])\x7d", "with(this)\x7breturn _m(0)\x7d",
                "with(this)\x7breturn _c('p',[_v(_s(name))])\x7d"])) = some true := by
    rw [Environment.analysis_standard]
    decide +kernel
  obtain ⟨t, hload, h⟩ := Option.bind_eq_some_iff.mp h
  obtain ⟨⟨t₁, log⟩, ha, h⟩ := Option.bind_eq_some_iff.mp h
  obtain ⟨c, hc, h⟩ := Option.map_eq_some_iff.mp h
  obtain ⟨hself, hroot, howners, hfunctions⟩ := of_decide_eq_true h
  have hcompile : (({} : Environment).compile t).result =
      .ok (({} : Environment).compiled (t₁.generate ({} : Environment).options none) c) :=
    result_compile_iff.mpr ⟨t₁, log, c, ok_of_toOption (x := t.analyse _) ha, ok_of_toOption hc, rfl⟩
  obtain ⟨t₂, log₂, c₂, ha₂, hc₂, -, -, hcount⟩ := hoisted_compile (Options.tidy_standard rfl)
    (Options.unmarking_standard rfl) (ok_of_toOption hload)
    (fun i e he => hself i (Tree.lt_size_of_element? he) e he) hcompile
  have hsame := ha₂.symm.trans (ok_of_toOption (x := t.analyse _) ha)
  rw [Except.ok.injEq, Prod.mk.injEq] at hsame
  obtain ⟨rfl, rfl⟩ := hsame
  obtain rfl := Except.ok.inj (hc₂.symm.trans (ok_of_toOption hc))
  refine ⟨t, _, c₂, ok_of_toOption hload, hcompile, rfl, hfunctions, howners, (hcount 1).2.1, ?_⟩
  refine ((hcount 3).2.2 fun htwofold => ?_).1
  exact absurd (hroot.symm.trans htwofold.1) (by decide)

end TemplateCompiler
