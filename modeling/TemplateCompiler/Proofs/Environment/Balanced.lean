import TemplateCompiler.Proofs.Environment.Reuse
import TemplateCompiler.Proofs.Generator.Bracketed
import TemplateCompiler.Proofs.Plugin.Bracketed

/-!
# Compiled programs are well bracketed

With the standard modules and directives, the functions that a bracketed tree is compiled to are balanced
(`Environment.balanced_compile`): the analysis changes flags only, generation gives bracketed code, and lifting
and rendering keep that.
-/

namespace TemplateCompiler

open Text ModelPath

/-! ## Standard environments -/

/-- The names of helpers are balanced, and all modules and directives are standard ones, each directive under
its own name. -/
structure Environment.Standard (env : Environment) : Prop where
  names : env.names.Balanced
  modules : ∀ m ∈ env.modules, m ∈ CompilerModule.standard
  directives : ∀ name p, Table.get? name env.directives = some p →
    ∃ names reserved, names.Balanced ∧ Table.get? name (DirectivePlugin.standard names reserved) = some p

theorem Environment.Standard.bracketing {env : Environment} (h : env.Standard) : env.options.Bracketing where
  modules m hm := CompilerModule.bracketing_standard m (h.modules m hm)
  directives hp site _ he hd ht := by
    obtain ⟨names, reserved, hn, hp⟩ := h.directives _ _ hp
    exact bracketed_standard hn hp site he hd ht

theorem Names.balanced_standard : Names.standard.Balanced := by
  intro h
  cases h <;> decide

theorem Environment.standard_default : ({} : Environment).Standard where
  names := Names.balanced_standard
  modules _ hm := hm
  directives _ _ hp := ⟨Names.standard, Tag.isReserved, Names.balanced_standard, hp⟩

/-! ## Checking a tree -/

/-- Whether a node is printable and the targets of its two-way bindings are among those given. -/
def Node.printsWith (targets : List String) (n : Node) : Bool :=
  match n.content with
  | .element e => decide (e.Printable ∧ ∀ d ∈ e.directives, ∀ s ∈ d.target?, s ∈ targets)
  | .expression code _ => decide code.IsCode
  | .text _ | .comment _ => true

theorem Tree.bracketed_of_printsWith {t : Tree} {targets : List String} (hpaths : ∀ s ∈ targets, MemberPath s)
    (h : ∀ n ∈ t.nodes.toList, n.printsWith targets = true) : t.Bracketed := by
  intro i n hn
  have hprints := h n (Array.mem_toList_iff.mpr (Array.mem_of_getElem? hn))
  unfold Node.printsWith at hprints
  unfold Node.Bracketed
  rcases hc : n.content with e | _ | _ | _ <;> simp only [hc] at hprints ⊢
  · obtain ⟨hprintable, htargets⟩ := of_decide_eq_true hprints
    exact ⟨hprintable, fun d hd s hs => .inr (hpaths s (htargets d hd s hs))⟩
  · exact of_decide_eq_true hprints

/-! ## Compiling -/

namespace Environment

/-- The functions of a compiled program are balanced. -/
theorem balanced_compile {env : Environment} (henv : env.Standard) {t : Tree} (ht : t.Bracketed)
    {r : Compiled} (h : (env.compile t).result = .ok r) :
    Balanced r.program.render ∧ ∀ f ∈ r.program.functions, Balanced f := by
  obtain ⟨t₁, log, c, hprepared, hc, rfl⟩ := result_compile_iff.mp h
  have ht₁ : t₁.Bracketed := ht.of_unflag (unflag_prepared hprepared)
  exact Code.balanced_program henv.names (ht₁.generate henv.bracketing hc)

/-- A form with a two-way binding, a listener with modifiers, a slot definition, and a list that is hoisted. -/
def order : Json :=
  let text (s : String) : Json := .object [("type", .int 3), ("text", .string s)]
  let model : Json := .object
    [("name", "model"), ("value", "form.items[at('a')].name"), ("modifiers", .object [("number", .bool true)])]
  let input : Json := .object
    [("tag", "input"), ("plain", .bool false), ("directives", .array [model]),
      ("attrsMap", .object [("type", "radio"), (":value", "item[0]")])]
  let click : Json := .object
    [("value", "add(')', \"[\")"),
      ("modifiers", .object [("exact", .bool true), ("enter", .bool true), ("](\"", .bool true)])]
  let button : Json := .object
    [("tag", "button"), ("plain", .bool false), ("staticClass", "\"big\""), ("events", .object [("click", click)]),
      ("children", .array [text "Add :) \" \\"])]
  let row : Json := .object
    [("tag", "template"), ("slotTarget", "\"row\""), ("slotScope", "\x7b item \x7d"), ("if", "open[0]"),
      ("children", .array [.object [("type", .int 2), ("expression", "_s(item.name)")], input])]
  let rows : Json := .object
    [("tag", "order-rows"), ("scopedSlots", .object [("\"row\"", row)])]
  let item (s : String) : Json := .object [("tag", "li"), ("children", .array [text s])]
  .object [("tag", "form"), ("children", .array
    [rows, button, .object [("tag", "ul"), ("children", .array [item "it's (", item "]"])]])]

theorem balanced_compile_order : ∃ t r, (Tree.load order).1 = .ok t ∧ t.Bracketed ∧
    (compile {} t).result = .ok r ∧ r.program.functions.length = 1 ∧
    Balanced r.program.render ∧ ∀ f ∈ r.program.functions, Balanced f := by
  have h : ((Tree.load order).1.toOption.bind fun t =>
      (t.analyse ({} : Environment).analysis).toOption.bind fun p =>
        (p.1.generate ({} : Environment).options none).code.toOption.map fun c =>
          decide ((∀ n ∈ t.nodes.toList, n.printsWith ["form.items[at('a')].name"] = true) ∧
            (c.program Names.standard).functions.length = 1)) = some true := by
    rw [analysis_standard]
    decide +kernel
  obtain ⟨t, hload, h⟩ := Option.bind_eq_some_iff.mp h
  obtain ⟨⟨t₁, log⟩, ha, h⟩ := Option.bind_eq_some_iff.mp h
  obtain ⟨c, hc, h⟩ := Option.map_eq_some_iff.mp h
  obtain ⟨hprints, hfunctions⟩ := of_decide_eq_true h
  have hr : (compile {} t).result = .ok _ := result_compile_iff.mpr
    ⟨t₁, log, c, ok_of_toOption ha, ok_of_toOption hc, rfl⟩
  have hpath : MemberPath ("form" ++ "." ++ "items" ++ "[" ++ "at('a')" ++ "]" ++ "." ++ "name") :=
    .point (.index (.point (.name (by decide)) (by decide)) (by decide) (by decide)) (by decide)
  have ht : t.Bracketed := Tree.bracketed_of_printsWith (List.forall_mem_singleton.mpr hpath) hprints
  exact ⟨t, _, ok_of_toOption hload, ht, hr, hfunctions, balanced_compile standard_default ht hr⟩

end Environment

end TemplateCompiler
