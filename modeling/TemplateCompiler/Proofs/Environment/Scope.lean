import TemplateCompiler.Proofs.Analysis.Passes
import TemplateCompiler.Proofs.Environment.Compile
import TemplateCompiler.Proofs.Generator.Exact
import TemplateCompiler.Proofs.Tree.Loaded

/-!
# Elements that are rendered once and the scopes around them

The code of an element that is rendered once leaves its place as a function of its own, unless the analysis
found that the element stands in a loop. The answer is right for each node that the second pass reaches, and
none of these stands in a slot definition (`scoped_of_analyse`). The pass does not look into slot
definitions, below static roots, and into a first block that is written out. An element there keeps the
answer that the tree came with, and if there was none, the element is hoisted, out of whatever loop or slot
it stands in. `scoped_compile` says so for every hoist and every once mark of a program.
-/

namespace TemplateCompiler

open Generator Analysis

/-- What `inLoop` says about the scopes around node `i`, if the analysis made `t₁` of the tree `t` with
root `r`. -/
structure Scoped (t t₁ : Tree) (r i : Nat) (inLoop : Bool) : Prop where
  loops : Reached t₁ r i → (inLoop = true ↔ ∃ a ∈ t.ancestorElements i, a.loops = true)
  slots : Reached t₁ r i → ∀ a ∈ i :: t.ancestors i, ∀ host, ¬t.Lists .slot host a
  unknown : ¬Reached t₁ r i → inLoop = (t.flags i).inLoop.truthy

/-! ## The analysis of a linked tree -/

/-- Whether an element above `i` loops. -/
def Tree.underLoop (t : Tree) (i : Nat) : Bool :=
  (t.ancestorElements i).any Element.loops

section

variable {a : Analysis} {t t₁ : Tree} {r i : Nat} {e : Element} {log : List LogRecord}
variable (hl : t.Linked) (hr : t.root = some r) (hparent : t.parent? r = none)
variable (h : t.analyse a = .ok (t₁, log))

include hl hr hparent h in
/-- What the second pass hands down to a node is whether an element above it loops. -/
theorem analysed_underLoop : Analysed (fun j b => b = t.underLoop j) t r t₁ := by
  refine analysed h hr ?_ ?_ ?_
  · rw [Tree.underLoop, Tree.ancestorElements, Tree.ancestors_of_parent?_none hparent]
    rfl
  · rintro j e _ c hj rfl hc
    have hlists : t.Lists .child j c := ⟨e, hj, hc, fun hk => Link.noConfusion hk⟩
    simp only [Tree.underLoop, Tree.ancestorElements, hl.ancestors_child hlists, List.filterMap_cons, hj,
      List.any_cons, Bool.or_comm]
  · rintro j e _ c hj rfl hc
    rcases Tree.lists_of_branchBlocks hj hc with rfl | hlists
    · rfl
    · simp only [Tree.underLoop, Tree.ancestorElements, hl.ancestors_block hlists]

include hl hr hparent h in
theorem scoped_of_analyse (hlisted : t.Unlisted r) (he : t.element? i = some e)
    (honce : e.once.truthy = true) : Scoped t t₁ r i ((t₁.flags i).inLoop.truthy) := by
  have han := analysed_underLoop hl hr hparent h
  refine ⟨fun hreached => ?_, fun hreached => ?_, fun hreached => ?_⟩
  · obtain ⟨b, rfl, hflag⟩ := han.inside i e hreached he
    rw [hflag, if_pos (by rw [honce, Bool.or_true]), Json.truthy, Tree.underLoop, List.any_eq_true]
  · exact hl.not_slot_of_visits hlisted hparent (han.visits hreached)
  · rw [han.outside i hreached]

end

/-! ## The code of a program -/

namespace Generator

/-- Watches that the flags of `t₁` decide about hoists and once marks. -/
def Watch.flags {o : Options} (hm : o.modules = CompilerModule.standard) (t₁ : Tree) : Watch o where
  tree t := ∀ j, t.flags j = t₁.flags j
  code
    | .hoist i inLoop _ => inLoop = (t₁.flags i).inLoop.truthy ∧ (t₁.flags i).hoists
    | .once i _ _ => (t₁.flags i).inLoop.truthy = true
    | _ => True
  modifyElement i f ht j := by rw [Tree.flags_modifyElement, ht]
  ordinary {c} _ hc := by
    cases c with
    | hoist | once => cases hc
    | _ => trivial
  hoist i _ ht hi ht' := ⟨by rw [ht'], ht i ▸ hi⟩
  mark i _ _ ht hi := by rw [← hi, ht]
  transform h hc := by rw [CompilerModule.transform_standard (hm ▸ h)]; exact hc

end Generator

/-- What is known of the element whose code is hoisted or marked, if it is rendered once. Only a static root is
hoisted although it stands in a loop. -/
def OnceScoped (t t₁ : Tree) (r : Nat) : Code → Prop
  | .hoist i inLoop _ => ∀ e, t.element? i = some e → e.once.truthy = true →
    Scoped t t₁ r i inLoop ∧ (inLoop = true → (t₁.flags i).root.truthy = true)
  | .once i _ _ => ∀ e, t.element? i = some e → e.once.truthy = true → Scoped t t₁ r i true
  | _ => True

theorem scoped_compile {env : Environment} (hm : env.modules = CompilerModule.standard)
    (ho : env.optimize = true) {v : Json} {t : Tree} {r : Compiled} (hv : (Tree.load v).1 = .ok t)
    (h : (env.compile t).result = .ok r) :
    ∃ t₁ log c, t.analyse env.analysis = .ok (t₁, log) ∧
      (t₁.generate env.options none).code = .ok c ∧ c.program env.names = r.program ∧
      ∀ root, t.root = some root → c.Everywhere (OnceScoped t t₁ root) := by
  obtain ⟨t₁, log, c, ha, hc, rfl⟩ := Environment.result_compile_iff.mp h
  rw [if_pos ho] at ha
  refine ⟨t₁, log, c, ha, hc, rfl, fun root hroot => ?_⟩
  obtain ⟨hl, hunlisted⟩ := Tree.linked_load hv
  obtain ⟨hlisted, hparent⟩ := hunlisted root hroot
  have hflags := (Watch.flags hm t₁).generate (fun _ => rfl) hc
  refine hflags.mono fun d hd => ?_
  cases d with
  | hoist i inLoop body =>
    intro e he honce
    obtain ⟨rfl, hhoist⟩ := hd
    refine ⟨scoped_of_analyse hl hroot hparent ha hlisted he honce, fun hloop => ?_⟩
    exact hhoist.resolve_right (by rw [hloop]; decide)
  | once i key body =>
    intro e he honce
    have hmark : (t₁.flags i).inLoop.truthy = true := hd
    exact hmark ▸ scoped_of_analyse hl hroot hparent ha hlisted he honce
  | _ => trivial

/-- The same element, rendered once, in a keyed loop and in a slot definition that binds a row. -/
def rowViews : Json :=
  let name : Json := .object
    [("tag", "p"), ("once", .bool true),
      ("children", .array [.object [("type", .int 2), ("expression", "_s(row.name)")]])]
  let rows : Json := .object
    [("tag", "li"), ("for", "rows"), ("alias", "row"), ("key", "row.id"), ("children", .array [name])]
  let slot : Json := .object
    [("tag", "template"), ("slotTarget", "\"default\""), ("slotScope", "row"),
      ("children", .array [name])]
  let view : Json := .object
    [("tag", "list-view"), ("scopedSlots", .object [("\"default\"", slot)])]
  .object [("tag", "ul"), ("children", .array [rows, view])]

/-- In the loop the element is marked with the key; out of the slot definition it is hoisted. -/
theorem scoped_compile_rowViews : ∃ t r, (Tree.load rowViews).1 = .ok t ∧ t.root = some 0 ∧
    (({} : Environment).compile t).result = .ok r ∧
    r.program.functions = ["with(this)\x7breturn _c('p',[_v(_s(row.name))])\x7d"] ∧
    ∃ t₁ log c, t.analyse ({} : Environment).analysis = .ok (t₁, log) ∧
      (t₁.generate ({} : Environment).options none).code = .ok c ∧
      c.program Names.standard = r.program ∧
      ∀ root, t.root = some root → c.Everywhere (OnceScoped t t₁ root) := by
  have h : ((Tree.load rowViews).1.toOption.bind fun t =>
      (t.analyse ({} : Environment).analysis).toOption.bind fun p =>
        (p.1.generate ({} : Environment).options none).code.toOption.map fun c =>
          decide (t.root = some 0 ∧ (c.program Names.standard).functions =
            ["with(this)\x7breturn _c('p',[_v(_s(row.name))])\x7d"])) = some true := by
    rw [Environment.analysis_standard]
    decide +kernel
  obtain ⟨t, hload, h⟩ := Option.bind_eq_some_iff.mp h
  obtain ⟨⟨t₁, log⟩, ha, h⟩ := Option.bind_eq_some_iff.mp h
  obtain ⟨c, hc, h⟩ := Option.map_eq_some_iff.mp h
  obtain ⟨hroot, hfunctions⟩ := of_decide_eq_true h
  have hcompile : (({} : Environment).compile t).result =
      .ok (({} : Environment).compiled (t₁.generate ({} : Environment).options none) c) :=
    Environment.result_compile_iff.mpr
      ⟨t₁, log, c, ok_of_toOption (x := t.analyse _) ha, ok_of_toOption hc, rfl⟩
  exact ⟨t, _, ok_of_toOption hload, hroot, hcompile, hfunctions,
    scoped_compile rfl rfl (ok_of_toOption hload) hcompile⟩

end TemplateCompiler
