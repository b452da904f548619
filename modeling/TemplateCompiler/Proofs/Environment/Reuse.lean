import TemplateCompiler.Proofs.Analysis.Repeated
import TemplateCompiler.Proofs.Environment.Compile
import TemplateCompiler.Proofs.Generator.Restored

/-!
# Compiling a tree again

A compile leaves the template as it was, whether it succeeds or a plugin gives up in the middle of it, as long as
the plugins are the standard ones or only add properties, attributes and listeners to their element
(`Environment.Additive`): generation puts the bindings back, and the analysis writes nothing but flags. The tree
with its flags is then compiled to the same result again (`compile_again`).
-/

namespace TemplateCompiler

/-! ## Plugins that add bindings -/

/-- What the ways of adding a binding make of an element. -/
inductive Element.Adds : Element → Element → Prop
  | prop (e : Element) (a : Attr) : Adds e (e.addProp a)
  | attr (e : Element) (a : Attr) : Adds e (e.addAttr a)
  | handler (e : Element) (l : Listener) : Adds e (e.addHandler l)

theorem Element.Adds.unbound {e e' : Element} (h : Adds e e') : e'.unbound = e.unbound := by
  cases h with
  | prop a => rfl
  | attr a =>
    unfold addAttr
    split <;> rfl
  | handler l => exact unbound_addHandler e l

namespace DirectivePlugin

def IsStandard (p : DirectivePlugin) : Prop :=
  ∃ names reserved, p ∈ (standard names reserved).map Prod.snd

/-- The plugin adds bindings to its element one after another, and then replies or gives up. -/
def OnlyAdds (p : DirectivePlugin) : Prop :=
  ∀ site e d, Relation.ReflTransGen Element.Adds e (p.compile site e d).element

theorem IsStandard.unbound {p : DirectivePlugin} (h : p.IsStandard) (site : Site) (e : Element)
    (d : Directive) : (p.compile site e d).element.unbound = e.unbound := by
  obtain ⟨names, reserved, hp⟩ := h
  obtain ⟨⟨name, p⟩, hentry, rfl⟩ := List.mem_map.mp hp
  have hget : Table.get? name (standard names reserved) = some p := by
    simp only [standard, List.mem_cons, List.not_mem_nil, or_false, Prod.mk.injEq] at hentry
    rcases hentry with ⟨rfl, rfl⟩ | ⟨rfl, rfl⟩ | ⟨rfl, rfl⟩ | ⟨rfl, rfl⟩ | ⟨rfl, rfl⟩ | ⟨rfl, rfl⟩ <;> rfl
  exact unbound_standard hget site e d

theorem OnlyAdds.unbound {p : DirectivePlugin} (h : p.OnlyAdds) (site : Site) (e : Element)
    (d : Directive) : (p.compile site e d).element.unbound = e.unbound := by
  have hadds := h site e d
  generalize (p.compile site e d).element = e' at hadds
  induction hadds with
  | refl => rfl
  | tail _ hstep ih => rw [hstep.unbound, ih]

end DirectivePlugin

namespace Environment

/-- The directives of the environment are standard ones and ones that only add bindings. -/
def Additive (env : Environment) : Prop :=
  ∀ entry ∈ env.directives, entry.2.IsStandard ∨ entry.2.OnlyAdds

theorem Additive.tidy {env : Environment} (h : env.Additive) : env.options.Tidy := by
  intro name p hp site e d
  rcases h _ (Table.mem_of_get? hp) with hstandard | hadds
  · exact hstandard.unbound site e d
  · exact hadds.unbound site e d

/-! ## The tree that a compile leaves -/

/-- What is generated is the template of the tree. -/
theorem unflag_prepared {env : Environment} {t t₁ : Tree} {log : List LogRecord}
    (h : (if env.optimize then t.analyse env.analysis else .ok (t, [])) = .ok (t₁, log)) :
    t₁.unflag = t.unflag := by
  split at h
  · exact Analysis.unflag_analyse h
  · cases h
    rfl

/-- A compile leaves the tree as the analysis made it. -/
theorem tree_compile {env : Environment} (henv : env.Additive) {t t₁ : Tree} {log : List LogRecord}
    (h : (if env.optimize then t.analyse env.analysis else .ok (t, [])) = .ok (t₁, log)) :
    (env.compile t).tree = t₁ := by
  have htree : (t₁.generate env.options none).tree = t₁ := Tree.tree_generate henv.tidy t₁ none
  rw [compile_eq, h]
  dsimp only
  split
  · exact htree
  · exact htree

/-- Compiling what a compile left is the same compile again. -/
theorem compile_again {env : Environment} (henv : env.Additive) (t : Tree) :
    env.compile (env.compile t).tree = env.compile t := by
  rcases h : if env.optimize then t.analyse env.analysis else .ok (t, []) with failure | ⟨t₁, log⟩
  · have htree : (env.compile t).tree = t := by
      rw [compile_eq, h]
    rw [htree]
  · rw [tree_compile henv h]
    have hagain : (if env.optimize then t₁.analyse env.analysis else .ok (t₁, [])) = .ok (t₁, log) := by
      by_cases ho : env.optimize = true
      · rw [if_pos ho] at h ⊢
        exact Analysis.analyse_again h
      · rw [if_neg ho] at h ⊢
        cases h
        rfl
    have hsize : t₁.size = t.size := Tree.size_eq_of_unflag (unflag_prepared h)
    rw [compile_eq, compile_eq, h, hagain, hsize]

theorem reusable_compile (env : Environment) (henv : env.Additive) (t : Tree) :
    (env.compile t).tree.unflag = t.unflag ∧
      ∀ r, (env.compile t).result = .ok r → (env.compile (env.compile t).tree).result = .ok r := by
  refine ⟨?_, fun r hr => by rw [compile_again henv, hr]⟩
  rcases h : if env.optimize then t.analyse env.analysis else .ok (t, []) with failure | ⟨t₁, log⟩
  · rw [compile_eq, h]
  · rw [tree_compile henv h]
    exact unflag_prepared h

/-- Asks for the focus when its value turns true, and gives up without a value. -/
def focus : DirectivePlugin :=
  { kind := .custom "focus"
    compile := fun _ e d =>
      { element := ((e.addAttr { name := "tabindex", value := "0" }).addProp
          { name := "autofocus", value := d.value }).addHandler { name := "input", value := "touch" }
        reply := if d.value.truthy then .ok (.bool false) else .error .unimplemented } }

theorem onlyAdds_focus : focus.OnlyAdds := by
  intro site e d
  exact .tail (.tail (.single (.attr e _)) (.prop _ { name := "autofocus", value := d.value }))
    (.handler _ { name := "input", value := "touch" })

def focusing : Environment :=
  { directives := ("focus", focus) :: DirectivePlugin.standard Names.standard Tag.isReserved }

theorem additive_focusing : focusing.Additive := by
  intro entry hentry
  rcases List.mem_cons.mp hentry with rfl | hentry
  · exact .inr onlyAdds_focus
  · exact .inl ⟨Names.standard, Tag.isReserved, List.mem_map_of_mem hentry⟩

/-- A component with bindings of its own whose slot definition has an input with two directives. -/
def signup (focus : List (String × Json)) : Json :=
  let directive (name : String) (fields : List (String × Json)) : Json :=
    .object ([("name", .string name), ("rawName", .string ("v-" ++ name))] ++ fields)
  let input : Json := .object
    [("tag", "input"), ("plain", .bool false), ("events", .object [("input", .object [("value", "check")])]),
      ("directives", .array [directive "model" [("value", "user.name")], directive "focus" focus])]
  let slot : Json := .object
    [("tag", "template"), ("slotTarget", "\"default\""), ("children", .array [input])]
  .object
    [("tag", "sign-up"), ("directives", .array [directive "on" [("value", "listeners")]]),
      ("scopedSlots", .object [("\"default\"", slot)])]

/-- The tree stays the same if the plugin succeeds, and if it gives up in the slot definition while the component
has its listeners bound. -/
theorem reusable_compile_signup :
    (∃ t r, (Tree.load (signup [("value", "ready")])).1 = .ok t ∧
      (focusing.compile t).result = .ok r ∧ (focusing.compile t).tree.unflag = t.unflag ∧
      (focusing.compile (focusing.compile t).tree).result = .ok r) ∧
    ∃ t, (Tree.load (signup [])).1 = .ok t ∧ (focusing.compile t).result = .error .unimplemented ∧
      (focusing.compile t).tree.unflag = t.unflag := by
  have hgood : ((Tree.load (signup [("value", "ready")])).1.toOption.bind fun t =>
      (focusing.compile t).result.toOption.map fun _ => true) = some true := by
    decide +kernel
  have hbad : ((Tree.load (signup [])).1.toOption.map fun t =>
      match (focusing.compile t).result with
      | .ok _ => none
      | .error failure => some failure) = some (some .unimplemented) := by
    decide +kernel
  refine ⟨?_, ?_⟩
  · obtain ⟨t, hload, h⟩ := Option.bind_eq_some_iff.mp hgood
    obtain ⟨r, hr, -⟩ := Option.map_eq_some_iff.mp h
    obtain ⟨htree, hagain⟩ := reusable_compile focusing additive_focusing t
    exact ⟨t, r, ok_of_toOption hload, ok_of_toOption hr, htree, hagain r (ok_of_toOption hr)⟩
  · obtain ⟨t, hload, h⟩ := Option.map_eq_some_iff.mp hbad
    refine ⟨t, ok_of_toOption hload, ?_, (reusable_compile focusing additive_focusing t).1⟩
    split at h
    · cases h
    · next failure hfailure =>
      cases h
      exact hfailure

end Environment

end TemplateCompiler
