import TemplateCompiler.Proofs.Generator.Coupling
import TemplateCompiler.Proofs.Generator.Verbatim
import TemplateCompiler.Proofs.Tree.Arena

/-!
# Plain elements have no data

An element that is plain is written without its data object. What is left out is the empty object. An element starts
out plain only if it has nothing that its data shows, and every call that gives it something says that it is no longer
plain, so a plain element has nothing (`Tree.Furnished.dataless`). The data of such an element is `Code.emptyObject`
(`Generator.outcome_emitData`), and it is written in the same state as without (`Generator.plain_without_data`).
-/

namespace TemplateCompiler

/-! ## Elements with nothing to show -/

/-- Nothing that the data of an element shows is set. -/
structure Element.Dataless (e : Element) : Prop where
  key : e.key.truthy = false
  ref : e.ref.truthy = false
  refInFor : e.refInFor.truthy = false
  component : e.component.truthy = false
  staticClass : e.staticClass.truthy = false
  classBinding : e.classBinding.truthy = false
  staticStyle : e.staticStyle.truthy = false
  styleBinding : e.styleBinding.truthy = false
  slotTarget : e.slotTarget.truthy = false
  inlineTemplate : e.inlineTemplate.truthy = false
  attrs : e.attrs.getD [] = []
  dynamicAttrs : e.dynamicAttrs.getD [] = []
  props : e.props = []
  events : e.events = []
  nativeEvents : e.nativeEvents = []
  scopedSlots : e.scopedSlots = []
  directives : e.directives = []
  model : e.model = none
  wrapData : e.wrapData = none
  wrapListeners : e.wrapListeners = none

theorem Element.Dataless.listing {e : Element} (h : e.Dataless) (children : List Nat) (conditions : List Condition) :
    Element.Dataless { e with children := children, conditions := conditions } :=
  { h with }

/-- Under which key, how often and under which test an element is rendered. -/
structure Occasion where
  key : Json := .null
  forSource : Json := .null
  forAlias : Json := .null
  iterator1 : Json := .null
  iterator2 : Json := .null
  ifExpr : Json := .null
  elseIf : Json := .null
  isElse : Json := .bool false
  once : Json := .bool false
  conditions : List Condition := []

/-- The element, rendered on another occasion. -/
def Element.during (e : Element) (o : Occasion) : Element :=
  { e with
    key := o.key
    forSource := o.forSource
    forAlias := o.forAlias
    iterator1 := o.iterator1
    iterator2 := o.iterator2
    ifExpr := o.ifExpr
    elseIf := o.elseIf
    isElse := o.isElse
    once := o.once
    conditions := o.conditions }

/-- A draft whose further fields say on which occasion the element is rendered, and nothing else. -/
structure Draft.Occasional (d : Draft) : Prop where
  fill : ∀ e : Element, ∃ o, (d.fill (.ofElement e)).element? = some (e.during o)
  plain : d.plain = none

theorem Element.seedConditions_eq (i : Nat) (e : Element) :
    ∃ conditions, e.seedConditions i = { e with conditions := conditions } := by
  unfold Element.seedConditions
  split
  · exact ⟨_, rfl⟩
  · exact ⟨e.conditions, rfl⟩

/-- A new element that is plain has nothing to show. -/
theorem Draft.dataless_node {d : Draft} (hd : d.Occasional) {prepare : Element → Element}
    (hprepare : ∀ e, ∃ o, prepare e = e.during o) {i : Nat} {e : Element}
    (he : ((d.node prepare).mapElement (Element.seedConditions i)).element? = some e)
    (hplain : e.plain.truthy = true) : e.Dataless := by
  unfold Draft.node at he
  simp only [Node.element?_mapElement] at he
  obtain ⟨o, ho⟩ := hd.fill (prepare _)
  obtain ⟨o', ho'⟩ := hprepare _
  rw [ho, ho', hd.plain] at he
  obtain ⟨conditions, hseed⟩ := Element.seedConditions_eq i _
  obtain rfl := hseed.symm.trans (Option.some.inj he)
  have hkey : o.key.truthy = false := by
    have h : (!o.key.truthy && true && List.isEmpty _) = true := hplain
    rw [Bool.and_true, Bool.and_eq_true, Bool.not_eq_true'] at h
    exact h.1
  constructor
  case key => exact hkey
  all_goals rfl

/-! ## Calls that furnish an element -/

namespace Tree

/-- The trees in which element `i` was added by a draft that says on which occasion it is rendered, and then furnished
by calls. Anything else that happened to the tree left the element as it was, apart from its children and its
conditional chain. -/
inductive Furnished (i : Nat) : Tree → Prop
  | element {t : Tree} {d : Draft} {parent : Option Nat} (hd : d.Occasional) (hi : (t.addElement d parent).2 = i) :
      Furnished i (t.addElement d parent).1
  | branch {t : Tree} {owner : Nat} {expression : Json} {d : Draft} (hd : d.Occasional)
      (hi : (t.addBranch owner expression d).2 = i) : Furnished i (t.addBranch owner expression d).1
  | prop {t : Tree} (h : Furnished i t) (a : Attr) : Furnished i (t.modifyElement i (·.addProp a))
  | attr {t : Tree} (h : Furnished i t) (a : Attr) : Furnished i (t.modifyElement i (·.addAttr a))
  | rawAttr {t : Tree} (h : Furnished i t) (a : Attr) : Furnished i (t.modifyElement i (·.addRawAttr a))
  | directive {t : Tree} (h : Furnished i t) (d : Directive) : Furnished i (t.modifyElement i (·.addDirective d))
  | handler {t : Tree} (h : Furnished i t) (l : Listener) : Furnished i (t.modifyElement i (·.addHandler l))
  | scopedSlot {t : Tree} (h : Furnished i t) (target scope dynamic : Json) (d : Draft) :
      Furnished i (t.addScopedSlot i target scope dynamic d).1
  | elsewhere {t u : Tree} (h : Furnished i t) (hu : ∀ e, u.element? i = some e → ∃ e₀ children conditions,
      t.element? i = some e₀ ∧ e = { e₀ with children := children, conditions := conditions }) : Furnished i u

variable {t : Tree} {i : Nat} {e : Element}

/-- A call to which an element answers by no longer being plain. -/
theorem not_plain_modifyElement {f : Element → Element} (hf : ∀ e, (f e).plain = .bool false)
    (he : (t.modifyElement i f).element? i = some e) : e.plain.truthy = false := by
  rw [element?_modifyElement, if_pos rfl] at he
  obtain ⟨e₀, -, rfl⟩ := Option.map_eq_some_iff.mp he
  rw [hf]
  rfl

theorem element?_adopt_self (t : Tree) (n : Node) (parent : Option Nat) :
    (t.adopt n parent).1.element? t.size = n.element? := by
  rw [Tree.element?, Loader.node?_adopt, if_pos rfl]
  rfl

/-- The element of a new node, which may have been listed since then. -/
theorem element?_attach_self {n : Node} {parent : Option Nat} (he : (t.attach n parent).1.element? t.size = some e) :
    ∃ e₀ children, n.element? = some e₀ ∧ e = { e₀ with children := children } := by
  cases parent with
  | none =>
    have hn : (t.attach n none).1.element? t.size = n.element? := by
      rw [← element?_adopt_self t n none]
      unfold attach
      dsimp only
      split <;> rfl
    exact ⟨e, e.children, hn.symm.trans he, rfl⟩
  | some p =>
    have he : ((t.adopt n (some p)).1.modifyElement p fun e => { e with children := e.children ++ [t.size] }).element?
      t.size = some e := he
    rw [element?_modifyElement, element?_adopt_self] at he
    split at he
    · obtain ⟨e₀, hn, rfl⟩ := Option.map_eq_some_iff.mp he
      exact ⟨e₀, _, hn, rfl⟩
    · exact ⟨e, e.children, he, rfl⟩

/-- The element of a new branch, which may belong to its own chain. -/
theorem element?_addCondition {owner : Nat} {c : Condition} (he : (t.addCondition owner c).element? i = some e) :
    ∃ e₀ conditions, t.element? i = some e₀ ∧ e = { e₀ with conditions := conditions } := by
  rw [addCondition, element?_modifyElement] at he
  split at he
  · obtain ⟨e₀, hn, rfl⟩ := Option.map_eq_some_iff.mp he
    exact ⟨e₀, _, hn, rfl⟩
  · exact ⟨e, e.conditions, he, rfl⟩

/-- A furnished element that is plain has nothing to show. -/
theorem Furnished.dataless (h : t.Furnished i) (he : t.element? i = some e) (hplain : e.plain.truthy = true) :
    e.Dataless := by
  have unplain {t : Tree} {f : Element → Element} {e : Element} (hf : ∀ e, (f e).plain = .bool false)
      (he : (t.modifyElement i f).element? i = some e) (hplain : e.plain.truthy = true) : e.Dataless :=
    absurd ((not_plain_modifyElement hf he).symm.trans hplain) Bool.false_ne_true
  induction h generalizing e with
  | @element t d parent hd hi =>
    obtain rfl : t.size = i := (index_attach ..).symm.trans hi
    obtain ⟨e₀, children, he₀, rfl⟩ := element?_attach_self he
    have h₀ : e₀.Dataless := Draft.dataless_node hd (fun e => ⟨{ e with }, rfl⟩) he₀ hplain
    exact h₀.listing children _
  | @branch t owner expression d hd hi =>
    subst hi
    obtain ⟨e₀, conditions, he₀, rfl⟩ := element?_addCondition he
    have h₀ : e₀.Dataless := by
      refine Draft.dataless_node hd (fun e => ?_) ((element?_adopt_self ..).symm.trans he₀) hplain
      by_cases hnull : expression.isNull
      · exact ⟨{ e with isElse := .bool true }, if_pos hnull⟩
      · exact ⟨{ e with elseIf := expression }, if_neg hnull⟩
    exact h₀.listing _ conditions
  | prop => exact unplain (fun _ => rfl) he hplain
  | attr =>
    refine unplain (fun e => ?_) he hplain
    unfold Element.addAttr
    split <;> rfl
  | @rawAttr t _ a ih =>
    rw [element?_modifyElement, if_pos rfl] at he
    obtain ⟨e₀, he₀, rfl⟩ := Option.map_eq_some_iff.mp he
    exact { ih he₀ hplain with }
  | directive => exact unplain (fun _ => rfl) he hplain
  | handler _ l =>
    refine unplain (fun e => ?_) he hplain
    unfold Element.addHandler
    dsimp only
    split <;> rfl
  | scopedSlot => exact unplain (fun _ => rfl) he hplain
  | elsewhere _ hu ih =>
    obtain ⟨e₀, children, conditions, he₀, rfl⟩ := hu e he
    exact (ih he₀ hplain).listing children conditions

end Tree

/-! ## The data of a plain element -/

theorem Json.filled?_eq_none {v : Json} (h : v.truthy = false) : v.filled? = none := by
  unfold Json.filled?
  rw [h]
  rfl

/-- An object without entries. -/
def Code.emptyObject : Code :=
  Code.text "\x7b" ++ Code.empty ++ Code.text "\x7d"

@[simp] theorem Code.render_emptyObject (names : Names) : Code.emptyObject.render names = "\x7b\x7d" := rfl

namespace Generator

variable {o : Options} {self : Emit} {i : Nat} {e : Element} {g : Generation}

/-- The entries that stand for an element with nothing to show are those of the modules, which write nothing. -/
theorem ownEntries_of_dataless (ho : o.modules = CompilerModule.standard) (h : e.Dataless) :
    ownEntries o e false = [.fragments "", .fragments ""] := by
  unfold ownEntries textEntry
  rw [ho, Json.filled?_eq_none h.key, Json.filled?_eq_none h.ref, h.refInFor, h.component]
  simp only [CompilerModule.standard, CompilerModule.classes, CompilerModule.styles, List.map_cons, List.map_nil,
    Json.filled?_eq_none h.staticClass, Json.filled?_eq_none h.classBinding, Json.filled?_eq_none h.staticStyle,
    Json.filled?_eq_none h.styleBinding]
  rfl

/-- The generation after it was asked whether an element is verbatim. -/
def asked (i : Nat) (g : Generation) : Generation :=
  { g with memo := (Memo.query g.tree (g.tree.size + 1) i g.memo).2 }

section

variable (ho : o.modules = CompilerModule.standard) (hlinked : g.tree.Linked)
  (hmemo : g.memo.Recalls fun j found => found = g.tree.verbatim j) (hverbatim : g.tree.verbatim i = false)

include hlinked hmemo hverbatim

theorem outcome_isVerbatim_false : outcome (isVerbatim i) g = (.ok false, asked i g) := by
  have hfuel : min i g.tree.size < g.tree.size + 1 := by omega
  have h := (Memo.query_verbatim hlinked hfuel hmemo).1
  rw [← hverbatim, ← h]
  rfl

include ho

theorem outcome_emitParts (h : e.Dataless) :
    outcome (emitParts o self i e) g = (.ok [.fragments "", .fragments ""], asked i g) := by
  unfold emitParts slotsEntry inlineEntry targetEntry textEntry
  rw [outcome_bind_of_ok (outcome_isVerbatim_false hlinked hmemo hverbatim), ownEntries_of_dataless ho h, h.attrs,
    h.props, h.events, h.nativeEvents, h.scopedSlots, h.model, h.inlineTemplate, Json.filled?_eq_none h.slotTarget]
  rw [ite_self]
  rfl

/-- The data of an element with nothing to show. -/
theorem outcome_emitData (he : g.tree.element? i = some e) (h : e.Dataless) :
    outcome (emitData o self i) g = (.ok Code.emptyObject, asked i g) := by
  have hat : outcome (elementAt i) g = (.ok e, g) := by rw [outcome_elementAt, he]
  have hparts : outcome (emitParts o self i e) g = _ := outcome_emitParts ho hlinked hmemo hverbatim h
  unfold emitData
  rw [outcome_bind_of_ok hat, h.directives, if_pos List.isEmpty_nil]
  have hkept : outcome (emitDirectives o i []) g = (.ok [], g) := rfl
  unfold emitDataObject bindDynamicAttrs mergeObjects
  rw [outcome_bind_of_ok hkept, outcome_bind_of_ok hat, outcome_bind_of_ok hparts, h.dynamicAttrs, h.wrapData,
    h.wrapListeners]
  rfl

end

/-- What is left of an element to write once its data is written. -/
def emitRest (o : Options) (self : Emit) (i : Nat) : GenM Code := do
  let children ← emitNodeChildren o self (← elementAt i)
  let _ ← elementAt i
  return children.argument

/-- A node is its data and the rest, in this order. -/
theorem outcome_emitCreate (ho : o.modules = CompilerModule.standard) {g₁ : Generation} {data : Code}
    (hdata : outcome (emitDataArgument o self i e) g = (.ok data, g₁)) (hcomponent : e.component.truthy = false)
    {e₁ : Element} (he₁ : g₁.tree.element? i = some e₁) :
    outcome (emitCreate o self i e) g = ((outcome (emitRest o self i) g₁).1.map
      fun children => .create i false ("'" ++ e₁.tag.shown ++ "'") data children,
        (outcome (emitRest o self i) g₁).2) := by
  have hat : outcome (elementAt i) g₁ = (.ok e₁, g₁) := by rw [outcome_elementAt, he₁]
  have hid (e : Element) (code : Code) : o.modules.foldl (fun code m => m.transform e code) code = code := by
    rw [ho]
    rfl
  unfold emitCreate emitBare emitPlain emitRest
  rw [Json.filled?_eq_none hcomponent]
  simp only [bind_assoc, pure_bind, hid]
  rw [outcome_bind_of_ok hdata, outcome_bind_of_ok hat, outcome_bind_of_ok hat, outcome_bind, outcome_bind]
  rcases outcome (emitNodeChildren o self e₁) g₁ with ⟨_ | children, g₂⟩
  · rfl
  · dsimp only
    rw [outcome_bind, outcome_bind]
    rcases outcome (elementAt i) g₂ with ⟨_ | _, g₃⟩ <;> rfl

/-- Leaving out the data of a plain element loses nothing. Take an element that was added with a tag, raw attributes
and the occasion of its rendering, and furnished by calls since then, with no verbatim element at or above it, in a
generation with the standard modules that remembers verbatim elements rightly. If the element is plain, its data would
be the empty object, and writing it would change nothing. So the node without data and the node with data, which is
written for the same element when it is not plain, differ by that object and the comma in front of it. -/
theorem plain_without_data (hfurnished : g.tree.Furnished i) (he : g.tree.element? i = some e)
    (hplain : e.plain.truthy = true) (ho : o.modules = CompilerModule.standard) (hlinked : g.tree.Linked)
    (hmemo : g.memo.Recalls fun j found => found = g.tree.verbatim j) (hverbatim : g.tree.verbatim i = false) :
    ∃ data g₁, outcome (emitData o self i) g = (.ok data, g₁) ∧ (∀ names, data.render names = "\x7b\x7d") ∧
      g₁.tree = g.tree ∧ g₁.warnings = g.warnings ∧ g₁.verbatim = g.verbatim ∧
      ∃ (children : Except Failure Code) (g₂ : Generation),
        outcome (emitCreate o self i e) g =
          (children.map fun c => .create i false ("'" ++ e.tag.shown ++ "'") Code.empty c, g₂) ∧
        outcome (emitCreate o self i { e with plain := .bool false }) g =
          (children.map fun c => .create i false ("'" ++ e.tag.shown ++ "'") (Code.text "," ++ data) c, g₂) := by
  have h : e.Dataless := hfurnished.dataless he hplain
  have hdata : outcome (emitData o self i) g = _ := outcome_emitData ho hlinked hmemo hverbatim he h
  -- A plain element asks whether it is verbatim, and otherwise its data does.
  have hshort : outcome (emitDataArgument o self i e) g = (.ok Code.empty, asked i g) := by
    have hneeds : outcome (needsData o i e) g = (.ok false, asked i g) := by
      unfold needsData
      rw [hplain]
      exact outcome_bind_of_ok (outcome_isVerbatim_false hlinked hmemo hverbatim)
    exact outcome_bind_of_ok hneeds
  have hlong : outcome (emitDataArgument o self i { e with plain := .bool false }) g =
      (.ok (Code.text "," ++ Code.emptyObject), asked i g) := by
    have hneeds : outcome (needsData o i { e with plain := .bool false }) g = (.ok true, g) := rfl
    unfold emitDataArgument
    rw [outcome_bind_of_ok hneeds, if_pos rfl, outcome_bind_of_ok hdata]
    rfl
  exact ⟨_, _, hdata, Code.render_emptyObject, rfl, rfl, rfl, _, _, outcome_emitCreate ho hshort h.component he,
    outcome_emitCreate ho hlong h.component he⟩

/-- A paragraph under a test. -/
def paragraph : Draft :=
  { tag := "p", fill := Node.mapElement fun e => { e with ifExpr := "ok" } }

/-- The paragraph in a division. It was given a raw attribute, and then a text. -/
def noted : Tree :=
  let t := (({} : Tree).addElement { tag := "div" } none).1
  let t := (t.addElement paragraph (some 0)).1
  let t := t.modifyElement 1 (·.addRawAttr { name := "id", value := "a" })
  (t.attach { content := .text "note" } (some 1)).1

theorem furnished_noted : noted.Furnished 1 := by
  have hnew : Tree.Furnished 1 ((({} : Tree).addElement { tag := "div" } none).1.addElement paragraph (some 0)).1 :=
    .element ⟨fun e => ⟨{ e with ifExpr := "ok" }, rfl⟩, rfl⟩ rfl
  refine .elsewhere (.rawAttr hnew { name := "id", value := "a" }) fun e he => ?_
  exact ⟨_, [2], _, rfl, (Option.some.inj he).symm⟩

theorem linked_noted : noted.Linked := by
  have hdivision : ({ tag := "div" } : Draft).Bare := fun _ hn => hn
  have hparagraph : paragraph.Bare := by
    intro n hn e he k
    rw [paragraph, Node.element?_mapElement] at he
    obtain ⟨e₀, he₀, rfl⟩ := Option.map_eq_some_iff.mp he
    rw [← hn e₀ he₀ k]
    cases k <;> rfl
  refine (Tree.Built.leaf (.edit (.element (.element .empty hdivision ?_) hparagraph ?_) ?_) rfl ?_).rooted.linked
  · rintro p ⟨⟩
  · rintro p ⟨⟩
    decide
  · intro e k j hj
    cases k <;> exact .inl hj
  · decide

theorem plain_without_data_noted : ∃ e, noted.element? 1 = some e ∧ ∃ data g₁,
    outcome (emitData { modules := CompilerModule.standard } (run {} 3) 1) { tree := noted } = (.ok data, g₁) ∧
      ∀ names, data.render names = "\x7b\x7d" := by
  obtain ⟨data, g₁, h, htext, -⟩ := @plain_without_data { modules := CompilerModule.standard } (run {} 3) 1 _
    { tree := noted } furnished_noted rfl (by decide) rfl linked_noted (Memo.recalls_nil _) (by decide)
  exact ⟨_, rfl, data, g₁, h, htext⟩

end Generator

end TemplateCompiler
