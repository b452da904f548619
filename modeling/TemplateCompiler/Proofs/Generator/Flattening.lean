import TemplateCompiler.Proofs.Generator.Exact
import TemplateCompiler.Proofs.Generator.Marks
import TemplateCompiler.Proofs.Generator.Yields

/-!
# How far children have to be flattened

The level after a list of children is found by a look at the fields of the children and of the blocks of their chains,
while their code comes out of the stages of the generator. `Code.results` is what code gives in the end, behind
conditionals and the wrappers of hoists and once marks. As long as no block has a chain of its own, a child whose
chain needs no flattening gives nodes that are created for an element of the chain, or the empty one, and nothing else
(`results_run`). So below the highest level no child gives a list (`shallow_emitChildren`). Plugins that run meanwhile
may change everything about an element but the fields that the level looks at (`Element.shape`): one that does
otherwise can put a loop into a list without a level (`nested_of_repeating`).
-/

namespace TemplateCompiler

namespace Code

/-- What code gives in the end, through every arm of its conditionals and behind hoists and once marks. -/
def results : Code → List Code
  | branch _ _ yes no => yes.results ++ no.results
  | hoist _ _ body | once _ _ body => body.results
  | c => [c]

/-- Code that gives a list or nothing at all: a loop, the children of a template, an outlet. -/
def isNested : Code → Bool
  | loop _ _ _ _ | fragment _ _ | outlet _ _ => true
  | _ => false

/-- Code that creates a node for an element, by its component or by its tag. -/
def Creates (e : Element) (c : Code) : Prop :=
  ∃ owner data children,
    c = create owner e.component.truthy (e.component.filled?.getD ("'" ++ e.tag.shown ++ "'")) data children

theorem Creates.results_eq {e : Element} {c : Code} (h : c.Creates e) : c.results = [c] := by
  obtain ⟨_, _, _, rfl⟩ := h
  rfl

end Code

/-- The fields of an element that the level looks at. -/
structure Shape where
  loops : Bool
  tag : Json
  component : Json
  conditions : List Condition

def Element.shape (e : Element) : Shape :=
  { loops := e.loops, tag := e.tag, component := e.component, conditions := e.conditions }

/-- The items of a list of children, and its level. -/
def Children.list? : Children → Option (List Code × Nat)
  | .list items level => some (items, level)
  | _ => Option.none

theorem Children.eq_of_list? {c : Children} {items : List Code} {level : Nat} (h : c.list? = some (items, level)) :
    c = .list items level := by
  cases c with
  | list => cases h; rfl
  | _ => cases h

/-- The platform creates the element itself: it is no dynamic component and has a reserved tag. -/
def Element.IsNative (reserved : String → Bool) (e : Element) : Prop :=
  e.component.truthy = false ∧ ∃ tag, e.tag = .string tag ∧ reserved tag = true

/-- The blocks of a chain have no chains of their own, apart from the owner. -/
def Tree.FlatChains (t : Tree) : Prop :=
  ∀ {i j e}, t.Lists .block i j → t.element? j = some e → e.conditions = []

theorem Tree.flatChains_iff (t : Tree) : t.FlatChains ↔ ∀ i < t.size, ∀ e ∈ (t.element? i).toList,
    ∀ c ∈ e.conditions, c.block ≠ i → ∀ b ∈ (t.element? c.block).toList, b.conditions = [] := by
  simp only [Option.mem_toList]
  constructor
  · intro h i _ e he c hc hne b hb
    exact h ⟨e, he, List.mem_map_of_mem hc, fun _ => hne⟩ hb
  · rintro h i j b ⟨e, he, hj, hne⟩ hb
    obtain ⟨c, hc, rfl⟩ := List.mem_map.mp hj
    exact h i (lt_size_of_element? he) e he c hc (hne rfl) b hb

instance (t : Tree) : Decidable t.FlatChains :=
  decidable_of_iff _ t.flatChains_iff.symm

namespace Generator

variable {o : Options} {t : Tree} {i : Nat} {e : Element}

/-! ## The level -/

theorem isNative_of_maybeComponent (h : o.maybeComponent e = .ok false) : e.IsNative o.reserved := by
  unfold Options.maybeComponent at h
  split at h
  · cases h
  · next hc =>
    refine ⟨Bool.eq_false_iff.mpr hc, ?_⟩
    cases htag : e.tag with
    | string tag =>
      rw [htag] at h
      refine ⟨tag, rfl, ?_⟩
      simpa [Tag.check, Except.map] using h
    | _ => rw [htag] at h; cases h

theorem forall_of_anyM {es : List Element} (h : es.anyM o.maybeComponent = .ok false) :
    ∀ e ∈ es, o.maybeComponent e = .ok false := by
  induction es with
  | nil => exact nofun
  | cons e es ih =>
    rw [List.anyM] at h
    rcases he : o.maybeComponent e with _ | b
    · rw [he] at h; cases h
    · rw [he] at h
      cases b with
      | true => cases h
      | false => exact List.forall_mem_cons.mpr ⟨he, ih h⟩

/-- A level below the highest speaks about every child. -/
theorem arms_of_flatteningLevel {children : List Nat} {level : Nat}
    (h : flatteningLevel o t children = .ok level) (hlevel : level ≤ 1) :
    ∀ c ∈ children, ∀ e, t.element? c = some e →
      (∀ a ∈ arms t e, needsFlattening a = false) ∧ (level = 0 → ∀ a ∈ arms t e, a.IsNative o.reserved) := by
  induction children generalizing level with
  | nil => exact nofun
  | cons c rest ih =>
    rw [flatteningLevel] at h
    rcases hc : t.element? c with _ | e
    · rw [hc] at h
      refine List.forall_mem_cons.mpr ⟨fun e he => ?_, ih h hlevel⟩
      rw [hc] at he
      cases he
    rw [hc] at h
    dsimp only at h
    split at h
    · cases h
      omega
    · next hflat =>
      rcases hany : (arms t e).anyM o.maybeComponent with _ | component
      · rw [hany] at h; cases h
      rcases hrest : flatteningLevel o t rest with _ | below
      · rw [hany, hrest] at h; cases h
      rw [hany, hrest] at h
      obtain rfl : max (if component then 1 else 0) below = level := Except.ok.inj h
      have hbelow := ih hrest (by omega)
      refine List.forall_mem_cons.mpr ⟨fun e' he' => ?_, fun c hc e he => ?_⟩
      · obtain rfl : e = e' := Option.some.inj (hc.symm.trans he')
        refine ⟨fun a ha => ?_, fun hzero a ha => ?_⟩
        · rw [List.any_eq_true, not_exists] at hflat
          exact Bool.eq_false_iff.mpr fun hneeds => hflat a ⟨ha, hneeds⟩
        · cases component with
          | true => simp at hzero
          | false => exact isNative_of_maybeComponent (forall_of_anyM hany a ha)
      · obtain ⟨hflat, hnative⟩ := hbelow c hc e he
        exact ⟨hflat, fun hzero => hnative (by omega)⟩

/-! ## The code of a child -/

/-- The empty node, or one that is created for an element of the chain of `e`. -/
def Single (t : Tree) (e : Element) (c : Code) : Prop :=
  c = noArm false ∨ ∃ a ∈ arms t e, c.Creates a

theorem Single.isNested_eq {c : Code} (h : Single t e c) : c.isNested = false := by
  rcases h with rfl | ⟨a, -, _, _, _, rfl⟩
  · rfl
  · rfl

/-- All that code gives in the end are single nodes. -/
def Singles (t : Tree) (e : Element) (c : Code) : Prop :=
  ∀ x ∈ c.results, Single t e x

/-- Neither an element nor a block of its chain may render to a list. -/
def Flat (t : Tree) (e : Element) : Prop :=
  ∀ a ∈ arms t e, needsFlattening a = false

theorem mem_arms_self (t : Tree) (e : Element) : e ∈ arms t e :=
  List.mem_cons_self ..

theorem mem_arms_block {c : Condition} (hc : c ∈ e.conditions) {b : Element} (hb : t.element? c.block = some b) :
    b ∈ arms t e :=
  List.mem_cons_of_mem _ (List.mem_filterMap.mpr ⟨c, hc, hb⟩)

theorem Singles.of_creates {c : Code} (h : c.Creates e) : Singles t e c := by
  intro x hx
  rw [h.results_eq, List.mem_singleton] at hx
  exact .inr ⟨e, mem_arms_self t e, hx ▸ h⟩

theorem Singles.branch {yes no : Code} {test : String} (hyes : Singles t e yes) (hno : Singles t e no) :
    Singles t e (.branch i test yes no) := by
  intro x hx
  rcases List.mem_append.mp hx with hx | hx
  · exact hyes x hx
  · exact hno x hx

/-- A block without a chain of its own is the only arm of it. -/
theorem arms_of_block {b : Element} (h : b.conditions = []) : arms t b = [b] := by
  rw [arms, h]
  rfl

theorem Flat.block {b : Element} (h : Flat t e) (hb : b ∈ arms t e) (hc : b.conditions = []) : Flat t b := by
  intro a ha
  rw [arms_of_block hc, List.mem_singleton] at ha
  exact ha ▸ h b hb

theorem Singles.of_block {b : Element} (hb : b ∈ arms t e) (hc : b.conditions = []) {c : Code}
    (h : Singles t b c) : Singles t e c := by
  refine fun x hx => (h x hx).imp_right ?_
  rintro ⟨a, ha, hx⟩
  rw [arms_of_block hc, List.mem_singleton] at ha
  exact ⟨b, hb, ha ▸ hx⟩

theorem needsFlattening_eq {e' : Element} (h : e'.shape = e.shape) : needsFlattening e' = needsFlattening e := by
  have hloops : e'.loops = e.loops := congrArg Shape.loops h
  have htag : e'.tag = e.tag := congrArg Shape.tag h
  unfold needsFlattening Element.hasTag
  rw [hloops, htag]

/-! ## What plugins keep -/

/-- Whatever plugins did to it, the tree `u` has elements of the same shapes as `t`. -/
abbrev SameShapes (t u : Tree) : Prop :=
  u.shown Element.shape = t.shown Element.shape

theorem SameShapes.element? {u : Tree} (h : SameShapes t u) {e' : Element} (he' : u.element? i = some e') :
    ∃ e, t.element? i = some e ∧ e'.shape = e.shape := by
  have hi := congrFun h i
  rw [Tree.shown, Tree.shown, he', Option.map_some] at hi
  obtain ⟨e, he, hshape⟩ := Option.map_eq_some_iff.mp hi.symm
  exact ⟨e, he, hshape.symm⟩

theorem yields_elementAt_shaped (t : Tree) (i : Nat) :
    Yields (SameShapes t) (elementAt i) fun e' => ∃ e, t.element? i = some e ∧ e'.shape = e.shape :=
  Yields.elementAt.mono fun _ ⟨_, hu, he⟩ => SameShapes.element? hu he

theorem yields_shape (he : t.element? i = some e) :
    Yields (SameShapes t) (elementAt i) fun e' => e'.shape = e.shape := by
  refine (yields_elementAt_shaped t i).mono fun e' h => ?_
  obtain ⟨e₀, he₀, hshape⟩ := h
  exact Option.some.inj (he.symm.trans he₀) ▸ hshape

section

variable {self : Emit} {done : Stages} (ho : o.Keep Element.shape) (hm : o.modules = CompilerModule.standard)
  (hkeep : ∀ s, Preserves (Tree.shown Element.shape) (self s))

include ho hm hkeep in
theorem yields_creates (he : t.element? i = some e) {e' : Element} (hshape : e'.shape = e.shape) :
    Yields (SameShapes t) (emitCreate o self i e') fun c => c.Creates e := by
  have hchildren (e : Element) : Yields (SameShapes t) (emitNodeChildren o self e) fun _ => True :=
    .of_preserves (preserves_nodeChildren hkeep)
  have hdata (i : Nat) : Preserves (Tree.shown Element.shape) (emitData o self i) :=
    preserves_shown_data ho (fun _ => rfl) hkeep i
  have hcomponent : e'.component = e.component := congrArg Shape.component hshape
  have hbare : Yields (SameShapes t) (emitBare o self i e') fun c => c.Creates e := by
    unfold emitBare
    split
    · next name hname =>
      refine .bind (hchildren e') fun children _ => .bind (.of_preserves (hdata i)) fun data _ => ?_
      refine .pure ⟨i, Code.text "," ++ data, children.argument, ?_⟩
      rw [← Json.isSome_filled?, ← hcomponent, hname]
      rfl
    · next hname =>
      refine .bind (.of_preserves (preserves_dataArgument hdata)) fun data _ => ?_
      refine .bind (yields_shape he) fun e'' he'' => ?_
      have htag : e''.tag = e.tag := congrArg Shape.tag he''
      refine .bind (hchildren e'') fun children _ => .pure ⟨i, data, children.argument, ?_⟩
      rw [← Json.isSome_filled?, ← hcomponent, hname, htag]
      rfl
  refine .bind hbare fun c hc => .bind .elementAt fun e' _ => .pure ?_
  have hfold : o.modules.foldl (fun code m => m.transform e' code) c = c := by
    refine List.foldlRecOn (motive := fun code => code = c) o.modules _ rfl fun code hcode m hmem => ?_
    rw [CompilerModule.transform_standard (hm ▸ hmem), hcode]
  rwa [hfold]

variable (hself : ∀ {j b} done, t.element? j = some b → Flat t b →
  Yields (SameShapes t) (self (.element j done)) (Singles t b) ∧
    Yields (SameShapes t) (self (.onceElement j done)) (Singles t b))
variable (he : t.element? i = some e) (hflat : Flat t e)

include hself he hflat

theorem yields_hoisted_singles : Yields (SameShapes t) (emitHoisted self i done) (Singles t e) := by
  refine .bind .get fun _ _ => .bind (.of_untouched untouched_enterVerbatim) fun _ _ => ?_
  refine .bind (hself _ he hflat).1 fun body hbody => .bind (.of_untouched (.setVerbatim _)) fun _ _ => ?_
  exact .bind (.of_untouched .flagsOf) fun _ _ => .pure hbody

variable (hchains : t.FlatChains)

include hchains

theorem yields_arm_singles {c : Condition} (hc : c ∈ e.conditions) :
    Yields (SameShapes t) (emitArm self i done false c.block) (Singles t e) := by
  refine .bind (yields_elementAt_shaped t c.block) fun b' h => ?_
  obtain ⟨b, hb, -⟩ := h
  have hblock (done : Stages) : Yields (SameShapes t) (self (.element c.block done)) (Singles t e) ∧
      Yields (SameShapes t) (self (.onceElement c.block done)) (Singles t e) := by
    by_cases hown : c.block = i
    · exact hown ▸ hself done he hflat
    · have hmem := mem_arms_block hc hb
      have hnone : b.conditions = [] := hchains ⟨e, he, List.mem_map_of_mem hc, fun _ => hown⟩ hb
      have hown {c : Code} : Singles t b c → Singles t e c := .of_block hmem hnone
      exact (hself done hb (hflat.block hmem hnone)).imp (·.mono fun _ => hown) (·.mono fun _ => hown)
  exact .ite (hblock _).2 (hblock _).1

theorem yields_branches_singles {e' : Element} (hshape : e'.shape = e.shape) :
    Yields (SameShapes t) (emitBranches self i e' done false) (Singles t e) := by
  have hchain (cs : List Condition) (hcs : ∀ c ∈ cs, c ∈ e.conditions) :
      Yields (SameShapes t) (emitChain self i { done with branched := true } false cs) (Singles t e) := by
    induction cs with
    | nil =>
      refine .pure fun x hx => .inl ?_
      exact List.mem_singleton.mp hx
    | cons c rest ih =>
      obtain ⟨hc, hrest⟩ := List.forall_mem_cons.mp hcs
      have harm : Yields (SameShapes t) (emitArm self i { done with branched := true } false c.block) (Singles t e) :=
        yields_arm_singles hself he hflat hchains hc
      unfold emitChain
      split
      · exact .bind harm fun _ hyes => .bind (ih hrest) fun _ hno => .pure (hyes.branch hno)
      · exact harm
  have hconditions : e'.conditions = e.conditions := congrArg Shape.conditions hshape
  rw [emitBranches, hconditions]
  exact hchain e.conditions fun _ => id

theorem yields_once_singles : Yields (SameShapes t) (emitOnce self i done) (Singles t e) := by
  refine .bind (yields_shape he) fun e' hshape => ?_
  refine .ite (yields_branches_singles hself he hflat hchains hshape) (.bind (.of_untouched .flagsOf) fun _ _ => ?_)
  refine .ite (yields_hoisted_singles hself he hflat) (.bind .get fun g _ => ?_)
  split
  · exact .bind (hself _ he hflat).1 fun _ hbody => .pure hbody
  · refine .bind (.of_untouched .siteOf) fun _ _ => ?_
    exact .bind (.of_untouched (.warn _)) fun _ _ => (hself _ he hflat).1

include ho hm hkeep in
theorem yields_element_singles : Yields (SameShapes t) (emitElement o self i done) (Singles t e) := by
  have hplace (e' : Element) (hshape : e'.shape = e.shape) :
      Yields (SameShapes t) (emitInPlace o self i e' done) (Singles t e) := by
    have hneeds : needsFlattening e' = false := (needsFlattening_eq hshape).trans (hflat e (mem_arms_self t e))
    simp only [needsFlattening, Bool.or_eq_false_iff] at hneeds
    obtain ⟨⟨hloops, htemplate⟩, hslot⟩ := hneeds
    unfold emitInPlace
    simp only [hloops, htemplate, hslot, Bool.false_and, Bool.false_eq_true, if_false]
    refine .ite (yields_branches_singles hself he hflat hchains hshape) (.bind .get fun _ _ => ?_)
    exact (yields_creates ho hm hkeep he hshape).mono fun _ hc => Singles.of_creates hc
  refine .bind (yields_shape he) fun e' hshape => .bind (.of_untouched .flagsOf) fun _ _ => ?_
  refine .ite (yields_hoisted_singles hself he hflat) ?_
  exact .ite (yields_once_singles hself he hflat hchains) (hplace e' hshape)

end

/-- A child whose chain needs no flattening gives single nodes, at whatever stage. -/
theorem results_run (ho : o.Keep Element.shape) (hm : o.modules = CompilerModule.standard) (hchains : t.FlatChains)
    (fuel : Nat) (done : Stages) (he : t.element? i = some e) (hflat : Flat t e) :
    Yields (SameShapes t) (run o fuel (.element i done)) (Singles t e) ∧
      Yields (SameShapes t) (run o fuel (.onceElement i done)) (Singles t e) := by
  have hkeep (fuel : Nat) := preserves_shown_run ho (fun _ => rfl) fuel
  induction fuel generalizing i e done with
  | zero => exact ⟨.throw _, .throw _⟩
  | succ fuel ih =>
    exact ⟨yields_element_singles ho hm (hkeep fuel) (fun done => ih done) he hflat hchains,
      yields_once_singles (fun done => ih done) he hflat hchains⟩

theorem yields_node_singles {self : Emit} {c : Nat}
    (hself : ∀ child, t.element? c = some child → Yields (SameShapes t) (self (.element c {})) (Singles t child)) :
    Yields (SameShapes t) (emitNode self c) fun item =>
      (∀ x ∈ item.results, x.isNested = false) ∧ ∀ child, t.element? c = some child → Singles t child item := by
  refine .bind .nodeAt fun n h => ?_
  obtain ⟨u, hu, hn⟩ := h
  have helement : u.element? c = n.element? := by rw [Tree.element?, hn, Option.bind_some]
  -- What is no element is written as a call.
  have hcall {h : Helper} {code : Code} (hnone : n.element? = none) :
      (∀ x ∈ (Code.callHelper h code).results, x.isNested = false) ∧
        ∀ child, t.element? c = some child → Singles t child (Code.callHelper h code) := by
    refine ⟨fun x hx => ?_, fun child hchild => ?_⟩
    · rw [List.mem_singleton.mp hx]
      rfl
    · have hc := congrFun hu c
      rw [Tree.shown, Tree.shown, helement, hnone, hchild] at hc
      cases hc
  split
  · next child' hchild =>
    obtain ⟨child, he, -⟩ := SameShapes.element? hu (by rw [helement, Node.element?, hchild])
    refine (hself child he).mono fun item hitem => ⟨fun x hx => (hitem x hx).isNested_eq, fun child' he' => ?_⟩
    exact Option.some.inj (he.symm.trans he') ▸ hitem
  all_goals
    next hcontent => exact .pure (hcall (by rw [Node.element?, hcontent]))

/-- A list of children takes apart into its level and the code of each child. -/
theorem outcome_emitChildren_list {self : Emit} {g g' : Generation} {items : List Code} {level : Nat}
    (h : outcome (emitChildren o self e true) g = (.ok (.list items level), g')) :
    flatteningLevel o g.tree e.children = .ok level ∧
      outcome (e.children.mapM (emitNode self)) g = (.ok items, g') := by
  obtain ⟨_, _, hget, h⟩ := outcome_bind_ok h
  cases hget
  split at h
  · cases h
  dsimp only at h
  split at h
  · obtain ⟨_, _, -, h⟩ := outcome_bind_ok h
    obtain ⟨_, _, -, h⟩ := outcome_bind_ok h
    cases h
  · obtain ⟨level', g₁, hlift, h⟩ := outcome_bind_ok h
    obtain ⟨items', g₂, hitems, h⟩ := outcome_bind_ok h
    cases h
    rw [listLevel, if_pos rfl] at hlift
    rcases hfound : flatteningLevel o g.tree e.children with _ | found <;> rw [hfound] at hlift <;> cases hlift
    exact ⟨rfl, hitems⟩

/-- If the children of an element are written as a list with a level below the highest, then every child gives the
empty node or nodes that are created for it or a block of its chain, and no loop, no children of a template and no
outlet, in any arm and behind any hoist or once mark. If there is no level at all, then neither a child nor any block
of its chain is a component. Plugins are to keep the shapes of elements, and blocks to have no chains of their own. -/
theorem shallow_emitChildren (ho : o.Keep Element.shape) (hm : o.modules = CompilerModule.standard) {g g' : Generation}
    {fuel level : Nat} {items : List Code} (hchains : g.tree.FlatChains)
    (h : outcome (emitChildren o (run o fuel) e true) g = (.ok (.list items level), g')) (hlevel : level ≤ 1) :
    List.Forall₂ (fun c item => (∀ x ∈ item.results, x.isNested = false) ∧
      ∀ child, g.tree.element? c = some child →
        (∀ x ∈ item.results, x = noArm false ∨ ∃ a ∈ arms g.tree child, x.Creates a) ∧
        (level = 0 → ∀ a ∈ arms g.tree child, a.IsNative o.reserved)) e.children items := by
  obtain ⟨hfound, hitems⟩ := outcome_emitChildren_list h
  have harms := arms_of_flatteningLevel hfound hlevel
  have hnodes := Yields.mapM_forall₂ (I := SameShapes g.tree) fun c hc => yields_node_singles fun child he =>
    (results_run ho hm hchains fuel {} he (harms c hc child he).1).1
  obtain ⟨hall, -⟩ := hnodes g rfl items g' hitems
  refine List.forall₂_iff_get.mpr ⟨hall.length_eq, fun n hn hn' => ?_⟩
  obtain ⟨hnested, hsingles⟩ := hall.get hn hn'
  refine ⟨hnested, fun child he => ⟨hsingles child he, fun hzero => ?_⟩⟩
  exact (harms _ (List.get_mem ..) child he).2 hzero

/-- A paragraph that gives way to a component, and a section with a native chain that is written once. -/
def shelfData : Json :=
  let card : Json := .object [("tag", "my-card"), ("elseif", "b")]
  let first : Json := .object [("tag", "p"), ("if", "a"),
    ("ifConditions", .array [.object [("exp", "a")], .object [("exp", "b"), ("block", card)]])]
  let other : Json := .object [("tag", "i"), ("else", .bool true)]
  let native : Json := .object [("tag", "b"), ("if", "c"), ("once", .bool true),
    ("ifConditions", .array [.object [("exp", "c")], .object [("block", other)]])]
  .object [("tag", "div"), ("children", .array [first, .object [("tag", "section"), ("children", .array [native])]])]

theorem shallow_emitChildren_shelf :
    let o := ({} : Environment).options
    ∃ t div part items items' g g', (Tree.load shelfData).1 = .ok t ∧
      t.element? 0 = some div ∧ t.element? 3 = some part ∧
      outcome (emitChildren o (run o 40) div true) { tree := t } = (.ok (.list items 1), g) ∧
      outcome (emitChildren o (run o 40) part true) { tree := t } = (.ok (.list items' 0), g') ∧
      List.Forall₂ (fun _ item => ∀ x ∈ item.results, x.isNested = false) [1, 3] items ∧
      List.Forall₂ (fun c _ => ∀ b, t.element? c = some b → ∀ a ∈ arms t b, a.IsNative o.reserved) [4] items' := by
  intro o
  have h : ((Tree.load shelfData).1.toOption.bind fun t => (t.element? 0).bind fun div =>
      (t.element? 3).bind fun part =>
      (outcome (emitChildren o (run o 40) div true) { tree := t }).1.toOption.bind fun children =>
      (outcome (emitChildren o (run o 40) part true) { tree := t }).1.toOption.bind fun children' =>
      children.list?.bind fun l => children'.list?.map fun l' =>
        decide (t.FlatChains ∧ div.children = [1, 3] ∧ part.children = [4] ∧ l.2 = 1 ∧ l'.2 = 0)) =
      some true := by
    decide +kernel
  obtain ⟨t, ht, h⟩ := Option.bind_eq_some_iff.mp h
  obtain ⟨div, hdiv, h⟩ := Option.bind_eq_some_iff.mp h
  obtain ⟨part, hpart, h⟩ := Option.bind_eq_some_iff.mp h
  obtain ⟨children, hc, h⟩ := Option.bind_eq_some_iff.mp h
  obtain ⟨children', hc', h⟩ := Option.bind_eq_some_iff.mp h
  obtain ⟨⟨items, level⟩, hl, h⟩ := Option.bind_eq_some_iff.mp h
  obtain ⟨⟨items', level'⟩, hl', h⟩ := Option.map_eq_some_iff.mp h
  obtain ⟨hchains, hdivs, hparts, rfl, rfl⟩ := of_decide_eq_true h
  obtain rfl := Children.eq_of_list? hl
  obtain rfl := Children.eq_of_list? hl'
  have hlist : outcome (emitChildren o (run o 40) div true) { tree := t } = (.ok (.list items 1), _) :=
    Prod.ext (ok_of_toOption hc) rfl
  have hlist' : outcome (emitChildren o (run o 40) part true) { tree := t } = (.ok (.list items' 0), _) :=
    Prod.ext (ok_of_toOption hc') rfl
  have hkeep : o.Keep Element.shape := (Options.tidy_standard rfl).keep fun _ => rfl
  have hshallow := shallow_emitChildren hkeep rfl hchains hlist le_rfl
  have hnative := shallow_emitChildren hkeep rfl hchains hlist' zero_le_one
  refine ⟨t, div, part, items, items', _, _, ok_of_toOption ht, hdiv, hpart, hlist, hlist', ?_, ?_⟩
  · exact hdivs ▸ hshallow.imp fun _ _ hitem => hitem.1
  · exact hparts ▸ hnative.imp fun _ _ hitem b hb => (hitem.2 b hb).2 rfl

/-- A plugin that makes a loop of its element. -/
def many : DirectivePlugin :=
  .ofFunction "many" fun _ e _ => { element := { e with forSource := "items", forAlias := "x" }, reply := .ok .null }

/-- The standard options, and the plugin. -/
def repeating : Options :=
  ({ directives := [("many", many)] } : Environment).options

/-- A paragraph that is both blocks of its chain, so that its plugin runs before the second one is generated. -/
def crowdData : Json :=
  let first : Json := .object [("tag", "p"), ("plain", .bool false), ("if", "a"),
    ("ifConditions", .array [.object [("exp", "a")], .object [("exp", "b")]]),
    ("directives", .array [.object [("name", "many")]])]
  .object [("tag", "div"), ("children", .array [first, .object [("tag", "i")]])]

/-- A plugin that changes the shape of its element can put a loop into a list without a level. -/
theorem nested_of_repeating : ∃ t e items g, repeating.modules = CompilerModule.standard ∧
    (Tree.load crowdData).1 = .ok t ∧ t.FlatChains ∧ t.element? 0 = some e ∧
    outcome (emitChildren repeating (run repeating 40) e true) { tree := t } = (.ok (.list items 0), g) ∧
    ∃ item ∈ items, ∃ x ∈ item.results, x.isNested = true := by
  have h : ((Tree.load crowdData).1.toOption.bind fun t => (t.element? 0).bind fun e =>
      (outcome (emitChildren repeating (run repeating 40) e true) { tree := t }).1.toOption.bind fun children =>
      children.list?.map fun l =>
        decide (t.FlatChains ∧ l.2 = 0 ∧ ∃ item ∈ l.1, ∃ x ∈ item.results, x.isNested = true)) = some true := by
    decide +kernel
  obtain ⟨t, ht, h⟩ := Option.bind_eq_some_iff.mp h
  obtain ⟨e, he, h⟩ := Option.bind_eq_some_iff.mp h
  obtain ⟨children, hc, h⟩ := Option.bind_eq_some_iff.mp h
  obtain ⟨⟨items, level⟩, hl, h⟩ := Option.map_eq_some_iff.mp h
  obtain ⟨hchains, rfl, hnested⟩ := of_decide_eq_true h
  obtain rfl := Children.eq_of_list? hl
  exact ⟨t, e, items, _, rfl, ok_of_toOption ht, hchains, he, Prod.ext (ok_of_toOption hc) rfl, hnested⟩

end Generator

end TemplateCompiler
