import TemplateCompiler.Proofs.Code.Plain
import TemplateCompiler.Proofs.Generator.Coupled
import TemplateCompiler.Proofs.Tree.Unflag

/-!
# Emitters side by side

A `Coupling` says what relates two generations: their states, the stages that an element has been
through, and the code that is emitted for it. It has a law for each thing that an emitter can do
to the state and for each way of building code. From these laws the emitters for chains, loops, children
and slots keep the two sides related, given that the tasks below are (`Coupling.Below`). Hoisting and
rendering once are left to each coupling, since this is where two generations of the same tree may differ.
-/

namespace TemplateCompiler.Generator

structure Coupling (o : Options) where
  /-- Related states, both with the verbatim switch as given. -/
  states : Bool → Generation → Generation → Prop
  stages : Stages → Stages → Prop
  /-- What is known of the element at an index. -/
  shape : Nat → Element → Prop
  /-- Related codes for the node at an index. -/
  code : Nat → Code → Code → Prop
  /-- Related descriptors for the slot definitions of the host at an index. -/
  content : Nat → Code → Code → Prop
  unflag_tree : ∀ {v g h}, states v g h → g.tree.unflag = h.tree.unflag
  verbatim : ∀ {v g h}, states v g h → g.verbatim = v ∧ h.verbatim = v
  shape_element : ∀ {v g h i e}, states v g h → g.tree.element? i = some e → shape i e
  warn : ∀ {v g h} (ws : List Warning), states v g h →
    states v { g with warnings := g.warnings ++ ws } { h with warnings := h.warnings ++ ws }
  isVerbatim : ∀ {v} i,
    Coupled (states v) (isVerbatim i) (isVerbatim i) (fun a b => a = b) (states v)
  rebind : ∀ {v g h} i (b : Bindings), states v g h →
    states v
      { g with tree := g.tree.modifyElement i fun e => { e with toBindings := b } }
      { h with tree := h.tree.modifyElement i fun e => { e with toBindings := b } }
  plugin : ∀ {v g h i e} {d : Directive} {p : DirectivePlugin} {site : Site},
    Table.get? d.name o.directives = some p → shape i e → states v g h →
    states v
      { g with tree := g.tree.modifyElement i fun _ => (p.compile site e d).element }
      { h with tree := h.tree.modifyElement i fun _ => (p.compile site e d).element }
  enter : ∀ {v g h i e}, shape i e → e.inlineTemplate.truthy = true → states v g h →
    states false { g with memo := [], verbatim := false } { h with memo := [], verbatim := false }
  leave : ∀ {v g h g' h'}, states v g h → states false g' h' →
    states v { g' with memo := g.memo, verbatim := g.verbatim }
      { h' with memo := h.memo, verbatim := h.verbatim }
  fresh : stages {} {}
  stages_agree : ∀ {d d'}, stages d d' →
    d.once = d'.once ∧ d.looped = d'.looped ∧ d.branched = d'.branched
  looped : ∀ {d d'}, stages d d' → stages { d with looped := true } { d' with looped := true }
  branched : ∀ {d d'}, stages d d' → stages { d with branched := true } { d' with branched := true }
  text : ∀ {i} s, code i (.text s) (.text s)
  helper : ∀ {i} h, code i (.helper h) (.helper h)
  append : ∀ {i a a' b b'}, code i a a' → code i b b' → code i (a ++ b) (a' ++ b')
  create : ∀ {i dynamic target a a' b b'}, code i a a' → code i b b' →
    code i (.create i dynamic target a b) (.create i dynamic target a' b')
  loop : ∀ {i source params a a'}, code i a a' →
    code i (.loop i source params a) (.loop i source params a')
  branch : ∀ {i test a a' b b'}, code i a a' → code i b b' →
    code i (.branch i test a b) (.branch i test a' b')
  fragment : ∀ {i a a'}, code i a a' → code i (.fragment i a) (.fragment i a')
  outlet : ∀ {i a a'}, code i a a' → code i (.outlet i a) (.outlet i a')
  child : ∀ {i e c a a'}, shape i e → c ∈ e.children → code c a a' → code i a a'
  block : ∀ {i e c a a'}, shape i e → c ∈ e.conditions → code c.block a a' → code i a a'
  contentText : ∀ {i} s, content i (.text s) (.text s)
  contentAppend : ∀ {i a a' b b'}, content i a a' → content i b b' → content i (a ++ b) (a' ++ b')
  definition : ∀ {i e s a a'}, shape i e → s ∈ e.scopedSlots → code s.2 a a' → content i a a'
  slots : ∀ {i a a'} hint, content i a a' → code i (.slots i a hint) (.slots i a' hint)
  inline : ∀ {i e a a'}, shape i e → e.inlineTemplate.truthy = true → code i a a' →
    code i (.inline a) (.inline a')
  transform : ∀ {i e a a' m}, shape i e → m ∈ o.modules → code i a a' →
    code i (m.transform e a) (m.transform e a')

namespace Coupling

variable {o : Options} (K : Coupling o) {self self' : Emit} {v : Bool} {i : Nat} {e : Element}
variable {d d' : Stages}

/-- The two sides generate the tasks below alike. -/
structure Below (f f' : Emit) : Prop where
  element : ∀ {v i d d'}, K.stages d d' → Coupled (K.states v)
    (f (.element i d)) (f' (.element i d')) (K.code i) (K.states v)
  onceElement : ∀ {v i e d d'}, K.shape i e → e.once.truthy = true → K.stages d d' →
    Coupled (K.states v) (f (.onceElement i d)) (f' (.onceElement i d')) (K.code i) (K.states v)
  slotEntry : ∀ {v i d d'}, K.stages d d' → Coupled (K.states v)
    (f (.slotEntry i d)) (f' (.slotEntry i d')) (K.code i) (K.states v)

/-! ## Reading the state -/

theorem element?_eq {g h : Generation} (hg : K.states v g h) (i : Nat) :
    g.tree.element? i = h.tree.element? i := by
  rw [← Tree.element?_unflag, K.unflag_tree hg, Tree.element?_unflag]

theorem nodeAt : Coupled (K.states v) (nodeAt i) (nodeAt i) (fun n n' => n.content = n'.content)
    (K.states v) := by
  refine .bind .get fun g h hg => ?_
  have hn : (g.tree.node? i).map Node.unflag = (h.tree.node? i).map Node.unflag := by
    rw [← Tree.node?_unflag, K.unflag_tree hg, Tree.node?_unflag]
  rcases hn₁ : g.tree.node? i with _ | n <;> rcases hn₂ : h.tree.node? i with _ | n' <;>
    simp only [hn₁, hn₂, Option.map_none, Option.map_some, reduceCtorEq, Option.some.injEq] at hn
  · exact .throw
  · exact .pure (by rw [← Node.content_unflag, hn, Node.content_unflag])

end Coupling

theorem outcome_elementAt (i : Nat) (g : Generation) :
    outcome (elementAt i) g =
      match g.tree.element? i with
      | some e => (.ok e, g)
      | none => (.error (.dangling i), g) := by
  unfold elementAt nodeAt Tree.element?
  simp only [outcome_bind, outcome_get]
  rcases hn : g.tree.node? i with _ | n
  · rfl
  · rcases he : n.element? with _ | e <;> simp [he]

namespace Coupling

variable {o : Options} (K : Coupling o) {self self' : Emit} {v : Bool} {i : Nat} {e : Element}
variable {d d' : Stages}

theorem elementAt : Coupled (K.states v) (elementAt i) (elementAt i)
    (fun e e' => e = e' ∧ K.shape i e) (K.states v) := by
  intro g h hg e g' he
  rw [outcome_elementAt] at he
  rcases hi : g.tree.element? i with _ | e₀ <;> simp only [hi, Prod.mk.injEq, reduceCtorEq,
    false_and, Except.ok.injEq] at he
  obtain ⟨rfl, rfl⟩ := he
  refine ⟨e₀, h, ?_, ⟨rfl, K.shape_element hg hi⟩, hg⟩
  rw [outcome_elementAt, ← K.element?_eq hg, hi]

theorem siteOf : Coupled (K.states v) (siteOf i) (siteOf i) (fun a b => a = b) (K.states v) := by
  refine .bind .get fun g h hg => .pure ?_
  rw [← Tree.span_unflag, K.unflag_tree hg, Tree.span_unflag]

theorem warning (w : Warning) :
    Coupled (K.states v) (Generator.warn w) (Generator.warn w) (fun _ _ => True) (K.states v) :=
  .modify fun _ _ hg => K.warn [w] hg

/-! ## Plain and joined code -/

theorem plain {c : Code} (hc : c.isPlain = true) : K.code i c c := by
  induction c with
  | text s => exact K.text s
  | helper h => exact K.helper h
  | append a b iha ihb =>
    rw [Code.isPlain, Bool.and_eq_true] at hc
    exact K.append (iha hc.1) (ihb hc.2)
  | _ => simp [Code.isPlain] at hc

/-- A relation that is kept by texts and by appending is kept by joining. -/
theorem related_join {R : Code → Code → Prop} (ht : ∀ s, R (.text s) (.text s))
    (ha : ∀ {a a' b b'}, R a a' → R b b' → R (a ++ b) (a' ++ b')) {separator : String}
    {as as' : List Code} (h : List.Forall₂ R as as') :
    R (Code.join separator as) (Code.join separator as') := by
  induction h with
  | nil => exact ht ""
  | cons hc hrest ih =>
    cases hrest with
    | nil => exact hc
    | cons => exact ha (ha hc (ht _)) ih

theorem join {separator : String} {as as' : List Code} (h : List.Forall₂ (K.code i) as as') :
    K.code i (Code.join separator as) (Code.join separator as') :=
  related_join K.text K.append h

/-! ## Chains and loops -/

variable {K}

theorem Below.arm (hb : K.Below self self') (he : K.shape i e) (hd : K.stages d d') (slot : Bool)
    {c : Condition} (hc : c ∈ e.conditions) :
    Coupled (K.states v) (emitArm self i d slot c.block) (emitArm self' i d' slot c.block)
      (K.code i) (K.states v) := by
  have hd : K.stages (if c.block = i then d else {}) (if c.block = i then d' else {}) := by
    split
    · exact hd
    · exact K.fresh
  have hcode (a b) (h : K.code c.block a b) : K.code i a b := K.block he hc h
  unfold emitArm
  refine .ite (fun _ => (hb.slotEntry hd).mono hcode) fun _ => ?_
  refine .bind K.elementAt fun b b' ⟨hbb, hs⟩ => ?_
  subst hbb
  exact .ite (fun ho => (hb.onceElement hs ho hd).mono hcode) fun _ => (hb.element hd).mono hcode

theorem Below.chain (hb : K.Below self self') (he : K.shape i e) (hd : K.stages d d') (slot : Bool)
    {cs : List Condition} (hcs : ∀ c ∈ cs, c ∈ e.conditions) :
    Coupled (K.states v) (emitChain self i d slot cs) (emitChain self' i d' slot cs)
      (K.code i) (K.states v) := by
  induction cs with
  | nil => exact .pure (K.plain (by cases slot <;> rfl))
  | cons c rest ih =>
    have harm := hb.arm he hd slot (v := v) (hcs c (List.mem_cons_self ..))
    have hrest := ih fun c hc => hcs c (List.mem_cons_of_mem _ hc)
    unfold emitChain
    cases c.expression.filled? with
    | some test =>
      exact .bind harm fun _ _ hyes => .bind hrest fun _ _ hno => .pure (K.branch hyes hno)
    | none => exact harm

theorem Below.branches (hb : K.Below self self') (he : K.shape i e) (hd : K.stages d d')
    (slot : Bool) :
    Coupled (K.states v) (emitBranches self i e d slot) (emitBranches self' i e d' slot)
      (K.code i) (K.states v) :=
  hb.chain he (K.branched hd) slot fun _ hc => hc

theorem adviseKeys : Coupled (K.states v) (adviseKeys o i e) (adviseKeys o i e)
    (fun _ _ => True) (K.states v) := by
  refine .bind (.liftFailure _) fun a b ⟨hab, _⟩ => ?_
  subst hab
  refine .ite (fun _ => ?_) fun _ => .pure trivial
  refine .bind K.siteOf fun s s' hs => ?_
  subst hs
  exact K.warning _

theorem Below.loops (hb : K.Below self self') (hd : K.stages d d') (slot : Bool) :
    Coupled (K.states v) (emitLoop o self i e d slot) (emitLoop o self' i e d' slot)
      (K.code i) (K.states v) := by
  refine .bind adviseKeys fun _ _ _ => ?_
  have hbody : Coupled (K.states v)
      (self (if slot then .slotEntry i { d with looped := true } else .element i { d with looped := true }))
      (self' (if slot then .slotEntry i { d' with looped := true } else .element i { d' with looped := true }))
      (K.code i) (K.states v) := by
    cases slot
    · exact hb.element (K.looped hd)
    · exact hb.slotEntry (K.looped hd)
  exact .bind hbody fun _ _ h => .pure (K.loop h)

/-! ## Children -/

/-- Related children of the node at `i`. -/
inductive children (K : Coupling o) (i : Nat) : Children → Children → Prop
  | none : K.children i .none .none
  | bare {a a' : Code} (h : K.code i a a') (level : Option Nat) :
      K.children i (.bare a level) (.bare a' level)
  | list {as as' : List Code} (h : List.Forall₂ (K.code i) as as') (level : Nat) :
      K.children i (.list as level) (.list as' level)

theorem children.getD {c c' : Children} (h : K.children i c c') (s : String) :
    K.code i (c.code?.getD (.text s)) (c'.code?.getD (.text s)) := by
  cases h with
  | none => exact K.text s
  | bare h level => exact K.append h (K.text _)
  | list h level => exact K.append (K.append (K.text _) (K.join h)) (K.text _)

theorem children.argument {c c' : Children} (h : K.children i c c') :
    K.code i c.argument c'.argument := by
  cases h with
  | none => exact K.text ""
  | bare h level => exact K.append (K.text _) (K.append h (K.text _))
  | list h level => exact K.append (K.text _) (K.append (K.append (K.text _) (K.join h)) (K.text _))

theorem Below.node (hb : K.Below self self') :
    Coupled (K.states v) (emitNode self i) (emitNode self' i) (K.code i) (K.states v) := by
  refine .bind K.nodeAt fun n n' hn => ?_
  rw [← hn]
  cases n.content with
  | element _ => exact hb.element K.fresh
  | comment _ | text _ | expression _ _ => exact .pure (K.plain rfl)

theorem mem_of_loneLoop {t : Tree} {cs : List Nat} {c : Nat} {loop : Element}
    (h : loneLoop? t cs = some (c, loop)) : c ∈ cs := by
  unfold loneLoop? at h
  split at h
  · split at h
    · split at h <;> cases h
      exact List.mem_singleton_self _
    · cases h
  · cases h

theorem Below.childList (hb : K.Below self self') (he : K.shape i e) (withLevel : Bool) :
    Coupled (K.states v) (emitChildren o self e withLevel) (emitChildren o self' e withLevel)
      (K.children i) (K.states v) := by
  refine .bind .get fun g h hg => ?_
  refine .ite (fun _ => .pure .none) fun _ => ?_
  rw [← loneLoop?_unflag, ← loneLoop?_unflag h.tree, ← listLevel_unflag, ← listLevel_unflag o h.tree,
    K.unflag_tree hg]
  rcases hl : loneLoop? h.tree.unflag e.children with _ | ⟨c, loop⟩
  · refine .bind (.liftFailure _) fun level level' ⟨hlevel, _⟩ => ?_
    subst hlevel
    refine .bind (.mapM fun c hc => hb.node.mono fun a b h => K.child he hc h) fun as as' has => ?_
    exact .pure (.list has level)
  · refine .bind (.liftFailure _) fun level level' ⟨hlevel, _⟩ => ?_
    subst hlevel
    refine .bind (hb.element K.fresh) fun a a' ha => ?_
    exact .pure (.bare (K.child he (mem_of_loneLoop hl) ha) level)

/-! ## Slots -/

theorem outletArguments {c c' : Children} (hc : K.children i c c') {props : Option Code}
    (hp : ∀ p, props = some p → p.isPlain = true) :
    K.code i (outletArguments e c.code? props) (outletArguments e c'.code? props) := by
  have hgiven (p : Code) (h : props = some p) : K.code i (Code.text "," ++ p) (Code.text "," ++ p) :=
    K.append (K.text _) (K.plain (hp p h))
  unfold Generator.outletArguments
  refine K.append (K.append (K.append (K.text _) ?_) ?_) ?_
  · have hbody {a a' : Code} (h : K.code i a a') :
        K.code i (Code.text ",function()\x7breturn " ++ a ++ Code.text "\x7d")
          (Code.text ",function()\x7breturn " ++ a' ++ Code.text "\x7d") :=
      K.append (K.append (K.text _) h) (K.text _)
    cases hc with
    | none => exact K.plain (by simp only [Children.code?]; split <;> rfl)
    | bare h level => exact hbody (K.append h (K.text _))
    | list h level => exact hbody (K.append (K.append (K.text _) (K.join h)) (K.text _))
  · cases props with
    | none => exact K.text ""
    | some p => exact hgiven p rfl
  · cases (e.rawValue "v-bind").filled? with
    | none => exact K.text ""
    | some b => exact K.text _

theorem Below.outlets (hb : K.Below self self') (he : K.shape i e) :
    Coupled (K.states v) (emitOutlet o self i e) (emitOutlet o self' i e) (K.code i) (K.states v) := by
  refine .bind (hb.childList he false) fun c c' hc => ?_
  refine .bind (.liftFailure _) fun props props' ⟨hpp, hp⟩ => .pure ?_
  subst hpp
  exact K.outlet (outletArguments hc fun p h => isPlain_of_outletProps (h ▸ hp))

theorem Below.scopedSlots (hb : K.Below self self') (he : K.shape i e) :
    Coupled (K.states v) (emitScopedSlots self i e) (emitScopedSlots self' i e)
      (K.code i) (K.states v) := by
  have hentries : Coupled (K.states v) (e.scopedSlots.mapM fun s => self (.slotEntry s.2 {}))
      (e.scopedSlots.mapM fun s => self' (.slotEntry s.2 {}))
      (List.Forall₂ (K.content i)) (K.states v) :=
    .mapM fun s hs => (hb.slotEntry K.fresh).mono fun a a' ha => K.definition he hs ha
  refine .bind .get fun g h hg => ?_
  refine .bind hentries fun as as' has => .pure ?_
  rw [← updateHint_unflag, ← updateHint_unflag h.tree, K.unflag_tree hg]
  exact K.append (K.text _) (K.slots _ (related_join K.contentText K.contentAppend has))

theorem slotContent {legacy : Bool} {c c' : Children} (hc : K.children i c c') :
    K.code i (slotContent i e legacy c) (slotContent i e legacy c') := by
  have h := hc.getD "undefined"
  unfold Generator.slotContent
  cases e.ifExpr.filled? with
  | none => exact h
  | some test =>
    cases legacy
    · exact h
    · exact K.branch h (K.text _)

theorem Below.slotBody (hb : K.Below self self') (he : K.shape i e) (hd : K.stages d d')
    (legacy : Bool) :
    Coupled (K.states v) (emitSlotBody o self i e d legacy) (emitSlotBody o self' i e d' legacy)
      (K.code i) (K.states v) := by
  refine .ite (fun _ => ?_) fun _ => hb.element hd
  exact .bind (hb.childList he false) fun c c' hc => .pure (slotContent hc)

theorem Below.slotDescriptor (hb : K.Below self self') (hd : K.stages d d') :
    Coupled (K.states v) (emitSlotEntry o self i d) (emitSlotEntry o self' i d')
      (K.code i) (K.states v) := by
  obtain ⟨-, hl, hbr⟩ := K.stages_agree hd
  refine .bind K.elementAt fun e e' ⟨hee, he⟩ => ?_
  subst hee
  dsimp only
  rw [hl, hbr]
  refine .ite (fun _ => hb.branches he hd true) fun _ => ?_
  refine .ite (fun _ => hb.loops hd true) fun _ => ?_
  refine .bind (hb.slotBody he hd _) fun a a' ha => ?_
  refine .bind K.elementAt fun e₁ e₁' ⟨hee, _⟩ => ?_
  subst hee
  exact .pure (K.append (K.append (K.text _) ha) (K.text _))

end Coupling

end TemplateCompiler.Generator
