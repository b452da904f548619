import TemplateCompiler.Proofs.Code.Plain
import TemplateCompiler.Proofs.Generator.Coupled

/-!
# Numbering while code is generated

Under `Placement.numbered` an emitter makes a function of a hoist when its body is finished, and the state
counts the functions and the once marks. `Lifts l x y R` says that `y`, where `l` has been lifted so far, does
the same as `x`, which leaves everything in its place: from states that are otherwise equal both fail alike, or
both return, with results that `R` relates to each other and to what has been lifted then. There is one rule
for each way in which actions are built and one lemma for each emitter, and `lifts_run` ties them together:
what is returned and what has been lifted is what `Code.lift` makes of the code that was left in its place.
-/

namespace TemplateCompiler.Generator

variable {α β γ δ : Type}

def Lifts (l : Lifted) (x : GenM α) (y : GenM β) (R : α → β → Lifted → Prop) : Prop :=
  ∀ g : Generation,
    (∃ a b g' l', outcome x g = (.ok a, g') ∧
      outcome y { g with lifted := l } = (.ok b, { g' with lifted := l' }) ∧ R a b l') ∨
    ∃ f g' l', outcome x g = (.error f, g') ∧
      outcome y { g with lifted := l } = (.error f, { g' with lifted := l' })

/-- Nothing was lifted, and the results are equal. -/
def Same (l : Lifted) (a b : α) (l' : Lifted) : Prop :=
  a = b ∧ l' = l

/-- Items of two lists are related in turn, each from what had been lifted before it. -/
inductive InTurn (R : Lifted → α → β → Lifted → Prop) : Lifted → List α → List β → Lifted → Prop
  | nil {l : Lifted} : InTurn R l [] [] l
  | cons {l l₁ l₂ : Lifted} {a : α} {b : β} {as : List α} {bs : List β} :
    R l a b l₁ → InTurn R l₁ as bs l₂ → InTurn R l (a :: as) (b :: bs) l₂

theorem InTurn.append {R : Lifted → α → β → Lifted → Prop} {l l₁ l₂ : Lifted} {as cs : List α} {bs ds : List β}
    (h : InTurn R l as bs l₁) (h' : InTurn R l₁ cs ds l₂) : InTurn R l (as ++ cs) (bs ++ ds) l₂ := by
  induction h with
  | nil => exact h'
  | cons hab _ ih => exact .cons hab (ih h')

namespace Lifts

variable {l l₀ : Lifted} {R : α → β → Lifted → Prop} {S : γ → δ → Lifted → Prop}
variable {x : GenM α} {y : GenM β} {f : α → GenM γ} {k : β → GenM δ}

theorem pure {a : α} {b : β} (h : R a b l) : Lifts l (pure a) (pure b) R :=
  fun g => .inl ⟨a, b, g, l, rfl, rfl, h⟩

theorem throw (e : Failure) : Lifts l (throw e : GenM α) (throw e : GenM β) R :=
  fun g => .inr ⟨e, g, l, rfl, rfl⟩

theorem bind (hx : Lifts l x y R) (hf : ∀ a b l', R a b l' → Lifts l' (f a) (k b) S) :
    Lifts l (x >>= f) (y >>= k) S := by
  intro g
  simp only [outcome_bind]
  obtain ⟨a, b, g', l', hx, hy, hR⟩ | ⟨e, g', l', hx, hy⟩ := hx g
  · simpa only [hx, hy] using hf a b l' hR g'
  · exact .inr ⟨e, g', l', by rw [hx], by rw [hy]⟩

/-- A step that lifts nothing and gives the same on both sides. -/
theorem step {x x' : GenM γ} {f : γ → GenM α} {k : γ → GenM β} (hx : Lifts l x x' (Same l))
    (hf : ∀ c, Lifts l (f c) (k c) R) : Lifts l (x >>= f) (x' >>= k) R := by
  refine hx.bind ?_
  rintro c _ _ ⟨rfl, rfl⟩
  exact hf c

/-- Reads of `y` alone. -/
theorem getRight {k : Generation → GenM β} (h : ∀ g : Generation, Lifts l x (k { g with lifted := l }) R) :
    Lifts l x (get >>= k) R :=
  fun g => h g g

/-- A step of `y` alone, which changes nothing but what has been lifted. -/
theorem modifyRight {u : Generation → Generation} {k : Unit → GenM β}
    (hu : ∀ g : Generation, u { g with lifted := l } = { g with lifted := l₀ }) (h : Lifts l₀ x (k ()) R) :
    Lifts l x (modify u >>= k) R := by
  intro g
  rw [outcome_bind, outcome_modify, hu]
  exact h g

theorem get {f : Generation → GenM α} {k : Generation → GenM β}
    (hf : ∀ g, Lifts l (f g) (k { g with lifted := l }) R) : Lifts l (get >>= f) (get >>= k) R :=
  fun g => hf g g

theorem modify {u v : Generation → Generation}
    (h : ∀ g, v { g with lifted := l } = { u g with lifted := l }) :
    Lifts l (modify u : GenM Unit) (modify v) (Same l) :=
  fun g => .inl ⟨(), (), u g, l, rfl, congrArg _ (h g), rfl, rfl⟩

theorem liftFailure_same (r : Except Failure α) : Lifts l (liftFailure r) (liftFailure r) (Same l) := by
  cases r with
  | error e => exact throw e
  | ok a => exact pure ⟨rfl, rfl⟩

theorem liftFailure (r : Except Failure α) : Lifts l (liftFailure r) (liftFailure r) fun a b l' =>
    r = .ok a ∧ Same l a b l' := by
  cases r with
  | error e => exact throw e
  | ok a => exact pure ⟨rfl, rfl, rfl⟩

theorem ite {c : Prop} [Decidable c] {x' : GenM α} {y' : GenM β} (hx : Lifts l x y R)
    (hy : Lifts l x' y' R) : Lifts l (if c then x else x') (if c then y else y') R := by
  split
  · exact hx
  · exact hy

theorem mapM {R : Lifted → β → γ → Lifted → Prop} {as : List α} {f : α → GenM β} {k : α → GenM γ}
    (hf : ∀ a l, Lifts l (f a) (k a) (R l)) : Lifts l (as.mapM f) (as.mapM k) (InTurn R l) := by
  induction as generalizing l with
  | nil => exact pure .nil
  | cons a as ih =>
    rw [List.mapM_cons, List.mapM_cons]
    refine (hf a l).bind fun c d l₁ hc => ?_
    exact ih.bind fun cs ds l₂ hcs => pure (.cons hc hcs)

theorem filterM {as : List α} {f : α → GenM Bool} (hf : ∀ a, Lifts l (f a) (f a) (Same l)) :
    Lifts l (as.filterM f) (as.filterM f) (Same l) := by
  have loop (kept : List α) :
      Lifts l (List.filterAuxM f as kept) (List.filterAuxM f as kept) (Same l) := by
    induction as generalizing kept with
    | nil => exact pure ⟨rfl, rfl⟩
    | cons a as ih => exact (hf a).step fun keep => ih _
  exact (loop []).step fun kept => pure ⟨rfl, rfl⟩

theorem restoringBindings (i : Nat) (b : Bindings) {x y : GenM α} {R : α → α → Lifted → Prop}
    (hx : Lifts l x y R) : Lifts l (restoringBindings i b x) (restoringBindings i b y) R := by
  intro g
  simp only [outcome_restoringBindings]
  obtain ⟨a, a', g', l', hx, hy, hR⟩ | ⟨e, g', l', hx, hy⟩ := hx g
  · exact .inl ⟨a, a', _, l', by rw [hx], by rw [hy], hR⟩
  · exact .inr ⟨e, _, l', by rw [hx], by rw [hy]⟩

theorem apart {x y : GenM α} {R : α → α → Lifted → Prop} (hx : Lifts l x y R) :
    Lifts l (apart x) (apart y) R := by
  refine get fun outer => (modify fun _ => rfl).step fun _ => ?_
  refine hx.bind fun a b l' hR => ?_
  exact (modify fun _ => rfl).step fun _ => pure hR

end Lifts

/-! ## What lifting leaves -/

/-- `d` is left of `c` when it is lifted after `l`. -/
def Leaves (l : Lifted) (c d : Code) (l' : Lifted) : Prop :=
  c.lift l = (d, l')

namespace Leaves

variable {l l₁ l₂ : Lifted} {a a' b b' c : Code}

theorem text (s : String) : Leaves l (.text s) (.text s) l := rfl

theorem plain (h : c.isPlain = true) : Leaves l c c l :=
  Code.lift_of_isPlain h l

theorem append (ha : Leaves l a a' l₁) (hb : Leaves l₁ b b' l₂) : Leaves l (a ++ b) (a' ++ b') l₂ := by
  rw [Leaves] at ha hb
  show (Code.append a b).lift l = (Code.append a' b', l₂)
  simp only [Code.lift, ha, hb]

theorem appendPlain (ha : Leaves l a a' l₁) (hc : c.isPlain = true) : Leaves l (a ++ c) (a' ++ c) l₁ :=
  ha.append (plain hc)

theorem callHelper (h : Helper) (ha : Leaves l a a' l₁) : Leaves l (.callHelper h a) (.callHelper h a') l₁ :=
  ((plain rfl).append ha).append (text ")")

theorem branch (i : Nat) (test : String) (ha : Leaves l a a' l₁) (hb : Leaves l₁ b b' l₂) :
    Leaves l (.branch i test a b) (.branch i test a' b') l₂ := by
  rw [Leaves] at ha hb ⊢
  simp only [Code.lift, ha, hb]

theorem node (i : Nat) (target : String) (ha : Leaves l a a' l₁) (hb : Leaves l₁ b b' l₂) :
    Leaves l (.create i false target a b) (.create i false target a' b') l₂ := by
  rw [Leaves] at ha hb ⊢
  simp only [Code.lift, ha, hb]

theorem component (i : Nat) (target : String) (hb : Leaves l b b' l₁) (ha : Leaves l₁ a a' l₂) :
    Leaves l (.create i true target a b) (.create i true target a' b') l₂ := by
  rw [Leaves] at ha hb ⊢
  simp only [Code.lift, ha, hb]

theorem join (separator : String) {cs ds : List Code} (h : InTurn Leaves l cs ds l₁) :
    Leaves l (.join separator cs) (.join separator ds) l₁ := by
  induction h with
  | nil => exact .text ""
  | cons hcd hrest ih =>
    cases hrest with
    | nil => exact hcd
    | cons hcd' hrest => exact (hcd.append (.text separator)).append ih

/-- A module rewrites the text of code that everything has been lifted from. -/
theorem transform (m : CompilerModule) (e : Element) (ha : Leaves l a a' l₁) :
    Leaves l (m.transform e a) (m.transform e a') l₁ := by
  unfold CompilerModule.transform
  cases m.output with
  | keep => exact ha
  | rewrite f => rw [Leaves, Code.lift, ha]

theorem transforms (ms : List CompilerModule) (e : Element) (ha : Leaves l a a' l₁) :
    Leaves l (ms.foldl (fun code m => m.transform e code) a) (ms.foldl (fun code m => m.transform e code) a') l₁ := by
  induction ms generalizing a a' with
  | nil => exact ha
  | cons m ms ih => exact ih (ha.transform m e)

theorem mergeObjects (e : Element) (ha : Leaves l a a' l₁) :
    Leaves l (mergeObjects e a) (mergeObjects e a') l₁ := by
  have hdata : Leaves l ((e.wrapData.map fun b => b.wrap a).getD a) ((e.wrapData.map fun b => b.wrap a').getD a')
      l₁ := by
    cases e.wrapData with
    | none => exact ha
    | some b => exact ((text _).append ha).append (text _)
  unfold Generator.mergeObjects
  cases e.wrapListeners with
  | none => exact hdata
  | some b => exact ((text _).append hdata).append (text _)

end Leaves

/-- What is left of the children of an element. -/
inductive LeavesChildren (l : Lifted) : Children → Children → Lifted → Prop
  | none : LeavesChildren l .none .none l
  | bare {c d : Code} {l' : Lifted} (level : Option Nat) :
    Leaves l c d l' → LeavesChildren l (.bare c level) (.bare d level) l'
  | list {cs ds : List Code} {l' : Lifted} (level : Nat) :
    InTurn Leaves l cs ds l' → LeavesChildren l (.list cs level) (.list ds level) l'

namespace LeavesChildren

variable {l l' : Lifted} {c d : Children}

/-- There is no code on either side, or what is left of it is the code of what is left. -/
theorem code? (h : LeavesChildren l c d l') :
    c.code? = Option.none ∧ d.code? = Option.none ∧ l' = l ∨
      ∃ a b, c.code? = some a ∧ d.code? = some b ∧ Leaves l a b l' := by
  cases h with
  | none => exact .inl ⟨rfl, rfl, rfl⟩
  | bare level h => exact .inr ⟨_, _, rfl, rfl, h.append (.text _)⟩
  | list level h => exact .inr ⟨_, _, rfl, rfl, ((Leaves.text _).append (.join "," h)).append (.text _)⟩

theorem getD (h : LeavesChildren l c d l') (text : String) :
    Leaves l (c.code?.getD (.text text)) (d.code?.getD (.text text)) l' := by
  obtain ⟨hc, hd, rfl⟩ | ⟨a, b, hc, hd, hab⟩ := h.code?
  · rw [hc, hd]
    exact .text text
  · rw [hc, hd]
    exact hab

theorem argument (h : LeavesChildren l c d l') : Leaves l c.argument d.argument l' := by
  unfold Children.argument
  obtain ⟨hc, hd, rfl⟩ | ⟨a, b, hc, hd, hab⟩ := h.code?
  · rw [hc, hd]
    exact .text ""
  · rw [hc, hd]
    exact (Leaves.text ",").append hab

/-- The properties of an outlet are plain, so what it falls back to is all that can be lifted. -/
theorem outletArguments {e : Element} {props : Option Code} (h : LeavesChildren l c d l')
    (hp : ∀ p, props = some p → p.isPlain = true) :
    Leaves l (outletArguments e c.code? props) (outletArguments e d.code? props) l' := by
  unfold Generator.outletArguments
  refine (((Leaves.text _).append ?_).appendPlain ?_).appendPlain ?_
  · obtain ⟨hc, hd, rfl⟩ | ⟨a, b, hc, hd, hab⟩ := h.code?
    · rw [hc, hd]
      dsimp only
      split <;> exact .text _
    · rw [hc, hd]
      exact ((Leaves.text _).append hab).append (.text _)
  · cases props with
    | none => rfl
    | some p => exact hp p rfl
  · cases (e.rawValue "v-bind").filled? <;> rfl

end LeavesChildren

/-- What is left of a part of a data object. -/
inductive LeavesPart (l : Lifted) : DataPart → DataPart → Lifted → Prop
  | entry {c d : Code} {l' : Lifted} : Leaves l c d l' → LeavesPart l (.entry c) (.entry d) l'
  | fragments (text : String) : LeavesPart l (.fragments text) (.fragments text) l

/-- What is left of the parts of a data object. -/
abbrev LeavesParts := InTurn LeavesPart

namespace LeavesParts

variable {l l' : Lifted} {ps qs : List DataPart}

theorem plain (h : ∀ p ∈ ps, p.isPlain = true) : LeavesParts l ps ps l := by
  induction ps with
  | nil => exact .nil
  | cons p ps ih =>
    obtain ⟨hp, hps⟩ := List.forall_mem_cons.mp h
    refine .cons ?_ (ih hps)
    cases p with
    | entry c => exact .entry (.plain hp)
    | fragments text => exact .fragments text

/-- Blank parts stay as they are. -/
theorem blank (h : LeavesParts l ps qs l') :
    ps.all DataPart.isBlank = qs.all DataPart.isBlank ∧ (ps.all DataPart.isBlank = true → l' = l) := by
  induction h with
  | nil => exact ⟨rfl, fun _ => rfl⟩
  | cons hpq _ ih =>
    cases hpq with
    | entry h => exact ⟨rfl, nofun⟩
    | fragments text =>
      rw [List.all_cons, List.all_cons, ih.1]
      exact ⟨rfl, fun h => ih.2 (ih.1 ▸ (Bool.and_eq_true_iff.mp h).2)⟩

theorem join (h : LeavesParts l ps qs l') : Leaves l (DataPart.join ps) (DataPart.join qs) l' := by
  induction h with
  | nil => exact .text ""
  | @cons l l₁ l₂ p q ps qs hpq hrest ih =>
    obtain ⟨hall, hl⟩ := blank hrest
    rw [DataPart.join, DataPart.join, ← hall]
    split
    · obtain rfl := hl ‹_›
      cases hpq with
      | entry h => exact h
      | fragments text => exact .text _
    · refine Leaves.append ?_ ih
      cases hpq with
      | entry h => exact h.append (.text ",")
      | fragments text => exact .text text

end LeavesParts

/-! ## Actions that lift nothing -/

section

variable {l : Lifted} {i : Nat} {o : Options} {e : Element}

theorem lifts_nodeAt : Lifts l (nodeAt i) (nodeAt i) (Same l) := by
  refine .get fun g => ?_
  rcases g.tree.node? i with _ | n
  · exact .throw _
  · exact .pure ⟨rfl, rfl⟩

theorem lifts_elementAt : Lifts l (elementAt i) (elementAt i) (Same l) := by
  refine lifts_nodeAt.step fun n => ?_
  rcases n.element? with _ | e
  · exact .throw _
  · exact .pure ⟨rfl, rfl⟩

theorem lifts_siteOf : Lifts l (siteOf i) (siteOf i) (Same l) :=
  .get fun _ => .pure ⟨rfl, rfl⟩

theorem lifts_flagsOf : Lifts l (flagsOf i) (flagsOf i) (Same l) :=
  .get fun _ => .pure ⟨rfl, rfl⟩

theorem lifts_warn (w : Warning) : Lifts l (warn w) (warn w) (Same l) :=
  .modify fun _ => rfl

theorem lifts_setVerbatim (on : Bool) : Lifts l (setVerbatim on) (setVerbatim on) (Same l) :=
  .modify fun _ => rfl

theorem lifts_isVerbatim : Lifts l (isVerbatim i) (isVerbatim i) (Same l) :=
  fun _ => .inl ⟨_, _, _, l, rfl, rfl, rfl, rfl⟩

theorem lifts_enterVerbatim : Lifts l (enterVerbatim i) (enterVerbatim i) (Same l) :=
  lifts_isVerbatim.step fun _ => .ite (lifts_setVerbatim true) (.pure ⟨rfl, rfl⟩)

theorem lifts_adviseKeys : Lifts l (adviseKeys o i e) (adviseKeys o i e) (Same l) := by
  refine (Lifts.liftFailure_same _).step fun component => ?_
  exact .ite (lifts_siteOf.step fun site => lifts_warn _) (.pure ⟨rfl, rfl⟩)

theorem lifts_needsData : Lifts l (needsData o i e) (needsData o i e) (Same l) := by
  refine .ite (.pure ⟨rfl, rfl⟩) (lifts_isVerbatim.step fun verbatim => ?_)
  exact .ite (.pure ⟨rfl, rfl⟩) (Lifts.liftFailure_same _)

theorem lifts_runDirective (d : Directive) :
    Lifts l (runDirective o i d) (runDirective o i d) (Same l) := by
  unfold runDirective
  rcases Table.get? d.name o.directives with _ | plugin
  · exact .pure ⟨rfl, rfl⟩
  · refine lifts_siteOf.step fun site => lifts_elementAt.step fun e => ?_
    refine (Lifts.modify fun _ => rfl).step fun _ => ?_
    exact (Lifts.liftFailure_same _).step fun reply => .pure ⟨rfl, rfl⟩

theorem lifts_adviseInline (t : Tree) : Lifts l (adviseInline t i e) (adviseInline t i e) (Same l) :=
  .ite (lifts_warn _) (.pure ⟨rfl, rfl⟩)

theorem lifts_propsEntry (key : String) (props : List Attr) :
    Lifts l (propsEntry key props) (propsEntry key props) (LeavesParts l) := by
  refine .ite (.pure .nil) ((Lifts.liftFailure _).bind ?_)
  rintro k _ _ ⟨hk, rfl, rfl⟩
  exact .pure (.plain (List.forall_mem_singleton.mpr (isPlain_of_propsEntries hk)))

theorem lifts_eventsEntry (events : Events) (native : Bool) :
    Lifts l (eventsEntry events native) (eventsEntry events native) (LeavesParts l) := by
  refine .ite (.pure .nil) ((Lifts.liftFailure _).bind ?_)
  rintro c _ _ ⟨hc, rfl, rfl⟩
  exact .pure (.plain (List.forall_mem_singleton.mpr (isPlain_of_eventsCode hc)))

theorem lifts_emitDirectives (directives : List Directive) :
    Lifts l (emitDirectives o i directives) (emitDirectives o i directives) (LeavesParts l) :=
  (Lifts.filterM lifts_runDirective).step fun _ =>
    .pure (.plain fun _ hp => DataPart.isPlain_of_directivesEntry hp)

/-- The attributes that are merged into data are plain. -/
theorem lifts_bindDynamicAttrs {l' : Lifted} {a b : Code} (h : Leaves l a b l') :
    Lifts l' (liftFailure (bindDynamicAttrs e a)) (liftFailure (bindDynamicAttrs e b)) (Leaves l) := by
  unfold bindDynamicAttrs
  dsimp only
  split
  · exact .pure h
  · rcases hk : propsEntries (e.dynamicAttrs.getD []) with f | k
    · exact .throw f
    · exact .pure (.callHelper _ ((h.append (.text _)).appendPlain (isPlain_of_propsEntries hk)))

/-! ## Placements -/

/-- The body of a hoist becomes the next function. -/
theorem lifts_hoist {l' : Lifted} {body body' : Code} (inLoop : Bool) (h : Leaves l body body' l') :
    Lifts l' (Placement.plan.hoist i inLoop body) (Placement.numbered.hoist i inLoop body') (Leaves l) := by
  refine fun g => .inl ⟨_, _, g, _, rfl, rfl, ?_⟩
  rw [Leaves, Code.lift, h]

theorem lifts_once {l' : Lifted} {body body' : Code} (key : String) (h : Leaves l body body' l') :
    Lifts l' (Placement.plan.once i key body) (Placement.numbered.once i key body') (Leaves l) := by
  refine fun g => .inl ⟨_, _, g, _, rfl, rfl, ?_⟩
  rw [Leaves, Code.lift, h]

/-- A template has functions and marks of its own, and those around it are back when it is finished. -/
theorem lifts_template {x y : GenM Code} (h : Lifts {} x y (Leaves {})) :
    Lifts l (Placement.plan.template x) (Placement.numbered.template y) fun c d l' =>
      l' = l ∧ Code.inlineEntry (c.lift {}).1 (c.lift {}).2.functions = d := by
  show Lifts l (apart x) _ _
  rw [← bind_pure (apart x)]
  refine .getRight fun g => .modifyRight (fun g => rfl) (h.apart.bind fun c d l' hcd => ?_)
  exact .getRight fun g => .modifyRight (fun g => rfl) (.pure ⟨rfl, by rw [hcd]⟩)

end

/-! ## Stages -/

/-- Tasks that are generated in place on one side, and numbered on the other. -/
def LiftsBelow (self self' : Emit) : Prop :=
  ∀ task l, Lifts l (self task) (self' task) (Leaves l)

section

variable {self self' : Emit} (hself : LiftsBelow self self') {l : Lifted} {o : Options} {i : Nat} {e : Element}
  {done : Stages} {slot : Bool}

include hself

theorem lifts_emitHoisted :
    Lifts l (emitHoisted self i done) (emitHoisted (p := .numbered) self' i done) (Leaves l) := by
  refine .get fun outer => lifts_enterVerbatim.step fun _ => ?_
  refine (hself _ l).bind fun body body' l₁ hbody => ?_
  exact (lifts_setVerbatim _).step fun _ => lifts_flagsOf.step fun flags => lifts_hoist _ hbody

theorem lifts_emitArm (block : Nat) :
    Lifts l (emitArm self i done slot block) (emitArm self' i done slot block) (Leaves l) :=
  .ite (hself _ l) (lifts_elementAt.step fun _ => .ite (hself _ l) (hself _ l))

theorem lifts_emitChain (conditions : List Condition) :
    Lifts l (emitChain self i done slot conditions) (emitChain self' i done slot conditions) (Leaves l) := by
  induction conditions generalizing l with
  | nil =>
    refine .pure ?_
    cases slot <;> rfl
  | cons c rest ih =>
    unfold emitChain
    rcases c.expression.filled? with _ | test
    · exact lifts_emitArm hself c.block
    · refine (lifts_emitArm hself c.block).bind fun yes yes' l₁ hyes => ?_
      exact ih.bind fun no no' l₂ hno => .pure (.branch i test hyes hno)

theorem lifts_emitBranches :
    Lifts l (emitBranches self i e done slot) (emitBranches self' i e done slot) (Leaves l) :=
  lifts_emitChain hself e.conditions

theorem lifts_emitLoop :
    Lifts l (emitLoop o self i e done slot) (emitLoop o self' i e done slot) (Leaves l) := by
  refine lifts_adviseKeys.step fun _ => (hself _ l).bind fun body body' l₁ hbody => .pure ?_
  rw [Leaves, Code.lift, hbody]

theorem lifts_emitOnce :
    Lifts l (emitOnce self i done) (emitOnce (p := .numbered) self' i done) (Leaves l) := by
  refine lifts_elementAt.step fun e => .ite (lifts_emitBranches hself) ?_
  refine lifts_flagsOf.step fun flags => .ite (lifts_emitHoisted hself) (.get fun g => ?_)
  rcases loopKey? (g.tree.ancestorElements i) with _ | key
  · exact lifts_siteOf.step fun site => (lifts_warn _).step fun _ => hself _ l
  · exact (hself _ l).bind fun body body' l₁ hbody => lifts_once key hbody

/-! ## Children and slots -/

theorem lifts_emitNode : Lifts l (emitNode self i) (emitNode self' i) (Leaves l) := by
  refine lifts_nodeAt.step fun n => ?_
  rcases n.content with e | text | text | ⟨code, text⟩
  · exact hself _ l
  all_goals exact .pure rfl

theorem lifts_emitChildren (withLevel : Bool) :
    Lifts l (emitChildren o self e withLevel) (emitChildren o self' e withLevel) (LeavesChildren l) := by
  refine .get fun g => .ite (.pure .none) ?_
  dsimp only
  rcases loneLoop? g.tree e.children with _ | ⟨c, loop⟩
  · refine (Lifts.liftFailure_same _).step fun level => ?_
    exact (Lifts.mapM fun i l => lifts_emitNode hself).bind fun cs ds l' h => .pure (.list level h)
  · refine (Lifts.liftFailure_same _).step fun level => ?_
    exact (hself _ l).bind fun c d l' h => .pure (.bare level h)

/-- The properties of an outlet are plain, so what it falls back to is all that can be lifted. -/
theorem lifts_emitOutlet : Lifts l (emitOutlet o self i e) (emitOutlet o self' i e) (Leaves l) := by
  refine (lifts_emitChildren hself false).bind fun c d l' hcd => ?_
  refine (Lifts.liftFailure _).bind ?_
  rintro props _ _ ⟨hprops, rfl, rfl⟩
  refine .pure ?_
  rw [Leaves, Code.lift, hcd.outletArguments fun p hp => isPlain_of_outletProps (hprops.trans (by rw [hp]))]

theorem lifts_emitScopedSlots : Lifts l (emitScopedSlots self i e) (emitScopedSlots self' i e) (Leaves l) := by
  refine .get fun g => (Lifts.mapM fun s l => hself _ l).bind fun cs ds l' h => .pure ?_
  refine (Leaves.text _).append ?_
  rw [Leaves, Code.lift, Leaves.join "," h]

theorem lifts_emitSlotBody (legacy : Bool) :
    Lifts l (emitSlotBody o self i e done legacy) (emitSlotBody o self' i e done legacy) (Leaves l) := by
  refine .ite ((lifts_emitChildren hself false).bind fun c d l' h => .pure ?_) (hself _ l)
  have hcontent := h.getD "undefined"
  unfold slotContent
  dsimp only
  split
  · split
    · exact .branch i _ hcontent (.text _)
    · exact hcontent
  · exact hcontent

theorem lifts_emitSlotEntry : Lifts l (emitSlotEntry o self i done) (emitSlotEntry o self' i done) (Leaves l) := by
  refine lifts_elementAt.step fun e => .ite (lifts_emitBranches hself) (.ite (lifts_emitLoop hself) ?_)
  refine (lifts_emitSlotBody hself _).bind fun c d l' h => lifts_elementAt.step fun e' => .pure ?_
  exact ((Leaves.text _).append h).append (.text _)

/-! ## Data -/

theorem lifts_slotsEntry : Lifts l (slotsEntry self i e) (slotsEntry self' i e) (LeavesParts l) := by
  refine .ite (.pure .nil) ((lifts_emitScopedSlots hself).bind fun c d l' h => .pure ?_)
  exact .cons (.entry h) .nil

theorem lifts_emitTemplate (l : Lifted) : Lifts l (emitTemplate self i e) (emitTemplate self' i e) (Leaves l) :=
  .ite (.pure (.text _)) (hself _ l)

/-- What has been lifted around an inline template stays as it is. -/
theorem lifts_emitInline : Lifts l (emitInline self i e) (emitInline (p := .numbered) self' i e) fun ps qs l' =>
    LeavesParts l ps qs l' ∧ l' = l := by
  refine .get fun g => (lifts_adviseInline g.tree).step fun _ => ?_
  dsimp only
  rcases firstElement? g.tree e with _ | ⟨c, child⟩
  · exact .pure ⟨.nil, rfl⟩
  · refine (lifts_template (lifts_emitTemplate hself {})).bind ?_
    rintro c d _ ⟨rfl, rfl⟩
    exact .pure ⟨.cons (.entry rfl) .nil, rfl⟩

theorem lifts_inlineEntry : Lifts l (inlineEntry self i e) (inlineEntry (p := .numbered) self' i e) fun ps qs l' =>
    LeavesParts l ps qs l' ∧ l' = l :=
  .ite (lifts_emitInline hself) (.pure ⟨.nil, rfl⟩)

theorem lifts_emitParts :
    Lifts l (emitParts o self i e) (emitParts (p := .numbered) o self' i e) (LeavesParts l) := by
  refine lifts_isVerbatim.step fun verbatim => ?_
  have hown : LeavesParts l (ownEntries o e verbatim) (ownEntries o e verbatim) l :=
    .plain fun p hp => DataPart.isPlain_of_ownEntries hp
  refine (lifts_propsEntry _ _).bind fun attrs attrs' l₁ hattrs => ?_
  refine (lifts_propsEntry _ _).bind fun props props' l₂ hprops => ?_
  refine (lifts_eventsEntry _ _).bind fun events events' l₃ hevents => ?_
  refine (lifts_eventsEntry _ _).bind fun native native' l₄ hnative => ?_
  refine (lifts_slotsEntry hself).bind fun slots slots' l₅ hslots => ?_
  refine (lifts_inlineEntry hself).bind fun inline inline' l₆ ⟨hinline, _⟩ => .pure ?_
  have htarget : LeavesParts l₄ (targetEntry e) (targetEntry e) l₄ :=
    .plain fun p hp => DataPart.isPlain_of_targetEntry hp
  have hmodel : LeavesParts l₅ (e.model.map modelEntry).toList (e.model.map modelEntry).toList l₅ := by
    refine .plain fun p hp => ?_
    obtain ⟨m, -, rfl⟩ := Option.map_eq_some_iff.mp (Option.mem_toList.mp hp)
    rfl
  exact (((((((hown.append hattrs).append hprops).append hevents).append hnative).append htarget).append
    hslots).append hmodel).append hinline

theorem lifts_emitDataObject (directives : List Directive) :
    Lifts l (emitDataObject o self i directives) (emitDataObject (p := .numbered) o self' i directives)
      (Leaves l) := by
  refine (lifts_emitDirectives directives).bind fun kept kept' l₁ hkept => ?_
  refine lifts_elementAt.step fun e => (lifts_emitParts hself).bind fun parts parts' l₂ hparts => ?_
  have hjoin : Leaves l (DataPart.join (kept ++ parts)) (DataPart.join (kept' ++ parts')) l₂ :=
    LeavesParts.join (hkept.append hparts)
  refine (lifts_bindDynamicAttrs (((Leaves.text _).append hjoin).append (.text _))).bind fun c d l₃ h => ?_
  exact .pure (h.mergeObjects e)

theorem lifts_emitData : Lifts l (emitData o self i) (emitData (p := .numbered) o self' i) (Leaves l) :=
  lifts_elementAt.step fun _ => .ite (lifts_emitDataObject hself _)
    (.restoringBindings _ _ (lifts_emitDataObject hself _))

/-! ## Elements -/

theorem lifts_emitFragment : Lifts l (emitFragment o self i e) (emitFragment o self' i e) (Leaves l) := by
  refine (lifts_emitChildren hself false).bind fun c d l' h => .pure ?_
  rw [Leaves, Code.lift, h.getD "void 0"]

theorem lifts_emitNodeChildren :
    Lifts l (emitNodeChildren o self e) (emitNodeChildren o self' e) (LeavesChildren l) :=
  .ite (.pure .none) (lifts_emitChildren hself true)

/-- The children of a dynamic component are generated before its data. -/
theorem lifts_emitComponent (name : String) :
    Lifts l (emitComponent o self i e name) (emitComponent (p := .numbered) o self' i e name) (Leaves l) := by
  refine (lifts_emitNodeChildren hself).bind fun children children' l₁ hchildren => ?_
  refine (lifts_emitData hself).bind fun data data' l₂ hdata => .pure ?_
  exact .component i name hchildren.argument ((Leaves.text ",").append hdata)

theorem lifts_emitDataArgument :
    Lifts l (emitDataArgument o self i e) (emitDataArgument (p := .numbered) o self' i e) (Leaves l) := by
  refine lifts_needsData.step fun needed => .ite ?_ (.pure (.text ""))
  exact (lifts_emitData hself).bind fun data data' l₁ hdata => .pure ((Leaves.text ",").append hdata)

theorem lifts_emitPlain :
    Lifts l (emitPlain o self i e) (emitPlain (p := .numbered) o self' i e) (Leaves l) := by
  refine (lifts_emitDataArgument hself).bind fun data data' l₁ hdata => lifts_elementAt.step fun e => ?_
  refine (lifts_emitNodeChildren hself).bind fun children children' l₂ hchildren => .pure ?_
  exact .node i _ hdata hchildren.argument

theorem lifts_emitBare : Lifts l (emitBare o self i e) (emitBare (p := .numbered) o self' i e) (Leaves l) := by
  unfold emitBare
  rcases e.component.filled? with _ | name
  · exact lifts_emitPlain hself
  · exact lifts_emitComponent hself name

theorem lifts_emitCreate :
    Lifts l (emitCreate o self i e) (emitCreate (p := .numbered) o self' i e) (Leaves l) :=
  (lifts_emitBare hself).bind fun _ _ _ h => lifts_elementAt.step fun e => .pure (h.transforms o.modules e)

theorem lifts_emitInPlace :
    Lifts l (emitInPlace o self i e done) (emitInPlace (p := .numbered) o self' i e done) (Leaves l) := by
  refine .ite (lifts_emitLoop hself) (.ite (lifts_emitBranches hself) ?_)
  exact .get fun g => .ite (lifts_emitFragment hself) (.ite (lifts_emitOutlet hself) (lifts_emitCreate hself))

theorem lifts_emitElement :
    Lifts l (emitElement o self i done) (emitElement (p := .numbered) o self' i done) (Leaves l) :=
  lifts_elementAt.step fun _ => lifts_flagsOf.step fun _ =>
    .ite (lifts_emitHoisted hself) (.ite (lifts_emitOnce hself) (lifts_emitInPlace hself))

theorem lifts_step : LiftsBelow (step o self) (step (p := .numbered) o self') := by
  intro task l
  cases task with
  | element i done => exact lifts_emitElement hself
  | onceElement i done => exact lifts_emitOnce hself
  | slotEntry i done => exact lifts_emitSlotEntry hself

end

/-! ## Generations -/

/-- What is numbered on the way is what is left when everything is lifted afterwards. -/
theorem lifts_run (o : Options) (fuel : Nat) : LiftsBelow (run o fuel) (run (p := .numbered) o fuel) := by
  induction fuel with
  | zero => exact fun _ _ => .throw _
  | succ fuel ih => exact lifts_step ih

theorem lifts_emitRoot (o : Options) (root : Option Nat) (l : Lifted) :
    Lifts l (emitRoot o root) (emitRoot (p := .numbered) o root) (Leaves l) := by
  cases root with
  | none => exact .pure (.plain rfl)
  | some i => exact .get fun g => lifts_elementAt.step fun e => lifts_emitTemplate (lifts_run o _) l

end Generator

open Generator

/-- A generation that numbers on the way fails like one that leaves everything in its place, or it leaves the
same but for what has been lifted. -/
theorem Tree.generate_numbered (t : Tree) (o : Options) (root : Option Nat) :
    (∃ c, (t.generate o root).code = .ok c ∧ t.generate (p := .numbered) o root =
      { t.generate o root with code := .ok (c.lift {}).1, lifted := (c.lift {}).2 }) ∨
    ∃ f l, (t.generate o root).code = .error f ∧
      t.generate (p := .numbered) o root = { t.generate o root with lifted := l } := by
  simp only [generate_eq]
  obtain ⟨c, d, g, l, hplan, hnumbered, hcd⟩ | ⟨f, g, l, hplan, hnumbered⟩ :=
    lifts_emitRoot o (root.or t.root) {} { tree := t }
  · refine .inl ⟨c, ?_, ?_⟩
    · rw [hplan]
    · rw [hplan, hnumbered, hcd]
  · refine .inr ⟨f, l, ?_, ?_⟩
    · rw [hplan]
    · rw [hplan, hnumbered]

end TemplateCompiler
