import TemplateCompiler.Proofs.Generator.Coupling
import TemplateCompiler.Proofs.Plugin.Frame

/-!
# A generation puts back what it changed

While the data of an element is written, its plugins have changed its bindings, and slot definitions and
inline templates are generated meanwhile. `Preserves view x` says that `x` leaves what `view` shows of the tree as
it was, whether `x` returns or fails. Whatever the data of elements keep is kept by every emitter (`preserves_run`),
and so is what no plugin changes of its element (`preserves_shown_run`).
The plugins of element `i` keep the tree without the bindings of `i` (`Tree.unbind`), as long as each plugin keeps
the rest of its element. The bindings are put back at the end, so that writing the data keeps the whole tree
(`untouched_data`). So a generation leaves the tree that it started from (`tree_generate`).
-/

namespace TemplateCompiler

/-! ## Changing one element -/

namespace Tree

/-- The tree without the bindings of element `i`. -/
def unbind (i : Nat) (t : Tree) : Tree :=
  t.modifyElement i Element.unbound

variable {t u : Tree} {i : Nat} {e : Element}

theorem modifyElement_modifyElement (t : Tree) (i : Nat) (f h : Element → Element) :
    (t.modifyElement i f).modifyElement i h = t.modifyElement i fun e => h (f e) := by
  refine ext_node? rfl fun j => ?_
  simp only [modifyElement, node?_modifyNode]
  split
  · rcases t.node? j with _ | n
    · rfl
    · simp only [Option.map_some, Node.mapElement]
      cases hn : n.content <;> simp [hn]
  · rfl

/-- A change that does nothing to the element at an index does nothing to the tree. -/
theorem modifyElement_of_eq (he : t.element? i = some e) {f : Element → Element} (hf : f e = e) :
    t.modifyElement i f = t := by
  refine ext_node? rfl fun j => ?_
  rw [modifyElement, node?_modifyNode]
  split
  · next hij =>
    subst hij
    obtain ⟨n, hn, hne⟩ := Option.bind_eq_some_iff.mp he
    rw [hn, Option.map_some, Option.some.injEq, Node.mapElement]
    unfold Node.element? at hne
    cases hc : n.content <;> simp only [hc, Option.some.injEq, reduceCtorEq] at hne
    · subst hne
      simp only [hf]
      rw [← hc]
  · rfl

/-- Putting the bindings of an element back undoes any change of them. -/
theorem rebind_of_unbind (he : t.element? i = some e) (h : u.unbind i = t.unbind i) :
    (u.modifyElement i fun x => { x with toBindings := e.toBindings }) = t := by
  have hdrop (w : Tree) : (w.modifyElement i fun x => { x with toBindings := e.toBindings }) =
      (w.unbind i).modifyElement i fun x => { x with toBindings := e.toBindings } := by
    rw [unbind, modifyElement_modifyElement]
    rfl
  rw [hdrop, h, ← hdrop]
  exact modifyElement_of_eq he rfl

/-- Replacing an element by one with other bindings. -/
theorem unbind_replace (he : t.element? i = some e) {e' : Element} (h : e'.unbound = e.unbound) :
    (t.modifyElement i fun _ => e').unbind i = t.unbind i := by
  refine ext_node? rfl fun j => ?_
  rw [unbind, modifyElement_modifyElement, unbind, modifyElement, modifyElement, node?_modifyNode,
    node?_modifyNode]
  split
  · next hij =>
    subst hij
    obtain ⟨n, hn, hne⟩ := Option.bind_eq_some_iff.mp he
    rw [hn, Option.map_some, Option.map_some, Node.mapElement, Node.mapElement]
    unfold Node.element? at hne
    cases hc : n.content <;> simp only [hc, Option.some.injEq, reduceCtorEq] at hne
    subst hne
    rw [h]
  · rfl

end Tree

/-- No plugin changes what `f` shows of its element. -/
def Options.Keep {γ : Type} (o : Options) (f : Element → γ) : Prop :=
  ∀ name p, Table.get? name o.directives = some p → ∀ site e d, f (p.compile site e d).element = f e

/-- Every plugin changes the bindings of an element and nothing else. -/
def Options.Tidy (o : Options) : Prop :=
  ∀ name p, Table.get? name o.directives = some p →
    ∀ site e d, (p.compile site e d).element.unbound = e.unbound

theorem Options.Tidy.keep {γ : Type} {o : Options} {f : Element → γ} (h : o.Tidy) (hf : ∀ e, f e.unbound = f e) :
    o.Keep f := by
  intro name p hp site e d
  rw [← hf, h name p hp, hf]

namespace Tree

variable {γ : Type} {f : Element → γ}

/-- What `f` shows of each element. -/
def shown (f : Element → γ) (t : Tree) (i : Nat) : Option γ :=
  (t.element? i).map f

theorem shown_modifyElement {t : Tree} {i : Nat} {m : Element → Element}
    (h : ∀ e, t.element? i = some e → f (m e) = f e) : (t.modifyElement i m).shown f = t.shown f := by
  funext j
  rw [shown, element?_modifyElement]
  split
  · next hij =>
    subst hij
    rw [Option.map_map]
    exact Option.map_congr h
  · rfl

end Tree

namespace Generator

variable {α β γ : Type}

/-- What `view` shows of the tree is the same after `x` returned or failed. -/
def Preserves (view : Tree → γ) (x : GenM α) : Prop :=
  ∀ g, view (outcome x g).2.tree = view g.tree

/-- The tree is the same after `x` returned or failed. -/
abbrev Untouched (x : GenM α) : Prop :=
  Preserves id x

namespace Preserves

variable {view : Tree → γ} {x : GenM α} {f : α → GenM β} {i : Nat}

theorem of_untouched (h : Untouched x) : Preserves view x :=
  fun g => congrArg view (h g)

theorem pure (a : α) : Preserves view (pure a : GenM α) := fun _ => rfl

theorem throw (e : Failure) : Preserves view (throw e : GenM α) := fun _ => rfl

theorem get : Preserves view (get : GenM Generation) := fun _ => rfl

theorem modify {u : Generation → Generation} (h : ∀ g, (u g).tree = g.tree) :
    Preserves view (modify u : GenM Unit) :=
  fun g => congrArg view (h g)

theorem bind (hx : Preserves view x) (hf : ∀ a, Preserves view (f a)) : Preserves view (x >>= f) := by
  intro g
  rw [outcome_bind, ← hx g]
  rcases outcome x g with ⟨_ | a, g'⟩
  · rfl
  · exact hf a g'

/-- Whatever follows the look at an element knows that the tree has it. -/
theorem elementAt_bind {f : Element → GenM β}
    (h : ∀ g e, g.tree.element? i = some e → view (outcome (f e) g).2.tree = view g.tree) :
    Preserves view (elementAt i >>= f) := by
  intro g
  rw [outcome_bind, outcome_elementAt]
  rcases he : g.tree.element? i with _ | e
  · rfl
  · exact h g e he

theorem ite {c : Prop} [Decidable c] {y : GenM α} (hx : Preserves view x) (hy : Preserves view y) :
    Preserves view (if c then x else y) := by
  split
  · exact hx
  · exact hy

theorem liftFailure (r : Except Failure α) : Preserves view (liftFailure r) := by
  cases r with
  | error e => exact throw e
  | ok a => exact pure a

theorem mapM {xs : List β} {f : β → GenM α} (hf : ∀ b, Preserves view (f b)) :
    Preserves view (xs.mapM f) := by
  induction xs with
  | nil => exact pure []
  | cons b xs ih =>
    rw [List.mapM_cons]
    exact (hf b).bind fun a => ih.bind fun as => pure (a :: as)

theorem filterM {xs : List β} {f : β → GenM Bool} (hf : ∀ b, Preserves view (f b)) :
    Preserves view (xs.filterM f) := by
  have loop (kept : List β) : Preserves view (List.filterAuxM f xs kept) := by
    induction xs generalizing kept with
    | nil => exact pure kept
    | cons b xs ih => exact (hf b).bind fun _ => ih _
  exact (loop []).bind fun kept => pure kept.reverse

theorem nodeAt : Preserves view (nodeAt i) := by
  refine get.bind fun g => ?_
  split
  · exact pure _
  · exact throw _

theorem elementAt : Preserves view (elementAt i) := by
  refine nodeAt.bind fun n => ?_
  split
  · exact pure _
  · exact throw _

theorem siteOf : Preserves view (siteOf i) := get.bind fun _ => pure _

theorem flagsOf : Preserves view (flagsOf i) := get.bind fun _ => pure _

theorem warn (w : Warning) : Preserves view (warn w) := modify fun _ => rfl

theorem setVerbatim (on : Bool) : Preserves view (setVerbatim on) := modify fun _ => rfl

theorem isVerbatim : Preserves view (isVerbatim i) := fun _ => rfl

theorem restoringBindings {b : Bindings}
    (hview : ∀ t, view (t.modifyElement i fun e => { e with toBindings := b }) = view t) (hx : Preserves view x) :
    Preserves view (restoringBindings i b x) := by
  intro g
  rw [outcome_restoringBindings]
  exact (hview _).trans (hx g)

end Preserves

/-! ## Plugins -/

section

variable {o : Options} {self : Emit} {i : Nat} {e : Element} {done : Stages} {slot : Bool} {view : Tree → γ}

theorem preserves_runDirective {d : Directive} (h : ∀ p, Table.get? d.name o.directives = some p →
      ∀ site t e, t.element? i = some e → view (t.modifyElement i fun _ => (p.compile site e d).element) = view t) :
    Preserves view (runDirective o i d) := by
  unfold runDirective
  split
  · exact .pure _
  · next p hp =>
    refine .bind .siteOf fun site => .elementAt_bind fun g e he => ?_
    rw [outcome_bind, outcome_modify]
    refine (Preserves.bind (.liftFailure _) (fun _ => .pure _) _).trans ?_
    exact h p hp site g.tree e he

/-! ## Chains, loops and children -/

theorem untouched_enterVerbatim : Untouched (enterVerbatim i) :=
  .bind .isVerbatim fun _ => .ite (.setVerbatim _) (.pure _)

theorem untouched_adviseKeys : Untouched (adviseKeys o i e) :=
  .bind (.liftFailure _) fun _ => .ite (.bind .siteOf fun _ => .warn _) (.pure _)

theorem untouched_adviseInline (t : Tree) : Untouched (adviseInline t i e) :=
  .ite (.warn _) (.pure _)

theorem untouched_needsData : Untouched (needsData o i e) :=
  .ite (.pure _) (.bind .isVerbatim fun _ => .ite (.pure _) (.liftFailure _))

variable (hself : ∀ task, Preserves view (self task))

include hself

theorem preserves_hoisted : Preserves view (emitHoisted self i done) := by
  refine .bind .get fun _ => .bind (.of_untouched untouched_enterVerbatim) fun _ => .bind (hself _) fun _ => ?_
  exact .bind (.setVerbatim _) fun _ => .bind .flagsOf fun _ => .pure _

theorem preserves_chain (cs : List Condition) : Preserves view (emitChain self i done slot cs) := by
  have harm (c : Condition) : Preserves view (emitArm self i done slot c.block) := by
    unfold emitArm
    exact .ite (hself _) (.bind .elementAt fun _ => .ite (hself _) (hself _))
  induction cs with
  | nil => exact .pure _
  | cons c rest ih =>
    unfold emitChain
    split
    · exact .bind (harm c) fun _ => .bind ih fun _ => .pure _
    · exact harm c

theorem preserves_loop : Preserves view (emitLoop o self i e done slot) :=
  .bind (.of_untouched untouched_adviseKeys) fun _ => .bind (hself _) fun _ => .pure _

theorem preserves_once : Preserves view (emitOnce self i done) := by
  refine .bind .elementAt fun e => .ite (preserves_chain hself _) ?_
  refine .bind .flagsOf fun _ => .ite (preserves_hoisted hself) (.bind .get fun g => ?_)
  split
  · exact .bind (hself _) fun _ => .pure _
  · exact .bind .siteOf fun _ => .bind (.warn _) fun _ => hself _

theorem preserves_children (withLevel : Bool) : Preserves view (emitChildren o self e withLevel) := by
  have hnode (c : Nat) : Preserves view (emitNode self c) := by
    refine .bind .nodeAt fun n => ?_
    split
    · exact hself _
    all_goals exact .pure _
  refine .bind .get fun g => .ite (.pure _) ?_
  split
  · exact .bind (.liftFailure _) fun _ => .bind (hself _) fun _ => .pure _
  · exact .bind (.liftFailure _) fun _ => .bind (.mapM hnode) fun _ => .pure _

/-! ## Slots and data -/

theorem preserves_outlet : Preserves view (emitOutlet o self i e) :=
  .bind (preserves_children hself _) fun _ => .bind (.liftFailure _) fun _ => .pure _

theorem preserves_slotEntry : Preserves view (emitSlotEntry o self i done) := by
  have hbody (e : Element) (legacy : Bool) : Preserves view (emitSlotBody o self i e done legacy) :=
    .ite (.bind (preserves_children hself _) fun _ => .pure _) (hself _)
  refine .bind .elementAt fun e => .ite (preserves_chain hself _) (.ite (preserves_loop hself) ?_)
  exact .bind (hbody e _) fun _ => .bind .elementAt fun _ => .pure _

theorem preserves_inline : Preserves view (inlineEntry self i e) := by
  have htemplate (c : Nat) (child : Element) : Preserves view (emitTemplate self c child) :=
    .ite (.pure _) (hself _)
  have hapart (c : Nat) (child : Element) : Preserves view (apart (emitTemplate self c child)) :=
    .bind .get fun _ => .bind (.modify fun _ => rfl) fun _ => .bind (htemplate c child) fun _ =>
      .bind (.modify fun _ => rfl) fun _ => .pure _
  refine .ite (.bind .get fun g => .bind (.of_untouched (untouched_adviseInline _)) fun _ => ?_) (.pure _)
  split
  · exact .pure _
  · exact .bind (hapart _ _) fun _ => .pure _

theorem preserves_parts : Preserves view (emitParts o self i e) := by
  have hprops (key : String) (props : List Attr) : Preserves view (propsEntry key props) :=
    .ite (.pure _) (.bind (.liftFailure _) fun _ => .pure _)
  have hevents (events : Events) (native : Bool) : Preserves view (eventsEntry events native) :=
    .ite (.pure _) (.bind (.liftFailure _) fun _ => .pure _)
  have hslots : Preserves view (slotsEntry self i e) :=
    .ite (.pure _) (.bind (.bind .get fun _ => .bind (.mapM fun _ => hself _) fun _ => .pure _)
      fun _ => .pure _)
  refine .bind .isVerbatim fun _ => .bind (hprops _ _) fun _ => .bind (hprops _ _) fun _ => ?_
  refine .bind (hevents _ _) fun _ => .bind (hevents _ _) fun _ => .bind hslots fun _ => ?_
  exact .bind (preserves_inline hself) fun _ => .pure _

omit hself in
theorem preserves_dataObject (hparts : ∀ e, Preserves view (emitParts o self i e)) {ds : List Directive}
    (hrun : ∀ d, Preserves view (runDirective o i d)) : Preserves view (emitDataObject o self i ds) := by
  refine .bind (.bind (.filterM hrun) fun _ => .pure _) fun _ => .bind .elementAt fun e => ?_
  exact .bind (hparts e) fun _ => .bind (.liftFailure _) fun _ => .pure _

/-! ## Nodes -/

theorem preserves_nodeChildren : Preserves view (emitNodeChildren o self e) :=
  .ite (.pure _) (preserves_children hself _)

section

variable (hdata : ∀ i, Preserves view (emitData o self i))

include hdata

omit hself in
theorem preserves_dataArgument : Preserves view (emitDataArgument o self i e) :=
  .bind (.of_untouched untouched_needsData) fun _ => .ite (.bind (hdata i) fun _ => .pure _) (.pure _)

theorem preserves_create : Preserves view (emitCreate o self i e) := by
  have hbare : Preserves view (emitBare o self i e) := by
    unfold emitBare
    split
    · exact .bind (preserves_nodeChildren hself) fun _ => .bind (hdata i) fun _ => .pure _
    · refine .bind (preserves_dataArgument hdata) fun _ => .bind .elementAt fun e => ?_
      exact .bind (preserves_nodeChildren hself) fun _ => .pure _
  exact .bind hbare fun _ => .bind .elementAt fun _ => .pure _

theorem preserves_element : Preserves view (emitElement o self i done) := by
  have hplace (e : Element) : Preserves view (emitInPlace o self i e done) := by
    refine .ite (preserves_loop hself) (.ite (preserves_chain hself _) (.bind .get fun _ => ?_))
    refine .ite (.bind (preserves_children hself _) fun _ => .pure _) ?_
    exact .ite (preserves_outlet hself) (preserves_create hself hdata)
  refine .bind .elementAt fun e => .bind .flagsOf fun _ => .ite (preserves_hoisted hself) ?_
  exact .ite (preserves_once hself) (hplace e)

end

omit hself in
/-- A view that the data of elements keep is kept by all that is generated: nothing else changes the tree. -/
theorem preserves_run
    (hdata : ∀ self : Emit, (∀ task, Preserves view (self task)) → ∀ i, Preserves view (emitData o self i))
    (fuel : Nat) (task : Task) : Preserves view (run o fuel task) := by
  induction fuel generalizing task with
  | zero => exact .throw _
  | succ fuel ih =>
    cases task with
    | element i done => exact preserves_element ih (hdata _ ih)
    | onceElement i done => exact preserves_once ih
    | slotEntry i done => exact preserves_slotEntry ih

end

/-! ## Parts of elements -/

section

variable {o : Options} {f : Element → γ} (ho : o.Keep f) (hf : ∀ e, f e.unbound = f e)

include ho hf

theorem preserves_shown_data {self : Emit} (hself : ∀ task, Preserves (Tree.shown f) (self task)) (i : Nat) :
    Preserves (Tree.shown f) (emitData o self i) := by
  have hobject (ds : List Directive) : Preserves (Tree.shown f) (emitDataObject o self i ds) := by
    refine preserves_dataObject (fun _ => preserves_parts hself) fun d => ?_
    refine preserves_runDirective fun p hp site t e he => Tree.shown_modifyElement fun e' he' => ?_
    rw [ho d.name p hp, Option.some.inj (he.symm.trans he')]
  refine .bind .elementAt fun e => .ite (hobject _) (.restoringBindings (fun t => ?_) (hobject _))
  refine Tree.shown_modifyElement fun e' _ => ?_
  rw [← hf]
  exact hf e'

/-- What no plugin changes of its element, and what is no binding, is the same after a generation. -/
theorem preserves_shown_run (fuel : Nat) (task : Task) : Preserves (Tree.shown f) (run o fuel task) :=
  preserves_run (fun _ hself i => preserves_shown_data ho hf hself i) fuel task

end

/-! ## The whole tree -/

section

variable {o : Options}

/-- Without directives no plugin runs, and after the plugins ran the bindings are put back. -/
theorem untouched_data (ho : o.Tidy) {self : Emit} (hself : ∀ task, Untouched (self task)) (i : Nat) :
    Untouched (emitData o self i) := by
  refine .elementAt_bind fun g e he => ?_
  split
  · refine (Preserves.bind (.pure _) fun _ => .bind .elementAt fun e => ?_ : Untouched _) g
    exact .bind (preserves_parts hself) fun _ => .bind (.liftFailure _) fun _ => .pure _
  · have hobject : Preserves (Tree.unbind i) (emitDataObject o self i e.directives) :=
      preserves_dataObject (fun _ => .of_untouched (preserves_parts hself)) fun d =>
        preserves_runDirective fun p hp site _ e he => Tree.unbind_replace he (ho d.name p hp site e d)
    exact Tree.rebind_of_unbind he (hobject g)

theorem untouched_run (ho : o.Tidy) (fuel : Nat) (task : Task) : Untouched (run o fuel task) :=
  preserves_run (fun _ hself i => untouched_data ho hself i) fuel task

theorem untouched_root (ho : o.Tidy) (root : Option Nat) : Untouched (emitRoot o root) := by
  cases root with
  | none => exact .pure _
  | some i =>
    refine .bind .get fun g => .bind .elementAt fun e => ?_
    exact .ite (.pure _) (untouched_run ho _ _)

end

end Generator

/-- A generation leaves the tree as it was, also if it failed. -/
theorem Tree.tree_generate {o : Options} (ho : o.Tidy) (t : Tree) (root : Option Nat) :
    (t.generate o root).tree = t :=
  Generator.untouched_root ho (root.or t.root) { tree := t }

end TemplateCompiler
