import TemplateCompiler.Proofs.Code.Marks
import TemplateCompiler.Proofs.Generator.Rebound
import TemplateCompiler.Proofs.Generator.Tasks
import TemplateCompiler.Proofs.Generator.Yields

/-!
# Where hoists and outlets come from

`Task.share` is an account of what a step does: the hoist or outlet that it adds itself, and the tasks below whose
code it uses, each of them once. `Generator.budget` sums the account up to a bounded depth, and `marks_run` says
that generated code has no more marks than that, as long as modules add none and plugins keep to bindings.
What is said about a budget, by an induction on its depth, is then said about code.
-/

namespace TemplateCompiler

/-- Modules add no hoists and no outlets. -/
def Options.Unmarking (o : Options) : Prop :=
  ∀ m ∈ o.modules, ∀ e c, (m.transform e c).marks ≤ c.marks

theorem Options.tidy_standard {o : Options} {names : Names} {reserved : String → Bool}
    (h : o.directives = DirectivePlugin.standard names reserved) : o.Tidy :=
  fun _ _ hp site e d => unbound_standard (h ▸ hp) site e d

theorem Options.unmarking_standard {o : Options} (h : o.modules = CompilerModule.standard) : o.Unmarking :=
  fun _ hm e c => (congrArg Code.marks (CompilerModule.transform_standard (h ▸ hm) e c)).le

/-! ## The account -/

namespace Generator

variable (t : Tree) (b : Task → Multiset Mark)

/-- The task for an arm of the chain of element `i`. -/
def armTask (i : Nat) (done : Stages) (slot : Bool) (block : Nat) : Task :=
  let done := if block = i then done else {}
  if slot then .slotEntry block done
  else if ((t.element? block).map fun e => e.once.truthy).getD false then .onceElement block done
  else .element block done

@[simp] theorem index_armTask (i : Nat) (done : Stages) (slot : Bool) (block : Nat) :
    (armTask t i done slot block).index = block := by
  unfold armTask
  dsimp only
  split
  · rfl
  · split <;> rfl

def childShare (e : Element) : Multiset Mark :=
  (e.children.map fun c => b (.element c {})).sum

def slotShare (e : Element) : Multiset Mark :=
  (e.scopedSlots.map fun s => b (.slotEntry s.2 {})).sum

def armShare (i : Nat) (e : Element) (done : Stages) (slot : Bool) : Multiset Mark :=
  (e.conditions.map fun c => b (armTask t i { done with branched := true } slot c.block)).sum

def hoistShare (i : Nat) (done : Stages) : Multiset Mark :=
  .hoist i ::ₘ b (.element i { done with hoisted := true })

def onceShare (i : Nat) (e : Element) (done : Stages) : Multiset Mark :=
  let done := { done with once := true }
  if e.tested && !done.branched then armShare t b i e done false
  else if !(t.flags i).inLoop.truthy then hoistShare b i done
  else b (.element i done)

def placeShare (i : Nat) (e : Element) (done : Stages) : Multiset Mark :=
  if e.loops && !done.looped then b (.element i { done with looped := true })
  else if e.tested && !done.branched then armShare t b i e done false
  else if e.hasTag "slot" then .outlet i ::ₘ childShare b e
  else childShare b e + slotShare b e

def elementShare (i : Nat) (e : Element) (done : Stages) : Multiset Mark :=
  if (t.flags i).root.truthy && !done.hoisted then hoistShare b i done
  else if e.once.truthy && !done.once then onceShare t b i e done
  else placeShare t b i e done

def entryShare (i : Nat) (e : Element) (done : Stages) : Multiset Mark :=
  if e.tested && !done.branched && !(e.rawValue "slot-scope").truthy then armShare t b i e done true
  else if e.loops && !done.looped then b (.slotEntry i { done with looped := true })
  else if e.hasTag "template" then childShare b e
  else b (.element i done)

/-- The marks of a task, given those of the tasks below. -/
def share : Task → Multiset Mark
  | .element i done => ((t.element? i).map fun e => elementShare t b i e done).getD 0
  | .onceElement i done => ((t.element? i).map fun e => onceShare t b i e done).getD 0
  | .slotEntry i done => ((t.element? i).map fun e => entryShare t b i e done).getD 0

/-- The marks of a task down to a bounded depth. -/
def budget : Nat → Task → Multiset Mark
  | 0, _ => 0
  | fuel + 1, s => share t (budget fuel) s

/-! ## Emitters keep to the account -/

variable {t b} {o : Options} {self : Emit} {i : Nat} {e : Element} {done : Stages} {slot : Bool}

/-- The element at `i`, with some bindings. -/
def Stands (t : Tree) (i : Nat) (e : Element) : Prop :=
  ∃ u, t.Rebound u ∧ u.element? i = some e

/-- What does not read bindings gives the same for the element of the tree. -/
theorem Stands.getD_eq {α : Type} (h : Stands t i e) (f : Element → α) (x : α)
    (hf : ∀ e, f e.unbound = f e) : ((t.element? i).map f).getD x = f e := by
  obtain ⟨u, hu, he⟩ := h
  obtain ⟨e₀, he₀, heq⟩ := hu.element?_eq he
  rw [he₀, Option.map_some, Option.getD_some, ← hf, heq, hf]

theorem Stands.unbound_eq {e' : Element} (h : Stands t i e) (h' : Stands t i e') : e.unbound = e'.unbound := by
  have heq := h'.getD_eq Element.unbound e.unbound fun _ => rfl
  rwa [h.getD_eq Element.unbound e.unbound fun _ => rfl] at heq

theorem Stands.rebind {u : Tree} {e' : Element} (h : Stands t i e) (he' : e'.unbound = e.unbound)
    (hu : t.Rebound u) : t.Rebound (u.modifyElement i fun _ => e') :=
  hu.modifyElement fun _ hx => he'.trans (h.unbound_eq ⟨u, hu, hx⟩)

theorem yields_directives_rebound (ho : o.Tidy) (ds : List Directive) :
    Yields t.Rebound (emitDirectives o i ds) fun ps => (ps.map DataPart.marks).sum = 0 := by
  have hrun (d : Directive) : Yields t.Rebound (runDirective o i d) fun _ => True := by
    unfold runDirective
    split
    · exact .pure trivial
    · next p hp =>
      refine .bind (.of_untouched .siteOf) fun site _ => .bind .elementAt fun e he => ?_
      refine .bind (.modify fun g hg => Stands.rebind he (ho d.name p hp site e d) hg) fun _ _ => ?_
      exact .bind (.liftFailure fun _ _ => trivial) fun _ _ => .pure trivial
  refine .bind (.filterM (P := fun _ => True) (fun _ _ => trivial) fun d _ => hrun d) fun kept _ => .pure ?_
  exact DataPart.sum_marks_of_isPlain fun _ => DataPart.isPlain_of_directivesEntry

/-- A list of steps takes what each of them takes. -/
theorem yields_mapM_marks {α : Type} {xs : List α} {f : α → GenM Code} {m : α → Multiset Mark}
    (h : ∀ x ∈ xs, Yields t.Rebound (f x) fun c => c.marks ≤ m x) :
    Yields t.Rebound (xs.mapM f) fun cs => (cs.map Code.marks).sum ≤ (xs.map m).sum := by
  induction xs with
  | nil => exact .pure le_rfl
  | cons x xs ih =>
    rw [List.mapM_cons]
    refine .bind (h x (List.mem_cons_self ..)) fun c hc => ?_
    refine .bind (ih fun x hx => h x (List.mem_cons_of_mem _ hx)) fun cs hcs => .pure ?_
    rw [List.map_cons, List.map_cons, List.sum_cons, List.sum_cons]
    exact add_le_add hc hcs

variable (hself : ∀ s, Yields t.Rebound (self s) fun c => c.marks ≤ b s)

include hself

theorem yields_hoistShare :
    Yields t.Rebound (emitHoisted self i done) fun c => c.marks ≤ hoistShare b i done := by
  refine .bind .get fun _ _ => .bind (.of_untouched untouched_enterVerbatim) fun _ _ => ?_
  refine .bind (hself _) fun body hbody => .bind (.of_untouched (.setVerbatim _)) fun _ _ => ?_
  exact .bind (.of_untouched .flagsOf) fun _ _ => .pure (Multiset.cons_le_cons _ hbody)

theorem yields_arm (block : Nat) : Yields t.Rebound (emitArm self i done slot block)
    fun c => c.marks ≤ b (armTask t i done slot block) := by
  unfold emitArm armTask
  dsimp only
  split
  · exact hself _
  · refine .bind .elementAt fun e he => ?_
    rw [Stands.getD_eq he (fun e => e.once.truthy) false fun _ => rfl]
    split
    · exact hself _
    · exact hself _

theorem yields_armShare : Yields t.Rebound (emitBranches self i e done slot)
    fun c => c.marks ≤ armShare t b i e done slot := by
  unfold emitBranches armShare
  induction e.conditions with
  | nil =>
    refine .pure ?_
    cases slot <;> exact Multiset.zero_le _
  | cons c rest ih =>
    rw [List.map_cons, List.sum_cons]
    unfold emitChain
    split
    · refine .bind (yields_arm hself c.block) fun yes hyes => .bind ih fun no hno => .pure ?_
      exact add_le_add hyes hno
    · exact (yields_arm hself c.block).mono fun c hc => hc.trans (Multiset.le_add_right ..)

theorem yields_loopShare : Yields t.Rebound (emitLoop o self i e done slot) fun c => c.marks ≤
    b (if slot then .slotEntry i { done with looped := true } else .element i { done with looped := true }) :=
  .bind (.of_untouched untouched_adviseKeys) fun _ _ => .bind (hself _) fun _ hbody => .pure hbody

theorem yields_onceShare :
    Yields t.Rebound (emitOnce self i done) fun c => c.marks ≤ share t b (.onceElement i done) := by
  refine .bind .elementAt fun e he => ?_
  rw [share, Stands.getD_eq he (fun e => onceShare t b i e done) 0 fun _ => rfl]
  unfold onceShare
  dsimp only
  split
  · exact yields_armShare hself
  refine .bind .flagsOf fun f ⟨u, hu, hf⟩ => ?_
  rw [← hf, hu.flags]
  split
  · exact yields_hoistShare hself
  refine .bind .get fun g _ => ?_
  split
  · exact .bind (hself _) fun _ hbody => .pure hbody
  · refine .bind (.of_untouched .siteOf) fun _ _ => ?_
    exact .bind (.of_untouched (.warn _)) fun _ _ => hself _

theorem yields_nodeShare (c : Nat) :
    Yields t.Rebound (emitNode self c) fun code => code.marks ≤ b (.element c {}) := by
  refine .bind .nodeAt fun n _ => ?_
  split
  · exact hself _
  all_goals exact .pure (by simp)

theorem yields_childShare (withLevel : Bool) :
    Yields t.Rebound (emitChildren o self e withLevel) fun cs => cs.marks ≤ childShare b e := by
  refine .bind .get fun g _ => .ite (.pure (Multiset.zero_le _)) ?_
  split
  · next c loop hl =>
    refine .bind (.liftFailure fun _ _ => trivial) fun _ _ => .bind (hself _) fun _ hc => .pure ?_
    exact hc.trans (List.single_le_sum (fun _ _ => Multiset.zero_le _) _
      (List.mem_map_of_mem (Coupling.mem_of_loneLoop hl)))
  · refine .bind (.liftFailure fun _ _ => trivial) fun _ _ => ?_
    exact .bind (yields_mapM_marks fun c _ => yields_nodeShare hself c) fun _ hcs => .pure hcs

theorem yields_outletShare :
    Yields t.Rebound (emitOutlet o self i e) fun c => c.marks ≤ .outlet i ::ₘ childShare b e := by
  refine .bind (yields_childShare hself _) fun children hchildren => ?_
  refine .bind (.liftFailure (Q := fun props => ∀ p, props = some p → p.marks = 0) ?_) fun props hprops => .pure ?_
  · rintro _ hp p rfl
    exact Code.marks_of_isPlain (isPlain_of_outletProps hp)
  · exact Multiset.cons_le_cons _ (le_of_eq_of_le (marks_outletArguments children hprops) hchildren)

theorem yields_slotShare :
    Yields t.Rebound (emitScopedSlots self i e) fun c => c.marks ≤ slotShare b e := by
  refine .bind .get fun _ _ => .bind (yields_mapM_marks fun s _ => hself _) fun entries hentries => .pure ?_
  rw [Code.marks_append, Code.marks_text, zero_add, Code.marks, Code.marks_join]
  exact hentries

theorem yields_entryShare :
    Yields t.Rebound (emitSlotEntry o self i done) fun c => c.marks ≤ share t b (.slotEntry i done) := by
  refine .bind .elementAt fun e he => ?_
  rw [share, Stands.getD_eq he (fun e => entryShare t b i e done) 0 fun _ => rfl]
  have hbody (legacy : Bool) : Yields t.Rebound (emitSlotBody o self i e done legacy) fun c => c.marks ≤
      if e.hasTag "template" then childShare b e else b (.element i done) := by
    unfold emitSlotBody
    split
    · refine .bind (yields_childShare hself _) fun children hchildren => .pure ?_
      rwa [marks_slotContent]
    · exact hself _
  unfold entryShare
  dsimp only
  split
  · exact yields_armShare hself
  split
  · exact yields_loopShare hself
  refine .bind (hbody _) fun body hbody => .bind .elementAt fun e' _ => .pure ?_
  rwa [marks_slotDescriptor]

/-! ## Data -/

/-- What stands in the data of an element: its slot definitions, and the child of an inline template. -/
theorem yields_partShare : Yields t.Rebound (emitParts o self i e) fun ps => (ps.map DataPart.marks).sum ≤
    slotShare b e + if e.inlineTemplate.truthy then childShare b e else 0 := by
  have hprops (key : String) (props : List Attr) :
      Yields t.Rebound (propsEntry key props) fun ps => (ps.map DataPart.marks).sum = 0 := by
    refine .ite (.pure rfl) (.bind (.liftFailure fun _ hk => isPlain_of_propsEntries hk) fun k hk => .pure ?_)
    simp [DataPart.marks, Code.marks_of_isPlain hk]
  have hevents (events : Events) (native : Bool) :
      Yields t.Rebound (eventsEntry events native) fun ps => (ps.map DataPart.marks).sum = 0 := by
    refine .ite (.pure rfl) (.bind (.liftFailure fun _ hc => isPlain_of_eventsCode hc) fun c hc => .pure ?_)
    simp [DataPart.marks, Code.marks_of_isPlain hc]
  have hslots : Yields t.Rebound (slotsEntry self i e) fun ps =>
      (ps.map DataPart.marks).sum ≤ slotShare b e := by
    refine .ite (.pure (Multiset.zero_le _)) (.bind (yields_slotShare hself) fun c hc => .pure ?_)
    simpa [DataPart.marks] using hc
  have hinline : Yields t.Rebound (inlineEntry self i e) fun ps => (ps.map DataPart.marks).sum ≤
      if e.inlineTemplate.truthy then childShare b e else 0 := by
    unfold Generator.inlineEntry
    split
    · refine .bind .get fun g _ => .bind (.of_untouched (untouched_adviseInline _)) fun _ _ => ?_
      split
      · exact .pure (Multiset.zero_le _)
      · next c child hfirst =>
        refine .bind (.apart (Q := fun code => code.marks ≤ b (.element c {})) ?_) fun body hbody => .pure ?_
        · exact .ite (.pure (Multiset.zero_le _)) (hself _)
        · rw [List.map_singleton, List.sum_singleton]
          exact hbody.trans (List.single_le_sum (fun _ _ => Multiset.zero_le _) _
            (List.mem_map_of_mem (Coupling.mem_of_firstElement hfirst)))
    · exact .pure le_rfl
  refine .bind (.of_untouched .isVerbatim) fun verbatim _ => ?_
  refine .bind (hprops _ _) fun attrs hattrs => .bind (hprops _ _) fun props hprops' => ?_
  refine .bind (hevents _ _) fun events hevents' => .bind (hevents _ _) fun native hnative => ?_
  refine .bind hslots fun slots hslots => .bind hinline fun inline hinline => .pure ?_
  have hown : ((ownEntries o e verbatim).map DataPart.marks).sum = 0 :=
    DataPart.sum_marks_of_isPlain fun _ => DataPart.isPlain_of_ownEntries
  have htarget : ((targetEntry e).map DataPart.marks).sum = 0 :=
    DataPart.sum_marks_of_isPlain fun _ => DataPart.isPlain_of_targetEntry
  have hmodel : ((e.model.map modelEntry).toList.map DataPart.marks).sum = 0 := by
    cases e.model <;> rfl
  simp only [List.map_append, List.sum_append, hown, hattrs, hprops', hevents', hnative, htarget, hmodel,
    add_zero, zero_add]
  exact add_le_add hslots hinline

theorem yields_dataShare (ho : o.Tidy) (he : Stands t i e) : Yields t.Rebound (emitData o self i)
    fun c => c.marks ≤ slotShare b e + if e.inlineTemplate.truthy then childShare b e else 0 := by
  have hobject (ds : List Directive) : Yields t.Rebound (emitDataObject o self i ds)
      fun c => c.marks ≤ slotShare b e + if e.inlineTemplate.truthy then childShare b e else 0 := by
    refine .bind (yields_directives_rebound ho ds) fun kept hkept => .bind .elementAt fun e' he' => ?_
    rw [← Stands.getD_eq he (fun e => slotShare b e + if e.inlineTemplate.truthy then childShare b e else 0) 0
      fun _ => rfl, Stands.getD_eq he' _ 0 fun _ => rfl]
    refine .bind (yields_partShare hself) fun parts hparts => ?_
    refine .bind (.liftFailure fun _ hc => marks_bindDynamicAttrs hc) fun data hdata => .pure ?_
    rw [marks_mergeObjects, hdata, Code.marks_append, Code.marks_append, DataPart.marks_join, List.map_append,
      List.sum_append, hkept, Code.marks_text, Code.marks_text, add_zero, zero_add, zero_add]
    exact hparts
  refine .bind .elementAt fun e' he' => .ite (hobject _) ?_
  exact .restoringBindings (fun u hu => hu.modifyElement fun _ _ => rfl) (hobject _)

/-! ## Nodes -/

theorem yields_createShare (ho : o.Tidy) (hm : o.Unmarking) (he : Stands t i e) :
    Yields t.Rebound (emitCreate o self i e) fun c => c.marks ≤ childShare b e + slotShare b e := by
  -- The children of an inline template stand in the data, and those of other elements after it.
  have hsum (e : Element) : (slotShare b e + if e.inlineTemplate.truthy then childShare b e else 0) +
      (if e.inlineTemplate.truthy then 0 else childShare b e) = childShare b e + slotShare b e := by
    split
    · rw [add_zero, add_comm]
    · rw [add_zero, add_comm]
  have hchildren {e : Element} : Yields t.Rebound (emitNodeChildren o self e) fun cs => cs.marks ≤
      if e.inlineTemplate.truthy then 0 else childShare b e := by
    unfold emitNodeChildren
    split
    · exact .pure le_rfl
    · exact yields_childShare hself _
  have hargument : Yields t.Rebound (emitDataArgument o self i e) fun c => c.marks ≤
      slotShare b e + if e.inlineTemplate.truthy then childShare b e else 0 := by
    refine .bind (.of_untouched untouched_needsData) fun _ _ => .ite ?_ (.pure (Multiset.zero_le _))
    refine .bind (yields_dataShare hself ho he) fun data hdata => .pure ?_
    rwa [Code.marks_append, Code.marks_text, zero_add]
  have hbare : Yields t.Rebound (emitBare o self i e) fun c => c.marks ≤ childShare b e + slotShare b e := by
    unfold emitBare
    split
    · refine .bind hchildren fun children hchildren => ?_
      refine .bind (yields_dataShare hself ho he) fun data hdata => .pure ?_
      rw [← hsum, Code.marks, Code.marks_append, Code.marks_text, zero_add, Children.marks_argument]
      exact add_le_add hdata hchildren
    · refine .bind hargument fun data hdata => .bind .elementAt fun e' he' => ?_
      refine .bind hchildren fun children hchildren => .pure ?_
      rw [← Stands.getD_eq he' (fun e => if e.inlineTemplate.truthy then 0 else childShare b e) 0 fun _ => rfl,
        Stands.getD_eq he _ 0 fun _ => rfl] at hchildren
      rw [← hsum, Code.marks, Children.marks_argument]
      exact add_le_add hdata hchildren
  refine .bind hbare fun c hc => .bind .elementAt fun e' _ => .pure ?_
  exact List.foldlRecOn (motive := fun c : Code => c.marks ≤ _) o.modules _ hc
    fun c hc m hmem => (hm m hmem e' c).trans hc

theorem yields_placeShare (ho : o.Tidy) (hm : o.Unmarking) (he : Stands t i e) :
    Yields t.Rebound (emitInPlace o self i e done) fun c => c.marks ≤ placeShare t b i e done := by
  unfold emitInPlace placeShare
  split
  · exact yields_loopShare hself
  split
  · exact yields_armShare hself
  refine .bind .get fun g _ => ?_
  split
  · refine .bind (yields_childShare hself _) fun children hchildren => .pure ?_
    rw [Code.marks, Children.marks_getD]
    split
    · exact hchildren.trans (Multiset.le_cons_self ..)
    · exact hchildren.trans (Multiset.le_add_right ..)
  split
  · exact yields_outletShare hself
  · exact yields_createShare hself ho hm he

theorem yields_elementShare (ho : o.Tidy) (hm : o.Unmarking) :
    Yields t.Rebound (emitElement o self i done) fun c => c.marks ≤ share t b (.element i done) := by
  refine .bind .elementAt fun e he => .bind .flagsOf fun f ⟨u, hu, hf⟩ => ?_
  rw [share, Stands.getD_eq he (fun e => elementShare t b i e done) 0 fun _ => rfl, ← hf, hu.flags]
  unfold elementShare
  split
  · exact yields_hoistShare hself
  split
  · rw [← Stands.getD_eq he (fun e => onceShare t b i e done) 0 fun _ => rfl]
    exact yields_onceShare hself
  · exact yields_placeShare hself ho hm he

omit hself in
/-- The code of a task keeps to its budget. -/
theorem marks_run (ho : o.Tidy) (hm : o.Unmarking) (fuel : Nat) (s : Task) :
    Yields t.Rebound (run o fuel s) fun c => c.marks ≤ budget t fuel s := by
  induction fuel generalizing s with
  | zero => exact .throw _
  | succ fuel ih =>
    cases s with
    | element i done => exact yields_elementShare ih ho hm
    | onceElement i done => exact yields_onceShare ih
    | slotEntry i done => exact yields_entryShare ih

omit hself in
/-- So does the code of a tree. -/
theorem marks_generate (ho : o.Tidy) (hm : o.Unmarking) {root : Option Nat} {c : Code}
    (h : (t.generate o root).code = .ok c) : c.marks = 0 ∨ ∃ i, c.marks ≤ budget t (depth t) (.element i {}) := by
  have hroot : Yields t.Rebound (emitRoot o (root.or t.root)) fun c =>
      c.marks = 0 ∨ ∃ i, c.marks ≤ budget t (depth t) (.element i {}) := by
    unfold emitRoot
    split
    · exact .pure (.inl (by simp))
    · next i _ =>
      refine .bind .get fun g hg => .bind .elementAt fun e _ => .ite (.pure (.inl rfl)) ?_
      have hdepth : depth g.tree = depth t := by rw [depth, depth, hg.1]
      rw [hdepth]
      exact (marks_run ho hm _ _).mono fun c hc => .inr ⟨i, hc⟩
  rw [generate_eq] at h
  exact (hroot { tree := t } (.refl t) c _ (Prod.ext h rfl)).1

end Generator

end TemplateCompiler
