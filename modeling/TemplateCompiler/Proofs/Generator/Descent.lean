import TemplateCompiler.Proofs.Generator.Ends

/-!
# What a step asks for

The emitters of a task ask for the tasks that it calls and for no others (`Below.step`): replacing the way in which
all other tasks are generated changes nothing. Every task that is asked for needs less depth, so that a
generation with enough depth ends, and gives what it gives with any other depth that is enough, also if it
checks the way to every task (`ends_run`).
-/

namespace TemplateCompiler.Generator

variable {F : Failure → Prop} {t : Tree} {o : Options} {self self' : Emit} {s : Task} {i : Nat} {e : Element}
  {done : Stages} {slot : Bool}

/-- `self` and `self'` generate the tasks that `s` calls alike, and end. -/
def Below (F : Failure → Prop) (t : Tree) (s : Task) (self self' : Emit) : Prop :=
  ∀ s', s.Calls s' → t.Holds F s'.index → Ends F t (self s') (self' s') fun _ => True

theorem element?_of_loneLoop {t : Tree} {cs : List Nat} {c : Nat} {loop : Element}
    (h : loneLoop? t cs = some (c, loop)) : t.element? c = some loop := by
  unfold loneLoop? at h
  split at h
  · split at h
    · split at h <;> cases h
      assumption
    · cases h
  · cases h

theorem element?_of_firstElement {t : Tree} {c : Nat} {child : Element}
    (h : firstElement? t e = some (c, child)) : c ∈ e.children ∧ t.element? c = some child := by
  obtain ⟨c', hc', h⟩ := Option.bind_eq_some_iff.mp h
  obtain ⟨child', hchild', h⟩ := Option.map_eq_some_iff.mp h
  cases h
  exact ⟨List.mem_of_head? hc', hchild'⟩

/-! ## Reading and warning -/

theorem ends_enterVerbatim : Ends F t (enterVerbatim i) (enterVerbatim i) fun _ => True :=
  Ends.isVerbatim.seq fun _ => .ite (fun _ => .setVerbatim _) fun _ => .pure trivial

theorem ends_adviseKeys (he : e.Fits F t i) :
    Ends F t (adviseKeys o i e) (adviseKeys o i e) fun _ => True := by
  refine .seq (.liftFailure (he.legible.maybeComponent o)) fun _ => .ite (fun _ => ?_) fun _ => .pure trivial
  exact .seq .siteOf fun _ => .warn _

theorem ends_adviseInline (u : Tree) :
    Ends F t (adviseInline u i e) (adviseInline u i e) fun _ => True :=
  .ite (fun _ => .warn _) fun _ => .pure trivial

theorem ends_needsData (he : e.Fits F t i) :
    Ends F t (needsData o i e) (needsData o i e) fun _ => True := by
  refine .ite (fun _ => .pure trivial) fun _ => .seq .isVerbatim fun _ => ?_
  exact .ite (fun _ => .pure trivial) fun _ => .liftFailure (he.legible.maybeComponent o)

theorem ends_runDirective (ho : o.Sound F) (hi : t.Holds F i) {d : Directive} (hd : d.Legible F) :
    Ends F t (runDirective o i d) (runDirective o i d) fun _ => True := by
  unfold runDirective
  split
  · exact .pure trivial
  · rename_i p hp
    refine .seq .siteOf fun site g hg => ?_
    rw [outcome_bind, outcome_elementAt]
    rcases he : g.tree.element? i with _ | e
    · refine .inr ⟨_, g, rfl, rfl, hi.2.resolve_right fun hsome => ?_⟩
      rw [← hg.elements, he] at hsome
      cases hsome
    -- The plugin sees the element of this very state.
    obtain ⟨hlegible, hlisted, hreply⟩ := ho hp site e d (hg.legible he) hd
    dsimp only
    rw [outcome_bind, outcome_modify]
    have hg' := hg.modifyElement (i := i) (f := fun _ => (p.compile site e d).element) fun e' he' => by
      obtain rfl : e = e' := Option.some.inj (he.symm.trans he')
      exact ⟨hlegible, hlisted⟩
    have hrest : Ends F t (do return (← liftFailure (p.compile site e d).reply).truthy)
        (do return (← liftFailure (p.compile site e d).reply).truthy) fun _ => True :=
      .seq (.liftFailure hreply) fun _ => .pure trivial
    refine (hrest _ hg').imp_left ?_
    rintro ⟨b, g₁, hx, hy, hb, hg₁, hw⟩
    exact ⟨b, g₁, hx, hy, hb, hg₁, (List.prefix_append ..).trans hw⟩

theorem ends_directives (ho : o.Sound F) (hi : t.Holds F i) {ds : List Directive}
    (hds : ∀ d ∈ ds, d.Legible F) : Ends F t (emitDirectives o i ds) (emitDirectives o i ds) fun _ => True :=
  .seq (.filterM fun d hd => ends_runDirective ho hi (hds d hd)) fun _ => .pure trivial

namespace Below

variable (hself : Below F t s self self')

include hself

/-! ## Stages -/

theorem hoisted (hi : t.Holds F i) (hs : s.Calls (.element i { done with hoisted := true })) :
    Ends F t (emitHoisted self i done) (emitHoisted self' i done) fun _ => True := by
  refine .bind .get fun _ _ => .seq ends_enterVerbatim fun _ => .seq (hself _ hs hi) fun _ => ?_
  exact .seq (.setVerbatim _) fun _ => .seq .flagsOf fun _ => .pure trivial

theorem arm (hi : t.Holds F i) (hindex : s.index = i) {block : Nat}
    (hblock : block = i ∨ i < block ∧ t.Holds F block)
    (hslot : slot = true → s.Calls (.slotEntry i done))
    (helement : slot = false → s.Calls (.onceElement i done) ∧ s.Calls (.element i done)) :
    Ends F t (emitArm self i done slot block) (emitArm self' i done slot block) fun _ => True := by
  subst hindex
  unfold emitArm
  dsimp only
  rcases hblock with rfl | ⟨hlt, hb⟩
  · rw [if_pos rfl]
    refine .ite (fun hs => hself _ (hslot hs) hi) fun hs => ?_
    obtain ⟨honce, hplain⟩ := helement (by simpa using hs)
    exact .bind (.elementAt hi.2) fun _ _ => .ite (fun _ => hself _ honce hi) fun _ => hself _ hplain hi
  · rw [if_neg (Nat.ne_of_gt hlt)]
    refine .ite (fun _ => hself _ (.inl hlt) hb) fun _ => .bind (.elementAt hb.2) fun _ _ => ?_
    exact .ite (fun _ => hself _ (.inl hlt) hb) fun _ => hself _ (.inl hlt) hb

theorem branches (ht : t.Sound F) (hi : t.Holds F i) (hindex : s.index = i) (he : e.Fits F t i)
    (hslot : slot = true → s.Calls (.slotEntry i { done with branched := true }))
    (helement : slot = false → s.Calls (.onceElement i { done with branched := true }) ∧
      s.Calls (.element i { done with branched := true })) :
    Ends F t (emitBranches self i e done slot) (emitBranches self' i e done slot) fun _ => True := by
  have hchain (cs : List Condition) (hcs : ∀ c ∈ cs, c.block = i ∨ i < c.block ∧ t.Holds F c.block) :
      Ends F t (emitChain self i { done with branched := true } slot cs)
        (emitChain self' i { done with branched := true } slot cs) fun _ => True := by
    induction cs with
    | nil => exact .pure trivial
    | cons c rest ih =>
      obtain ⟨hc, hrest⟩ := List.forall_mem_cons.mp hcs
      have harm := hself.arm hi hindex hc hslot helement
      unfold emitChain
      split
      · exact harm.seq fun _ => (ih hrest).seq fun _ => .pure trivial
      · exact harm
  exact hchain e.conditions fun c hc => he.block ht hc

theorem loop (slot : Bool) (hi : t.Holds F i) (he : e.Fits F t i)
    (hs : s.Calls (if slot then .slotEntry i { done with looped := true }
      else .element i { done with looped := true })) :
    Ends F t (emitLoop o self i e done slot) (emitLoop o self' i e done slot) fun _ => True := by
  refine .seq (ends_adviseKeys he) fun _ => .seq (hself _ hs ?_) fun _ => .pure trivial
  cases slot <;> exact hi

/-- Rendering once, from an element whose mark was not seen yet or from an entry. -/
theorem once (ht : t.Sound F) (hi : t.Holds F i) (hindex : s.index = i)
    (helement : ∀ d, { done with once := true } ≤ d → s.Calls (.element i d))
    (honce : done.branched = false → s.Calls (.onceElement i { done with once := true, branched := true })) :
    Ends F t (emitOnce self i done) (emitOnce self' i done) fun _ => True := by
  have hle (d : Stages) : d ≤ { d with hoisted := true } := ⟨fun _ => rfl, id, id, id⟩
  have hle' (d : Stages) : d ≤ { d with branched := true } := ⟨id, id, id, fun _ => rfl⟩
  refine .bind (.elementAt hi.2) fun e he => .ite (fun hbranch => ?_) fun _ => .seq .flagsOf fun flags => ?_
  · have hnot : done.branched = false := by simpa using (Bool.and_eq_true_iff.mp hbranch).2
    exact hself.branches ht hi hindex he nofun fun _ => ⟨honce hnot, helement _ (hle' _)⟩
  refine .ite (fun _ => hself.hoisted hi (helement _ (hle _))) fun _ => .bind .get fun g _ => ?_
  split
  · exact .seq (hself _ (helement _ le_rfl) hi) fun _ => .pure trivial
  · exact .seq .siteOf fun _ => .seq (.warn _) fun _ => hself _ (helement _ le_rfl) hi

/-! ## Children and slots -/

/-- A later node can always be asked for. -/
theorem later (hindex : s.index = i) (s' : Task) (hlt : i < s'.index) (hs' : t.Holds F s'.index) :
    Ends F t (self s') (self' s') fun _ => True :=
  hself s' (.inl (hindex ▸ hlt)) hs'

theorem children (ht : t.Sound F) (hindex : s.index = i) (he : e.Fits F t i) (withLevel : Bool) :
    Ends F t (emitChildren o self e withLevel) (emitChildren o self' e withLevel) fun _ => True := by
  have hchild (c : Nat) (hc : c ∈ e.children) (hsome : (t.element? c).isSome) :
      Ends F t (self (.element c {})) (self' (.element c {})) fun _ => True := by
    obtain ⟨hlt, hsize⟩ := he.child ht hc
    exact hself.later hindex (.element c {}) hlt ⟨hsize, .inr hsome⟩
  refine .bind .get fun g hg => .ite (fun _ => .pure trivial) fun _ => ?_
  split
  · rename_i c loop hloop
    have hc := element?_of_loneLoop hloop
    refine .seq (.liftFailure (within_loopLevel (hg.legible hc) o withLevel)) fun _ => ?_
    refine .seq (hchild c (Coupling.mem_of_loneLoop hloop) ?_) fun _ => .pure trivial
    rw [← hg.elements, hc]
    rfl
  · refine .seq (.liftFailure (within_listLevel (fun _ _ h => hg.legible h) o _ _)) fun _ => ?_
    refine .seq (.mapM fun c hc => .bind (.nodeAt (he.child ht hc).2) fun n hn => ?_) fun _ => .pure trivial
    split
    · exact hchild c hc (hn _ ‹_›)
    all_goals exact .pure trivial

theorem outlet (ht : t.Sound F) (hindex : s.index = i) (he : e.Fits F t i) :
    Ends F t (emitOutlet o self i e) (emitOutlet o self' i e) fun _ => True := by
  refine .seq (hself.children ht hindex he _) fun _ => ?_
  exact .seq (.liftFailure (within_outletProps he.legible)) fun _ => .pure trivial

theorem slotEntry (ht : t.Sound F) (hi : t.Holds F i) (hs : s = .slotEntry i done) :
    Ends F t (emitSlotEntry o self i done) (emitSlotEntry o self' i done) fun _ => True := by
  have hindex : s.index = i := hs ▸ rfl
  have hagain {s' : Task} (hs' : s'.index = i) (h : s.Again s') : s.Calls s' :=
    .inr ⟨hindex.trans hs'.symm, h⟩
  refine .bind (.elementAt hi.2) fun e he => .ite (fun hbranch => ?_) fun _ => .ite (fun hloop => ?_) fun _ => ?_
  · have hnot : done.branched = false := by simp_all
    refine hself.branches ht hi hindex he (fun _ => hagain rfl ?_) nofun
    subst hs
    exact ⟨⟨id, id, id, fun _ => rfl⟩, fun h => by rw [h] at hnot; cases hnot⟩
  · have hnot : done.looped = false := by simp_all
    refine hself.loop true hi he (hagain rfl ?_)
    subst hs
    exact ⟨⟨id, id, fun _ => rfl, id⟩, fun h => by rw [h] at hnot; cases hnot⟩
  · refine .seq ?_ fun _ => .bind (.elementAt hi.2) fun _ _ => .pure trivial
    refine .ite (fun _ => .seq (hself.children ht hindex he _) fun _ => .pure trivial) fun _ => ?_
    refine hself _ (hagain rfl ?_) hi
    subst hs
    exact le_rfl

/-! ## Data -/

/-- The template between the tags, in a state that has been read. -/
theorem inlineTemplate (ht : t.Sound F) (hindex : s.index = i) (he : e.Fits F t i) {u : Tree}
    (hu : t.Fits F u) :
    Ends F t
      (match firstElement? u e with
        | none => return []
        | some (c, child) => return [DataPart.entry (.inline (← apart (emitTemplate self c child)))])
      (match firstElement? u e with
        | none => return []
        | some (c, child) => return [DataPart.entry (.inline (← apart (emitTemplate self' c child)))])
      fun _ => True := by
  split
  · exact .pure trivial
  · rename_i c child hfirst
    obtain ⟨hc, hchild⟩ := element?_of_firstElement hfirst
    obtain ⟨hlt, hsize⟩ := he.child ht hc
    refine .seq (.apart (.ite (fun _ => .pure trivial) fun _ => ?_)) fun _ => .pure trivial
    refine hself.later hindex (.element c {}) hlt ⟨hsize, .inr ?_⟩
    show (t.element? c).isSome
    rw [← hu.elements, hchild]
    rfl

theorem inline (ht : t.Sound F) (hindex : s.index = i) (he : e.Fits F t i) :
    Ends F t (inlineEntry self i e) (inlineEntry self' i e) fun _ => True := by
  refine .ite (fun _ => .bind .get fun g hg => .seq (ends_adviseInline _) fun _ => ?_) fun _ => .pure trivial
  exact hself.inlineTemplate ht hindex he hg

theorem parts (ht : t.Sound F) (hindex : s.index = i) (he : e.Fits F t i) :
    Ends F t (emitParts o self i e) (emitParts o self' i e) fun _ => True := by
  have hprops (key : String) (props : List Attr) (h : ∀ a ∈ props, a.Legible F) :
      Ends F t (propsEntry key props) (propsEntry key props) fun _ => True :=
    .ite (fun _ => .pure trivial) fun _ =>
      .seq (.liftFailure (within_propsEntries h)) fun _ => .pure trivial
  have hevents (events : Events) (native : Bool) (h : events.Legible F) :
      Ends F t (eventsEntry events native) (eventsEntry events native) fun _ => True :=
    .ite (fun _ => .pure trivial) fun _ => .seq (.liftFailure (h.code native)) fun _ => .pure trivial
  have hslots : Ends F t (slotsEntry self i e) (slotsEntry self' i e) fun _ => True := by
    refine .ite (fun _ => .pure trivial) fun _ => .seq (.bind .get fun _ _ => ?_) fun _ => .pure trivial
    refine .seq (.mapM fun d hd => ?_) fun _ => .pure trivial
    obtain ⟨hlt, hd⟩ := he.slot ht hd
    exact hself.later hindex (.slotEntry d.2 {}) hlt hd
  have hb := he.legible.bindings
  refine .seq .isVerbatim fun _ => .seq (hprops _ _ hb.attrs) fun _ => ?_
  refine .seq (hprops _ _ hb.props) fun _ => .seq (hevents _ _ hb.events) fun _ => ?_
  refine .seq (hevents _ _ hb.nativeEvents) fun _ => .seq hslots fun _ => ?_
  exact .seq (hself.inline ht hindex he) fun _ => .pure trivial

theorem dataObject (ht : t.Sound F) (ho : o.Sound F) (hi : t.Holds F i) (hindex : s.index = i)
    {ds : List Directive} (hds : ∀ d ∈ ds, d.Legible F) :
    Ends F t (emitDataObject o self i ds) (emitDataObject o self' i ds) fun _ => True := by
  refine .seq (ends_directives ho hi hds) fun _ => .bind (.elementAt hi.2) fun e he => ?_
  refine .seq (hself.parts ht hindex he) fun _ => ?_
  exact .seq (.liftFailure (within_bindDynamicAttrs he.legible _)) fun _ => .pure trivial

theorem data (ht : t.Sound F) (ho : o.Sound F) (hi : t.Holds F i) (hindex : s.index = i) :
    Ends F t (emitData o self i) (emitData o self' i) fun _ => True := by
  refine .bind (.elementAt hi.2) fun e he => .ite (fun _ => ?_) fun _ => ?_
  · exact hself.dataObject ht ho hi hindex nofun
  · exact .restoringBindings he.legible.bindings (hself.dataObject ht ho hi hindex he.legible.directives)

/-! ## Nodes -/

theorem create (ht : t.Sound F) (ho : o.Sound F) (hi : t.Holds F i) (hindex : s.index = i)
    (he : e.Fits F t i) : Ends F t (emitCreate o self i e) (emitCreate o self' i e) fun _ => True := by
  have hchildren (e : Element) (he : e.Fits F t i) :
      Ends F t (emitNodeChildren o self e) (emitNodeChildren o self' e) fun _ => True :=
    .ite (fun _ => .pure trivial) fun _ => hself.children ht hindex he _
  have hdata : Ends F t (emitDataArgument o self i e) (emitDataArgument o self' i e) fun _ => True := by
    refine .seq (ends_needsData he) fun _ => .ite (fun _ => ?_) fun _ => .pure trivial
    exact .seq (hself.data ht ho hi hindex) fun _ => .pure trivial
  have hbare : Ends F t (emitBare o self i e) (emitBare o self' i e) fun _ => True := by
    unfold emitBare
    split
    · refine .seq (hchildren e he) fun _ => ?_
      exact .seq (hself.data ht ho hi hindex) fun _ => .pure trivial
    · refine .seq hdata fun _ => .bind (.elementAt hi.2) fun e he => ?_
      exact .seq (hchildren e he) fun _ => .pure trivial
  exact .seq hbare fun _ => .bind (.elementAt hi.2) fun _ _ => .pure trivial

theorem element (ht : t.Sound F) (ho : o.Sound F) (hi : t.Holds F i) (hs : s = .element i done) :
    Ends F t (emitElement o self i done) (emitElement o self' i done) fun _ => True := by
  have hindex : s.index = i := hs ▸ rfl
  -- At its own node the element is asked for again with one more stage done.
  have hmore {d : Stages} (hle : done ≤ d) (hne : done ≠ d) : s.Calls (.element i d) := by
    subst hs
    exact .inr ⟨rfl, hle, hne⟩
  have honce {d : Stages} (hle : done ≤ d) (hb : done.branched = false) (hd : d.branched = true) :
      s.Calls (.onceElement i d) := by
    subst hs
    exact .inr ⟨rfl, ⟨hle, fun h => by rw [h, hd] at hb; cases hb⟩, hb, hd⟩
  refine .bind (.elementAt hi.2) fun e he => .seq .flagsOf fun flags => .ite (fun h => ?_) fun _ => ?_
  · have hnot : done.hoisted = false := by simpa using (Bool.and_eq_true_iff.mp h).2
    exact hself.hoisted hi (hmore ⟨fun _ => rfl, id, id, id⟩ fun h => by rw [h] at hnot; cases hnot)
  refine .ite (fun h => ?_) fun _ => ?_
  · have hnot : done.once = false := by simpa using (Bool.and_eq_true_iff.mp h).2
    have hle : done ≤ { done with once := true } := ⟨id, fun _ => rfl, id, id⟩
    refine hself.once ht hi hindex (fun d hd => hmore (hle.trans hd) fun h => ?_) fun hb => ?_
    · rw [← h] at hd
      rw [hd.2.1 rfl] at hnot
      cases hnot
    · exact honce (hle.trans ⟨id, id, id, fun _ => rfl⟩) hb rfl
  unfold emitInPlace
  refine .ite (fun h => ?_) fun _ => .ite (fun h => ?_) fun _ => .bind .get fun g _ => ?_
  · have hnot : done.looped = false := by simpa using (Bool.and_eq_true_iff.mp h).2
    refine hself.loop false hi he ?_
    exact hmore ⟨id, id, fun _ => rfl, id⟩ fun h => by rw [h] at hnot; cases hnot
  · have hnot : done.branched = false := by simpa using (Bool.and_eq_true_iff.mp h).2
    have hle : done ≤ { done with branched := true } := ⟨id, id, id, fun _ => rfl⟩
    refine hself.branches ht hi hindex he nofun fun _ => ⟨honce hle hnot rfl, hmore hle fun h => ?_⟩
    rw [h] at hnot
    cases hnot
  refine .ite (fun _ => .seq (hself.children ht hindex he _) fun _ => .pure trivial) fun _ => ?_
  exact .ite (fun _ => hself.outlet ht hindex he) fun _ => hself.create ht ho hi hindex he

/-- A step asks only for tasks that its own task calls. -/
theorem step (ht : t.Sound F) (ho : o.Sound F) (hs : t.Holds F s.index) :
    Ends F t (step o self s) (step o self' s) fun _ => True := by
  cases s with
  | element i done => exact hself.element ht ho hs rfl
  | slotEntry i done => exact hself.slotEntry ht hs rfl
  | onceElement i done =>
    have hle : done ≤ { done with once := true } := ⟨id, fun _ => rfl, id, id⟩
    refine hself.once ht hs rfl (fun d hd => .inr ⟨rfl, hle.trans hd⟩) fun hb => .inr ⟨rfl, ?_⟩
    exact ⟨hle.trans ⟨id, id, id, fun _ => rfl⟩, fun h => by rw [h] at hb; cases hb⟩

end Below

/-- A generation with enough depth ends, and gives the same with any other depth that is enough, also if the way
to every task is checked. -/
theorem ends_run (ht : t.Sound F) (ho : o.Sound F) {fuel fuel' : Nat} (way : List Task) (s : Task)
    (hs : t.Holds F s.index) (hfuel : s.need t.size ≤ fuel) (hfuel' : s.need t.size ≤ fuel')
    (hway : ∀ r ∈ way, r.Leads s) :
    Ends F t (run o fuel s) (runAlong o fuel' way s) fun _ => True := by
  induction fuel generalizing fuel' way s with
  | zero => exact absurd hfuel (Nat.not_le_of_lt s.need_pos)
  | succ fuel ih =>
    cases fuel' with
    | zero => exact absurd hfuel' (Nat.not_le_of_lt s.need_pos)
    | succ fuel' =>
      have hall : (way.all fun r => r.Leads s) = true := by simpa using hway
      show Ends F t (step o (run o fuel) s)
        (if way.all fun r => r.Leads s then step o (runAlong o fuel' (s :: way)) s else throw .tooDeep) _
      rw [if_pos hall]
      refine Below.step (fun s' hcalls hs' => ?_) ht ho hs
      have hless : s'.need t.size < s.need t.size := hcalls.need_lt hs'.1
      refine ih (s :: way) s' hs' (by omega) (by omega) (List.forall_mem_cons.mpr ⟨hcalls.leads, fun r hr => ?_⟩)
      exact (hway r hr).trans hcalls.leads

/-- Two depths that are both enough make no difference. -/
theorem ends_run_run (ht : t.Sound F) (ho : o.Sound F) {fuel fuel' : Nat} (s : Task)
    (hs : t.Holds F s.index) (hfuel : s.need t.size ≤ fuel) (hfuel' : s.need t.size ≤ fuel') :
    Ends F t (run o fuel s) (run o fuel' s) fun _ => True := by
  intro g hg
  have h := ends_run ht ho [] s hs hfuel hfuel nofun g hg
  have h' := ends_run ht ho [] s hs hfuel' hfuel nofun g hg
  rcases h with ⟨a, g', hx, hy, -, hg', hw⟩ | ⟨f, g', hx, hy, hf⟩ <;>
    rcases h' with ⟨b, g'', hx', hy', -⟩ | ⟨f', g'', hx', hy', -⟩ <;>
    rw [hy] at hy' <;> cases hy'
  · exact .inl ⟨a, g', hx, hx', trivial, hg', hw⟩
  · exact .inr ⟨f, g', hx, hx', hf⟩

theorem ends_emitRoot (ht : t.Sound F) (ho : o.Sound F) (root : Option Nat)
    (hroot : ∀ r, root = some r → F (.dangling r) ∨ (t.element? r).isSome) :
    Ends F t (emitRoot o root) (emitRoot o root) fun _ => True := by
  cases root with
  | none => exact .pure trivial
  | some r =>
    refine .bind .get fun g hg => .bind (.elementAt (hroot r rfl)) fun e he => ?_
    refine .ite (fun _ => .pure trivial) fun _ => ?_
    obtain ⟨e₀, he₀, -⟩ := he.listed
    have hr : t.Holds F r := ⟨Tree.lt_size_of_element? he₀, hroot r rfl⟩
    have hdepth : Task.need t.size (.element r {}) ≤ depth g.tree := by
      unfold depth
      rw [hg.size]
      exact Task.need_le_depth t _
    exact ends_run_run ht ho _ hr hdepth hdepth

end TemplateCompiler.Generator
