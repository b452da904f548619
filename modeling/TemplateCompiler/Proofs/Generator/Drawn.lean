import TemplateCompiler.Proofs.Generator.Kept

/-!
# The code of a tree under every naming

Given that the tasks below agree, every emitter agrees under every naming: it fails under all of them in the same way,
or it gives drawn code (`uniform_run`). So a generation with the standard modules and directives gives drawn code, or
fails, whatever the names are (`Tree.agree_generate`).
-/

namespace TemplateCompiler

namespace Generator

variable {V : Json → Prop} {t : Tree} {reserved : String → Bool} {self : Naming → Emit} {i : Nat} {e : Element}
variable {b : Naming → Bindings} {done : Stages} {slot : Bool}

theorem uniform_adviseKeys : Uniform (Kept V t) (fun I => adviseKeys (I.options reserved) i (e.rebind (b I)))
    fun _ => True := by
  refine .bind (.liftSteady fun _ _ => rfl) fun component hcomponent => ?_
  obtain ⟨component, rfl⟩ := hcomponent.exists_eq
  exact .ite (fun _ _ => rfl) (.bind .siteOf fun _ _ => .warn _) (.pure trivial)

theorem uniform_adviseInline (u : Naming → Tree) (e : Naming → Element) :
    Uniform (Kept V t) (fun I => adviseInline (u I) i (e I)) fun _ => True := by
  intro g hg
  have hrun (I : Naming) : ∃ warnings, (adviseInline (u I) i (e I)).run.run (g I) =
      (.ok (), { g I with warnings := warnings }) := by
    unfold adviseInline
    split <;> exact ⟨_, rfl⟩
  choose warnings hwarnings using hrun
  simp only [hwarnings]
  exact ⟨hg.warned warnings, .pure trivial⟩

theorem uniform_propsEntry {key : String} (hkey : OwnChars key.toList) {props : Naming → List Attr}
    (hp : Each (Attr.Drawn V) props) :
    Uniform (Kept V t) (fun I => propsEntry key (props I)) (Each (DataPart.Drawn V)) := by
  refine .ite hp.isEmpty (.pure .nil) (.bind (.liftFailure (agree_propsEntries hp)) fun k hk => .pure ?_)
  exact .singleton (.entry ((Code.Drawn.own _ hkey).code hk.code))

theorem uniform_eventsEntry {events : Naming → Events} (h : Events.Drawn V events) (native : Bool) :
    Uniform (Kept V t) (fun I => eventsEntry (events I) native) (Each (DataPart.Drawn V)) :=
  .ite (Each.isEmpty h) (.pure .nil) (.bind (.liftFailure (agree_eventsCode h native)) fun _ hc => .pure
    (.singleton (.entry hc)))

section

variable (ht : ∀ v, t.Writes v → V v)

include ht

theorem offered_of_loopKey {key : String} (h : loopKey? (t.ancestorElements i) = some key) : Offered V key := by
  obtain ⟨e, he, hkey⟩ := Option.bind_eq_some_iff.mp h
  obtain ⟨j, -, hj⟩ := List.mem_filterMap.mp (List.mem_of_find?_eq_some he)
  exact offered_of_filled? ((Tree.written ht hj).codes e.key (by simp [Element.expressions])) hkey

theorem uniform_directives {ds : List Directive} {e : Element} (hi : t.element? i = some e)
    (hds : ∀ d ∈ ds, d ∈ e.directives) :
    Uniform (Kept V t) (fun I => emitDirectives (I.options reserved) i ds) (Each (DataPart.Drawn V)) := by
  have hwritten : ∀ d ∈ ds, ∀ v ∈ d.values, V v := fun d hd => (Tree.written ht hi).directives d (hds d hd)
  refine .bind (.filterM hwritten fun d hd => uniform_runDirective ht reserved hi (hds d hd)) ?_
  rintro _ ⟨kept, hkept, rfl⟩
  exact .pure (drawn_directivesEntry hkept)

/-! ## Chains, loops and children -/

variable (hself : ∀ task, Uniform (Kept V t) (fun I => self I task) (Code.Drawn V))

include hself

omit ht in
theorem uniform_hoisted : Uniform (Kept V t) (fun I => emitHoisted (self I) i done) (Code.Drawn V) := by
  refine .bind .get fun g hg => .bind .enterVerbatim fun _ _ => .bind (hself _) fun body hbody => ?_
  refine .bind (.setVerbatim hg.verbatim) fun _ _ => .bind .flagsOf fun flags hflags => ?_
  obtain ⟨flags, rfl⟩ := hflags.exists_eq
  exact .pure (.hoist i _ hbody)

theorem uniform_chain (cs : List Condition) (hcs : ∀ c ∈ cs, V c.expression) :
    Uniform (Kept V t) (fun I => emitChain (self I) i done slot cs) (Code.Drawn V) := by
  have harm (c : Condition) : Uniform (Kept V t) (fun I => emitArm (self I) i done slot c.block) (Code.Drawn V) := by
    refine .ite (fun _ _ => rfl) (hself _) (.bind (.elementAt ht) ?_)
    rintro _ ⟨e, b, -, -, -, rfl⟩
    exact .ite (fun _ _ => rfl) (hself _) (hself _)
  induction cs with
  | nil =>
    refine .pure ?_
    cases slot with
    | true => exact .own _ (by decide)
    | false => exact .callHelper .empty .empty
  | cons c rest ih =>
    obtain ⟨hc, hrest⟩ := List.forall_mem_cons.mp hcs
    unfold emitChain
    rcases htest : c.expression.filled? with _ | test
    · exact harm c
    · refine .bind (harm c) fun yes hyes => .bind (ih hrest) fun no hno => .pure ?_
      exact .branch i (.given (offered_of_filled? hc htest)) hyes hno

theorem uniform_branches (he : e.Written V) :
    Uniform (Kept V t) (fun I => emitBranches (self I) i (e.rebind (b I)) done slot) (Code.Drawn V) :=
  uniform_chain ht hself e.conditions fun c hc =>
    he.codes c.expression (List.mem_append_right _ (List.mem_map_of_mem hc))

omit ht in
theorem uniform_loop (he : e.Written V) : Uniform (Kept V t)
    (fun I => emitLoop (I.options reserved) (self I) i (e.rebind (b I)) done slot) (Code.Drawn V) := by
  refine .bind uniform_adviseKeys fun _ _ => .bind (hself _) fun body hbody => .pure ?_
  exact .loop i (.shown (he.codes e.forSource (by simp [Element.expressions]))) (drawn_loopParams he) hbody

theorem uniform_once : Uniform (Kept V t) (fun I => emitOnce (self I) i done) (Code.Drawn V) := by
  refine .bind (.elementAt ht) ?_
  rintro _ ⟨e, b, -, he, -, rfl⟩
  refine .ite (fun _ _ => rfl) (uniform_branches ht hself he) (.bind .flagsOf fun flags hflags => ?_)
  obtain ⟨flags, rfl⟩ := hflags.exists_eq
  refine .ite (fun _ _ => rfl) (uniform_hoisted hself) (.bind .get fun g hg => ?_)
  have hkey (I : Naming) : loopKey? ((g I).tree.ancestorElements i) = loopKey? (t.ancestorElements i) :=
    (hg.rebound I).loopKey? i
  simp only [hkey]
  rcases hloop : loopKey? (t.ancestorElements i) with _ | key
  · exact .bind .siteOf fun _ _ => .bind (.warn _) fun _ _ => hself _
  · exact .bind (hself _) fun body hbody => .pure (.once i (.given (offered_of_loopKey ht hloop)) hbody)

theorem uniform_node (c : Nat) : Uniform (Kept V t) (fun I => emitNode (self I) c) (Code.Drawn V) := by
  refine .bind .nodeAt ?_
  rintro n ⟨n₀, hn₀, hn⟩
  have hvalues := Tree.forall_values ht hn₀
  by_cases helement : ∃ e₀, n₀.content = .element e₀
  · obtain ⟨e₀, hn₀⟩ := helement
    have hcontent (I : Naming) : ∃ e, (n I).content = .element e := by
      rcases Node.content_of_unbound (hn I) with ⟨e, -, he, -⟩ | ⟨-, hne⟩
      · exact ⟨e, he⟩
      · exact absurd hn₀ (hne e₀)
    choose e he using hcontent
    simp only [he]
    exact hself _
  · have hcontent (I : Naming) : (n I).content = n₀.content := by
      rcases Node.content_of_unbound (hn I) with ⟨-, e₀, -, he₀⟩ | ⟨heq, -⟩
      · exact absurd ⟨e₀, he₀⟩ helement
      · exact heq
    unfold Node.values at hvalues
    simp only [hcontent]
    rcases hc : n₀.content with e₀ | text | ⟨code, _⟩ | text <;> rw [hc] at hvalues
    · exact absurd ⟨e₀, hc⟩ helement
    · have htext : V text := hvalues text (List.mem_singleton_self _)
      exact .pure (.callHelper _ (.text (.given (.escapeSeparators (.compact htext)))))
    · exact .pure (.callHelper _ (.text (.shown (hvalues code (List.mem_singleton_self _)))))
    · exact .pure (.callHelper _ (.text (.given (.compact (hvalues text (List.mem_singleton_self _))))))

theorem uniform_children (withLevel : Bool) : Uniform (Kept V t)
    (fun I => emitChildren (I.options reserved) (self I) (e.rebind (b I)) withLevel) (Children.Drawn V) := by
  refine .bind .get fun g hg => .ite (fun _ _ => rfl) (.pure .none) ?_
  have hlone : Maybe OnePlace fun I => loneLoop? (g I).tree (e.rebind (b I)).children := hg.loneLoop? e.children
  rcases hlone with hnone | ⟨_, ⟨c, loop, b', rfl⟩, hsome⟩
  · simp only [congrFun hnone]
    have hlevel (I : Naming) : listLevel (I.options reserved) (g I).tree e.children withLevel =
        listLevel { reserved } t e.children withLevel := by
      rw [listLevel, listLevel, (hg.rebound I).flatteningLevel (o := I.options reserved) { reserved } rfl]
    refine .bind (.liftSteady (.of_eq hlevel)) fun level hlevel => ?_
    obtain ⟨level, rfl⟩ := hlevel.exists_eq
    exact .bind (.mapM fun c _ => uniform_node ht hself c) fun items hitems => .pure (.list hitems level)
  · simp only [congrFun hsome]
    refine .bind (.liftSteady fun _ _ => rfl) fun level hlevel => ?_
    obtain ⟨level, rfl⟩ := hlevel.exists_eq
    exact .bind (hself _) fun loop hloop => .pure (.bare hloop level)

/-! ## Slots and data -/

theorem uniform_outlet (he : e.Written V) (hb : Bindings.Drawn V b) : Uniform (Kept V t)
    (fun I => emitOutlet (I.options reserved) (self I) i (e.rebind (b I))) (Code.Drawn V) := by
  refine .bind (uniform_children ht hself false) fun children hchildren => ?_
  refine .bind (.liftFailure (agree_outletProps hb)) fun props hprops => .pure ?_
  exact .outlet i (drawn_outletArguments he hchildren.code? hprops)

theorem uniform_slotEntry : Uniform (Kept V t)
    (fun I => emitSlotEntry (I.options reserved) (self I) i done) (Code.Drawn V) := by
  refine .bind (.elementAt ht) ?_
  rintro _ ⟨e, b, -, he, -, rfl⟩
  have hbody (legacy : Bool) : Uniform (Kept V t)
      (fun I => emitSlotBody (I.options reserved) (self I) i (e.rebind (b I)) done legacy) (Code.Drawn V) := by
    refine .ite (fun _ _ => rfl) (.bind (uniform_children ht hself false) fun children hchildren => ?_) (hself _)
    exact .pure (drawn_slotContent he i legacy hchildren)
  have hlegacy (I : Naming) : (e.rebind (b I)).rawValue "slot-scope" = e.rawValue "slot-scope" := rfl
  simp only [hlegacy]
  refine .ite (fun _ _ => rfl) (uniform_branches ht hself he) (.ite (fun _ _ => rfl) (uniform_loop hself he) ?_)
  -- The key of the descriptor is read from the element as its body left it.
  refine .bind (hbody _) fun body hbody => .bind (.elementAt ht) ?_
  rintro _ ⟨e', b', -, he', -, rfl⟩
  exact .pure (drawn_slotDescriptor he (he'.codes e'.slotTarget (by simp [Element.expressions])) hbody)

omit ht in
theorem uniform_scopedSlots : Uniform (Kept V t) (fun I => slotsEntry (self I) i (e.rebind (b I)))
    (Each (DataPart.Drawn V)) := by
  refine .ite (fun _ _ => rfl) (.pure .nil) (.bind (Q := Code.Drawn V) ?_ fun c hc => .pure (.singleton (.entry hc)))
  refine .bind .get fun g hg => ?_
  have hhint (I : Naming) : updateHint (g I).tree i (e.rebind (b I)) = updateHint t i e :=
    (hg.rebound I).updateHint i _
  simp only [hhint]
  refine .bind (.mapM fun _ _ => hself _) fun entries hentries => .pure ?_
  exact (Code.Drawn.own _ (by decide)).code (.slots i _ (.join (by decide) hentries))

omit ht in
theorem uniform_template {child : Element} (b : Naming → Bindings) (c : Nat) :
    Uniform (Kept V t) (fun I => emitTemplate (self I) c (child.rebind (b I))) (Code.Drawn V) :=
  .ite (fun _ _ => rfl) (.pure (.own _ (by decide))) (hself _)

omit ht in
theorem uniform_inline : Uniform (Kept V t) (fun I => inlineEntry (self I) i (e.rebind (b I)))
    (Each (DataPart.Drawn V)) := by
  refine .ite (fun _ _ => rfl) (.bind .get fun g hg => .bind (uniform_adviseInline _ _) fun _ _ => ?_) (.pure .nil)
  rcases hg.firstElement? e b with hnone | ⟨_, ⟨c, child, b', rfl⟩, hsome⟩
  · simp only [congrFun hnone]
    exact .pure .nil
  · simp only [congrFun hsome]
    exact .bind (.apart (uniform_template hself b' c)) fun body hbody => .pure (.singleton (.entry (.inline hbody)))

omit ht in
theorem uniform_parts (he : e.Written V) (hb : Bindings.Drawn V b) : Uniform (Kept V t)
    (fun I => emitParts (I.options reserved) (self I) i (e.rebind (b I))) (Each (DataPart.Drawn V)) := by
  have hmodel : Each (DataPart.Drawn V) fun I => ((e.rebind (b I)).model.map modelEntry).toList := by
    simp only [Element.toBindings_rebind]
    rcases hb.model with hnone | ⟨m, hm, hsome⟩
    · simp only [congrFun hnone]
      exact .nil
    · simp only [congrFun hsome]
      exact .singleton (drawn_modelEntry hm)
  have hattrs : Each (Attr.Drawn V) fun I => (e.rebind (b I)).attrs.getD [] := by
    obtain ⟨attrs, hattrs⟩ := hb.attrs.exists_eq
    simp only [Element.toBindings_rebind, congrFun hattrs]
    exact each_attrs fun a ha => hb.written default a (List.mem_append_left _ (by rwa [congrFun hattrs default]))
  refine .bind .isVerbatim fun verbatim hverbatim => ?_
  obtain ⟨verbatim, rfl⟩ := hverbatim.exists_eq
  refine .bind (uniform_propsEntry (by decide) hattrs) fun attrs hattrs => ?_
  refine .bind (uniform_propsEntry (by decide) hb.props) fun props hprops => ?_
  refine .bind (uniform_eventsEntry hb.events false) fun events hevents => ?_
  refine .bind (uniform_eventsEntry hb.nativeEvents true) fun native hnative => ?_
  refine .bind (uniform_scopedSlots hself) fun slots hslots => ?_
  refine .bind (uniform_inline hself) fun inline hinline => .pure ?_
  have hown : Each (DataPart.Drawn V) fun I => ownEntries (I.options reserved) (e.rebind (b I)) verbatim :=
    drawn_ownEntries (o := { modules := CompilerModule.standard }) rfl he verbatim
  exact hown.append hattrs |>.append hprops |>.append hevents |>.append hnative |>.append (drawn_targetEntry he)
    |>.append hslots |>.append hmodel |>.append hinline

theorem uniform_data : Uniform (Kept V t)
    (fun I => emitData (I.options reserved) (self I) i) (Code.Drawn V) := by
  have hobject {e₀ : Element} (hi : t.element? i = some e₀) {ds : List Directive} (hds : ∀ d ∈ ds, d ∈ e₀.directives) :
      Uniform (Kept V t) (fun I => emitDataObject (I.options reserved) (self I) i ds) (Code.Drawn V) := by
    refine .bind (uniform_directives ht hi hds) fun kept hkept => .bind (.elementAt ht) ?_
    rintro _ ⟨e, b, -, he, hb, rfl⟩
    refine .bind (uniform_parts hself he hb) fun parts hparts => ?_
    have hjoined := DataPart.Drawn.join (hkept.append hparts)
    have hdata := (Code.Drawn.own "\x7b" (by decide)).code hjoined |>.fixed "\x7d" (by decide)
    refine .bind (.liftFailure (agree_bindDynamicAttrs he hb hdata)) fun data hdata => .pure ?_
    exact drawn_mergeObjects hb hdata
  refine .bind (.elementAt ht) ?_
  rintro _ ⟨e, b, hi, -, hb, rfl⟩
  refine .ite (fun _ _ => rfl) (hobject hi nofun) ?_
  -- What is put back are the bindings from before the plugins ran.
  exact .restoringBindings hi hb (hobject hi fun _ hd => hd)

/-! ## Nodes -/

theorem uniform_bare (he : e.Written V) (hb : Bindings.Drawn V b) : Uniform (Kept V t)
    (fun I => emitBare (I.options reserved) (self I) i (e.rebind (b I))) (Code.Drawn V) := by
  have hchildren (e : Element) (b : Naming → Bindings) : Uniform (Kept V t)
      (fun I => emitNodeChildren (I.options reserved) (self I) (e.rebind (b I))) (Children.Drawn V) :=
    .ite (fun _ _ => rfl) (.pure .none) (uniform_children ht hself _)
  have hneeds : Uniform (Kept V t) (fun I => needsData (I.options reserved) i (e.rebind (b I))) Steady := by
    have hplain : Steady fun I => !(e.rebind (b I)).plain.truthy := fun I J =>
      congrArg (fun p => !p.truthy) (hb.plain I J)
    refine .ite hplain (.pure fun _ _ => rfl) (.bind .isVerbatim fun verbatim hverbatim => ?_)
    obtain ⟨verbatim, rfl⟩ := hverbatim.exists_eq
    exact .ite (fun _ _ => rfl) (.pure fun _ _ => rfl) (.liftSteady fun _ _ => rfl)
  have hargument : Uniform (Kept V t)
      (fun I => emitDataArgument (I.options reserved) (self I) i (e.rebind (b I))) (Code.Drawn V) := by
    refine .bind hneeds fun _ hneeds => .ite hneeds ?_ (.pure .empty)
    exact .bind (uniform_data ht hself) fun data hdata => .pure ((Code.Drawn.own _ (by decide)).code hdata)
  have hcomponent (I : Naming) : (e.rebind (b I)).component = e.component := rfl
  unfold emitBare
  simp only [hcomponent]
  rcases hname : e.component.filled? with _ | name
  · refine .bind hargument fun data hdata => .bind (.elementAt ht) ?_
    rintro _ ⟨e', b', -, he', -, rfl⟩
    refine .bind (hchildren e' b') fun children hchildren => .pure ?_
    exact .create i false ((Text.Drawn.own _ (by decide)).offered (.shown he'.tag) |>.fixed _ (by decide)) hdata
      hchildren.argument
  · refine .bind (hchildren e b) fun children hchildren => .bind (uniform_data ht hself) fun data hdata => .pure ?_
    have hname := offered_of_filled? (he.codes e.component (by simp [Element.expressions])) hname
    exact .create i true (.given hname) ((Code.Drawn.own _ (by decide)).code hdata) hchildren.argument

theorem uniform_element : Uniform (Kept V t)
    (fun I => emitElement (I.options reserved) (self I) i done) (Code.Drawn V) := by
  refine .bind (.elementAt ht) ?_
  rintro _ ⟨e, b, -, he, hb, rfl⟩
  -- The standard modules leave the code of a node as it is.
  have hcreate : Uniform (Kept V t)
      (fun I => emitCreate (I.options reserved) (self I) i (e.rebind (b I))) (Code.Drawn V) :=
    .bind (uniform_bare ht hself he hb) fun code hcode => .bind (.elementAt ht) fun _ _ => .pure hcode
  have hplace : Uniform (Kept V t)
      (fun I => emitInPlace (I.options reserved) (self I) i (e.rebind (b I)) done) (Code.Drawn V) := by
    refine .ite (fun _ _ => rfl) (uniform_loop hself he) (.ite (fun _ _ => rfl) (uniform_branches ht hself he) ?_)
    refine .bind .get fun g hg => .ite ?_ ?_ (.ite (fun _ _ => rfl) (uniform_outlet ht hself he hb) hcreate)
    · exact fun I J => congrArg (fun v => e.hasTag "template" && !e.slotTarget.truthy && !v) (hg.verbatim I J)
    · refine .bind (uniform_children ht hself false) fun children hchildren => .pure ?_
      exact .fragment i (hchildren.codeOr _ (by decide))
  refine .bind .flagsOf fun flags hflags => ?_
  obtain ⟨flags, rfl⟩ := hflags.exists_eq
  exact .ite (fun _ _ => rfl) (uniform_hoisted hself) (.ite (fun _ _ => rfl) (uniform_once ht hself) hplace)

omit hself in
theorem uniform_run (fuel : Nat) (task : Task) :
    Uniform (Kept V t) (fun I => run (I.options reserved) fuel task) (Code.Drawn V) := by
  induction fuel generalizing task with
  | zero => exact .throw _
  | succ fuel ih =>
    cases task with
    | element i done => exact uniform_element ht ih
    | onceElement i done => exact uniform_once ht ih
    | slotEntry i done => exact uniform_slotEntry ht ih

omit hself in
theorem uniform_root (root : Option Nat) :
    Uniform (Kept V t) (fun I => emitRoot (I.options reserved) root) (Code.Drawn V) := by
  cases root with
  | none => exact .pure (.callHelper .create (.own _ (by decide)))
  | some i =>
    refine .bind .get fun g hg => .bind (.elementAt ht) ?_
    rintro _ ⟨e, b, -, -, -, rfl⟩
    have hdepth (I : Naming) : depth (g I).tree = depth t := by rw [depth, depth, (hg.rebound I).1]
    simp only [hdepth]
    exact uniform_template (uniform_run ht _) b i

end

end Generator

/-- The code of a tree is drawn from its values and from names, or it cannot be written under any naming. -/
theorem Tree.agree_generate {V : Json → Prop} {t : Tree} (ht : ∀ v, t.Writes v → V v) (reserved : String → Bool)
    (root : Option Nat) : Agree (Code.Drawn V) fun I => (t.generate (I.options reserved) root).code :=
  (Generator.uniform_root ht (root.or t.root) _ (Kept.start ht)).2

end TemplateCompiler
