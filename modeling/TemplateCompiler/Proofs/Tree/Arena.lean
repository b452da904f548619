import TemplateCompiler.Proofs.Environment.Compile
import TemplateCompiler.Proofs.Tree.Built

/-!
# The arena of a template

`Tree.Assembled` says which trees a sequence of calls of the builder makes if every node is put under an
element that is there, and which indices the calls give. Such a tree is in good order, and so is a loaded one,
in which moreover every node but the root is listed exactly once (`arena_wellFormed`).
-/

namespace TemplateCompiler.Tree

/-- The trees that the builder makes, with the indices it gave to the nodes, in order. No node is listed by
hand. -/
inductive Assembled : Tree → List Nat → Prop
  | empty : Assembled {} []
  | ofRoot {n : Node} {e : Element} (hn : n.element? = some e) (he : ∀ k, e.listed k = []) :
      Assembled (ofRoot n) (ofRoot n).root.toList
  /-- A text, an expression or a comment. -/
  | leaf {t : Tree} {is : List Nat} {n : Node} {parent : Nat} (ht : Assembled t is)
      (hn : n.element? = none) (hp : (t.element? parent).isSome) :
      Assembled (t.attach n (some parent)).1 (is ++ [(t.attach n (some parent)).2])
  | element {t : Tree} {is : List Nat} {d : Draft} {parent : Option Nat} (ht : Assembled t is)
      (hd : d.Bare) (hp : ∀ p, parent = some p → (t.element? p).isSome) :
      Assembled (t.addElement d parent).1 (is ++ [(t.addElement d parent).2])
  | branch {t : Tree} {is : List Nat} {owner : Nat} {expression : Json} {d : Draft}
      (ht : Assembled t is) (hd : d.Bare) (ho : (t.element? owner).isSome) :
      Assembled (t.addBranch owner expression d).1 (is ++ [(t.addBranch owner expression d).2])
  | scopedSlot {t : Tree} {is : List Nat} {host : Nat} {target scope dynamic : Json} {d : Draft}
      (ht : Assembled t is) (hd : d.Bare) (hh : (t.element? host).isSome) :
      Assembled (t.addScopedSlot host target scope dynamic d).1
        (is ++ [(t.addScopedSlot host target scope dynamic d).2])

variable {t : Tree} {is : List Nat} {n : Node} {i : Nat} {parent : Option Nat}

theorem lt_size_of_isSome (h : (t.element? i).isSome) : i < t.size := by
  obtain ⟨e, he⟩ := Option.isSome_iff_exists.mp h
  exact lt_size_of_element? he

theorem size_adopt (t : Tree) (n : Node) (parent : Option Nat) :
    (t.adopt n parent).1.size = t.size + 1 :=
  Array.size_push ..

theorem index_attach (t : Tree) (n : Node) (parent : Option Nat) : (t.attach n parent).2 = t.size := by
  cases parent with
  | none =>
    show (if _ then _ else _ : Tree × Nat).2 = t.size
    split <;> rfl
  | some p => rfl

theorem size_attach (t : Tree) (n : Node) (parent : Option Nat) :
    (t.attach n parent).1.size = t.size + 1 := by
  cases parent with
  | none =>
    show (if _ then _ else _ : Tree × Nat).1.size = t.size + 1
    split <;> exact size_adopt ..
  | some p => exact (size_modifyElement ..).trans (size_adopt ..)

namespace Whole

/-- A new node that is listed by one element. -/
theorem link (h : t.Whole) (hl : t.Linked) (hn : n.ListsOnly t.size)
    (hp : ∀ a, parent = some a → (t.element? a).isSome) {f : Element → Element} (k : Link)
    (hf : ∀ e k', ((f e).listed k').Subperm (e.listed k' ++ if k' = k then [t.size] else [])) :
    ((t.adopt n parent).1.modifyElement i f).Whole := by
  have hnew := Loader.Loaded.adopt hl (fun a ha => lt_size_of_isSome (hp a ha)) hn
  refine (h.adopt hp hn).modifyElement (List.nodup_singleton t.size) (fun c hc => ?_) hf
  exact List.mem_singleton.mp hc ▸ hnew.unlisted

theorem attach (h : t.Whole) (hl : t.Linked) (hn : n.ListsOnly t.size)
    (hp : ∀ a, parent = some a → (t.element? a).isSome) : (t.attach n parent).1.Whole := by
  cases parent with
  | none =>
    have hw := h.adopt hp hn
    show (if _ then _ else _ : Tree × Nat).1.Whole
    split
    · exact ⟨hw.parents, hw.nodup⟩
    · exact hw
  | some p =>
    refine h.link hl hn hp .child fun e k' => ?_
    cases k' with
    | child => exact List.Subperm.refl _
    | slot | block => exact (List.append_nil _).symm ▸ List.Subperm.refl _

end Whole

namespace Assembled

theorem built (h : t.Assembled is) : t.Built := by
  induction h with
  | empty => exact .empty
  | ofRoot hn he => exact .ofRoot (.of_empty hn he 0)
  | leaf _ hn hp ih => exact .leaf ih hn (lt_size_of_isSome hp)
  | element _ hd hp ih => exact .element ih hd fun p hpp => lt_size_of_isSome (hp p hpp)
  | branch _ hd ho ih => exact .branch ih hd (lt_size_of_isSome ho)
  | scopedSlot _ hd hh ih => exact .scopedSlot ih hd (lt_size_of_isSome hh)

theorem whole (h : t.Assembled is) : t.Whole := by
  induction h with
  | empty => exact Loader.orderly_empty.whole
  | ofRoot hn he =>
    have hw := Loader.orderly_empty.whole.adopt (p := none) nofun (.of_empty hn he 0)
    exact ⟨hw.parents, hw.nodup⟩
  | leaf ht hn hp ih =>
    exact ih.attach ht.built.rooted.linked (.leaf hn) fun a ha => Option.some.inj ha ▸ hp
  | element ht hd hp ih =>
    exact ih.attach ht.built.rooted.linked (Draft.listsOnly_node hd (fun _ _ => rfl) _) hp
  | branch ht hd _ ih =>
    refine ih.link ht.built.rooted.linked (Draft.listsOnly_node hd (fun e k => ?_) _)
      (fun a ha => ih.parents ha) .block fun e k' => ?_
    · split <;> cases k <;> rfl
    · cases k' with
      | block =>
        simp only [Element.listed, List.map_append]
        exact List.Subperm.refl _
      | child | slot => exact (List.append_nil _).symm ▸ List.Subperm.refl _
  | scopedSlot ht hd hh ih =>
    refine ih.link ht.built.rooted.linked (Draft.listsOnly_node hd (fun e k => ?_) _)
      (fun a ha => Option.some.inj ha ▸ hh) .slot fun e k' => ?_
    · cases k <;> rfl
    · cases k' with
      | slot => exact Table.values_put_subperm
      | child | block => exact (List.append_nil _).symm ▸ List.Subperm.refl _

theorem wellFormed (h : t.Assembled is) : t.WellFormed :=
  h.built.rooted.linked.wellFormed h.whole

/-- A node is where its index says. -/
theorem indices (h : t.Assembled is) : is = List.range t.size := by
  have hnext {t : Tree} {is : List Nat} {s : Tree × Nat} (ih : is = List.range t.size)
      (hsize : s.1.size = t.size + 1) (hindex : s.2 = t.size) : is ++ [s.2] = List.range s.1.size := by
    rw [hsize, hindex, ih, List.range_succ]
  induction h with
  | empty | ofRoot => rfl
  | leaf _ _ _ ih | element _ _ _ ih => exact hnext ih (size_attach ..) (index_attach ..)
  | branch _ _ _ ih | scopedSlot _ _ _ ih =>
    exact hnext ih ((size_modifyElement ..).trans (size_adopt ..)) rfl

end Assembled

/-- Arenas are in good order, whether they were built node by node or loaded. Nodes are where their indices
say. In a tree that was loaded from data without double names, every node but the root is referenced exactly
once. The way up from a node ends, and its indices get smaller and smaller. -/
theorem arena_wellFormed :
    (∀ (t : Tree) is, t.Assembled is → t.WellFormed ∧ is = List.range t.size) ∧
    (∀ (v : Json) t, (Tree.load v).1 = .ok t → t.WellFormed ∧ (v.distinct = true →
      ∀ j, t.references.count j = if j < t.size ∧ t.root ≠ some j then 1 else 0)) ∧
    ∀ t : Tree, t.WellFormed → ∀ i, t.Ascent i (t.ancestors i) ∧ (i :: t.ancestors i).Pairwise (· > ·) := by
  refine ⟨fun t is h => ⟨h.wellFormed, h.indices⟩, fun v t h => ?_, fun t h i => ?_⟩
  · exact ⟨wellFormed_load h, fun hv => count_references_load hv h⟩
  · exact ⟨h.ascent i, h.pairwise_of_ascent (h.ascent i)⟩

/-- A component with a tested child, a block beside the child, a text in the block and a slot definition. -/
def panel : Tree :=
  let tested : Node → Node := Node.mapElement fun e => { e with ifExpr := "ok" }
  let t := (({} : Tree).addElement { tag := "my-panel" } none).1
  let t := (t.addElement { tag := "p", fill := tested } (some 0)).1
  let t := (t.addBranch 1 .null { tag := "b" }).1
  let t := (t.attach { content := .text "none" } (some 2)).1
  (t.addScopedSlot 0 "head" emptySlotScope (.bool false) { tag := "template" }).1

theorem assembled_panel : panel.Assembled [0, 1, 2, 3, 4] := by
  have hbare (f : Element → Element) (hf : ∀ e k, (f e).listed k = e.listed k) (tag : Json) :
      ({ tag := tag, fill := Node.mapElement f } : Draft).Bare := by
    intro n hn e he k
    rw [Node.element?_mapElement] at he
    obtain ⟨e, he', rfl⟩ := Option.map_eq_some_iff.mp he
    rw [hf, hn e he' k]
  have hid (tag : Json) : ({ tag := tag } : Draft).Bare := fun _ hn => hn
  refine .scopedSlot (.leaf (.branch (.element (.element .empty (hid _) ?_) (hbare _ ?_ _) ?_) (hid _) ?_)
    rfl ?_) (hid _) ?_
  · rintro p ⟨⟩
  · intro e k
    cases k <;> rfl
  · rintro p ⟨⟩
    decide
  all_goals decide

/-- The same template as data. -/
def panelData : Json :=
  let none : Json := .object [("type", .int 3), ("text", "none")]
  let other : Json := .object [("tag", "b"), ("else", .bool true), ("children", .array [none])]
  let first : Json := .object
    [("tag", "p"), ("if", "ok"), ("ifConditions", .array [.object [("exp", "ok")], .object [("block", other)]])]
  .object [("tag", "my-panel"), ("children", .array [first]),
    ("scopedSlots", .object [("head", .object [("tag", "template")])])]

theorem arena_wellFormed_panel : panel.WellFormed ∧ panel.Ascent 3 [2, 0] ∧
    ∃ t, (Tree.load panelData).1 = .ok t ∧ t.WellFormed ∧
      (List.range 6).map (t.references.count ·) = [0, 1, 1, 1, 1, 0] := by
  obtain ⟨hbuilt, hloaded, hup⟩ := arena_wellFormed
  have hpanel := (hbuilt panel _ assembled_panel).1
  have hancestors : panel.ancestors 3 = [2, 0] := by decide
  have h : ((Tree.load panelData).1.toOption.map fun t => decide (t.size = 5 ∧ t.root = some 0)) =
      some true := by
    decide +kernel
  obtain ⟨t, hload, h⟩ := Option.map_eq_some_iff.mp h
  obtain ⟨hsize, hroot⟩ := of_decide_eq_true h
  obtain ⟨hwf, hcount⟩ := hloaded panelData t (ok_of_toOption hload)
  refine ⟨hpanel, hancestors ▸ (hup panel hpanel 3).1, t, ok_of_toOption hload, hwf, ?_⟩
  simp only [hcount (by decide), hsize, hroot]
  decide

end TemplateCompiler.Tree
