import TemplateCompiler.Proofs.Tree.Loaded

/-!
# Trees that are built node by node

`Tree.Built` says which trees the operations of the builder make, if each node is put under a node that is
already there. All of them are `Rooted`: they are linked, and their root stands under no element. One lemma
says that a node can be added (`Rooted.adopt`), and one that the new node can be listed (`Rooted.link`).
-/

namespace TemplateCompiler

/-- The further fields of a draft list no nodes. -/
def Draft.Bare (d : Draft) : Prop :=
  ∀ n : Node, (∀ e, n.element? = some e → ∀ k, e.listed k = []) →
    ∀ e, (d.fill n).element? = some e → ∀ k, e.listed k = []

/-- An element of a draft lists itself at most. -/
theorem Draft.listsOnly_node {d : Draft} (hd : d.Bare) {prepare : Element → Element}
    (hprepare : ∀ e k, (prepare e).listed k = e.listed k) (i : Nat) :
    ((d.node prepare).mapElement (Element.seedConditions i)).ListsOnly i := by
  intro e he k j hj
  rw [Node.element?_mapElement] at he
  obtain ⟨e₁, he₁, rfl⟩ := Option.map_eq_some_iff.mp he
  have hbare : e₁.listed k = [] := by
    unfold Draft.node at he₁
    rw [Node.element?_mapElement] at he₁
    obtain ⟨e₂, he₂, rfl⟩ := Option.map_eq_some_iff.mp he₁
    have hfill := hd _ (fun e he k => ?_) e₂ he₂ k
    · cases k <;> exact hfill
    · obtain rfl := Option.some.inj he
      rw [hprepare]
      cases k <;> rfl
  unfold Element.seedConditions at hj
  split at hj
  · cases k with
    | block => exact ⟨rfl, List.mem_singleton.mp hj⟩
    | child | slot => exact nomatch hbare ▸ hj
  · exact nomatch hbare ▸ hj

namespace Tree

/-- A linked tree whose root stands under no element. -/
structure Rooted (t : Tree) : Prop where
  linked : t.Linked
  lt_size : ∀ r, t.root = some r → r < t.size
  parentless : ∀ r, t.root = some r → t.parent? r = none
  unlisted : ∀ r, t.root = some r → t.Unlisted r

/-- The trees that the builder makes. -/
inductive Built : Tree → Prop
  | empty : Built {}
  | ofRoot {n : Node} (hn : n.ListsOnly 0) : Built (ofRoot n)
  | adopt {t : Tree} {n : Node} {parent : Option Nat} (ht : Built t) (hn : n.ListsOnly t.size)
      (hp : ∀ p, parent = some p → p < t.size) : Built (t.adopt n parent).1
  /-- A text, an expression or a comment. -/
  | leaf {t : Tree} {n : Node} {parent : Nat} (ht : Built t) (hn : n.element? = none)
      (hp : parent < t.size) : Built (t.attach n (some parent)).1
  | element {t : Tree} {d : Draft} {parent : Option Nat} (ht : Built t) (hd : d.Bare)
      (hp : ∀ p, parent = some p → p < t.size) : Built (t.addElement d parent).1
  | branch {t : Tree} {owner : Nat} {expression : Json} {d : Draft} (ht : Built t) (hd : d.Bare)
      (ho : owner < t.size) : Built (t.addBranch owner expression d).1
  | scopedSlot {t : Tree} {host : Nat} {target scope dynamic : Json} {d : Draft} (ht : Built t)
      (hd : d.Bare) (hh : host < t.size) : Built (t.addScopedSlot host target scope dynamic d).1
  /-- A change to the fields of an element. It may drop nodes, and list the element as its own block. -/
  | edit {t : Tree} {i : Nat} {f : Element → Element} (ht : Built t)
      (hf : ∀ e k j, j ∈ (f e).listed k → j ∈ e.listed k ∨ k = .block ∧ j = i) :
      Built (t.modifyElement i f)

variable {t : Tree} {n : Node} {i : Nat} {f : Element → Element}

theorem rooted_empty : ({} : Tree).Rooted :=
  ⟨linked_empty, nofun, nofun, nofun⟩

namespace Rooted

theorem adopt (h : t.Rooted) {parent : Option Nat} (hn : n.ListsOnly t.size)
    (hp : ∀ p, parent = some p → p < t.size) : (t.adopt n parent).1.Rooted := by
  have hnew := Loader.Loaded.adopt h.linked hp hn
  refine ⟨hnew.linked, fun r hr => ?_, fun r hr => ?_, fun r hr => ?_⟩
  · exact Nat.lt_trans (h.lt_size r hr) hnew.grows
  · rw [parent?, hnew.old r (h.lt_size r hr), ← parent?]
    exact h.parentless r hr
  · exact hnew.unlisted_old (h.lt_size r hr) (h.unlisted r hr)

/-- The new node becomes the root. -/
theorem adopt_root (h : t.Rooted) (hn : n.ListsOnly t.size) :
    ({ (t.adopt n none).1 with root := some t.size } : Tree).Rooted := by
  have hnew := Loader.Loaded.adopt (p := none) h.linked (fun _ hp => nomatch hp) hn
  refine ⟨⟨hnew.linked.above, hnew.linked.below, hnew.linked.single⟩, ?_, ?_, ?_⟩ <;> rintro _ ⟨⟩
  · exact hnew.lt_size
  · exact hnew.parent_eq
  · exact hnew.unlisted

theorem modifyElement (h : t.Rooted) (New : Link → Nat → Prop)
    (hf : ∀ e k j, j ∈ (f e).listed k → j ∈ e.listed k ∨ New k j ∨ k = .block ∧ j = i)
    (hnew : ∀ k j, New k j → t.Unlisted j ∧ i < j ∧ j < t.size ∧
      t.parent? j = if k = .block then t.parent? i else some i)
    (huniq : ∀ k k' j, New k j → New k' j → k = k') (hroot : ∀ k r, t.root = some r → ¬New k r) :
    (t.modifyElement i f).Rooted := by
  have hg : ∀ m : Node, (m.mapElement f).parent = m.parent := fun m => m.parent_mapElement f
  have hl (k : Link) (j : Nat) (hj : (t.modifyElement i f).Lists k i j) : t.Lists k i j ∨ New k j := by
    obtain ⟨e, he, hj, hne⟩ := Loader.lists_modifyElement.mp hj
    rcases hf e k j hj with hj | hj | ⟨hk, hj⟩
    · exact .inl ⟨e, he, hj, hne⟩
    · exact .inr hj
    · exact absurd hj (hne hk)
  refine ⟨h.linked.modify hg New hl hnew huniq, fun r hr => ?_, fun r hr => ?_, fun r hr => ?_⟩
  · exact (size_modifyNode t i _).symm ▸ h.lt_size r hr
  · exact (parent?_modifyNode hg r).trans (h.parentless r hr)
  · intro k a ha
    rcases lists_modifyNode hl ha with hold | ⟨-, hn⟩
    · exact h.unlisted r hr k a hold
    · exact hroot k r hr hn

/-- A new node can be listed by any element, if it stands under the right one. -/
theorem link (h : t.Rooted) {k : Link} (hn : n.ListsOnly t.size) (hi : i < t.size)
    {parent : Option Nat} (hp : parent = if k = .block then t.parent? i else some i)
    (hf : ∀ e k' j, j ∈ (f e).listed k' → j ∈ e.listed k' ∨ k' = k ∧ j = t.size) :
    ((t.adopt n parent).1.modifyElement i f).Rooted := by
  have hlt : ∀ p, parent = some p → p < t.size := by
    intro p hpp
    rw [hp] at hpp
    split at hpp
    · exact Nat.lt_trans (h.linked.above hpp) hi
    · exact Option.some.inj hpp ▸ hi
  have hnew := Loader.Loaded.adopt h.linked hlt hn
  refine (h.adopt hn hlt).modifyElement (fun k' j => k' = k ∧ j = t.size) ?_ ?_ ?_ ?_
  · exact fun e k' j hj => (hf e k' j hj).imp_right .inl
  · rintro _ _ ⟨rfl, rfl⟩
    have hold : (t.adopt n parent).1.parent? i = t.parent? i := by
      rw [parent?, hnew.old i hi, ← parent?]
    exact ⟨hnew.unlisted, hi, hnew.lt_size, by rw [hnew.parent_eq, hold, hp]⟩
  · rintro _ _ _ ⟨rfl, -⟩ ⟨rfl, -⟩
    rfl
  · rintro _ r hr ⟨-, rfl⟩
    exact absurd (h.lt_size _ hr) (Nat.lt_irrefl _)

theorem attach (h : t.Rooted) {parent : Option Nat} (hn : n.ListsOnly t.size)
    (hp : ∀ p, parent = some p → p < t.size) : (t.attach n parent).1.Rooted := by
  cases parent with
  | none =>
    show (if _ then _ else _ : Tree × Nat).1.Rooted
    split
    · exact h.adopt_root hn
    · exact h.adopt hn hp
  | some p =>
    refine h.link (k := .child) hn (hp p rfl) rfl fun e k' j hj => ?_
    cases k' with
    | child => exact (List.mem_append.mp hj).imp_right fun h => ⟨rfl, List.mem_singleton.mp h⟩
    | slot | block => exact .inl hj

end Rooted

/-- Whatever the builder makes is linked, and its root stands under no element. -/
theorem Built.rooted (h : t.Built) : t.Rooted := by
  induction h with
  | empty => exact rooted_empty
  | ofRoot hn => exact rooted_empty.adopt_root hn
  | adopt _ hn hp ih => exact ih.adopt hn hp
  | leaf _ hn hp ih => exact ih.attach (.leaf hn) fun p hpp => Option.some.inj hpp ▸ hp
  | element _ hd hp ih => exact ih.attach (Draft.listsOnly_node hd (fun _ _ => rfl) _) hp
  | @branch t owner expression d _ hd ho ih =>
    refine ih.link (k := .block) (Draft.listsOnly_node hd (fun e k => ?_) _) ho rfl fun e k' j hj => ?_
    · split <;> cases k <;> rfl
    · cases k' with
      | block =>
        simp only [Element.listed, List.map_append, List.mem_append] at hj
        exact hj.imp_right fun h => ⟨rfl, List.mem_singleton.mp h⟩
      | child | slot => exact .inl hj
  | scopedSlot _ hd hh ih =>
    refine ih.link (k := .slot) (Draft.listsOnly_node hd (fun e k => ?_) _) hh rfl fun e k' j hj => ?_
    · cases k <;> rfl
    · cases k' with
      | slot => exact (Table.mem_values_put hj).imp_right fun h => ⟨rfl, h⟩
      | child | block => exact .inl hj
  | edit _ hf ih =>
    exact ih.modifyElement (fun _ _ => False) (fun e k j hj => (hf e k j hj).imp_right .inr)
      (fun _ _ => False.elim) (fun _ _ _ => False.elim) fun _ _ _ => id

end Tree

end TemplateCompiler
