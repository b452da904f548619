import Mathlib.Data.List.Perm.Subperm
import TemplateCompiler.Proofs.Tree.References

/-!
# Adding nodes to a tree

A node is added at the end of the arena, and only then listed by the element it belongs to. `Loader.Loaded`
says what is so of a tree after a node and all that belongs to it were added: the tree is linked, and what was
there before is as it was. The new node can be listed by an element before it (`Loaded.link`). Neither adding
nor listing harms the order of the arena (`Whole.adopt`, `Whole.modifyElement`).
-/

namespace TemplateCompiler

namespace Table

variable {κ α : Type} [DecidableEq κ] {key : κ} {value : α} {t : Table κ α}

theorem mem_values_put {x : α} (h : x ∈ (put key value t).map Prod.snd) :
    x ∈ t.map Prod.snd ∨ x = value := by
  obtain ⟨e, he, rfl⟩ := List.mem_map.mp h
  rcases mem_put he with he | rfl
  · exact .inl (List.mem_map_of_mem he)
  · exact .inr rfl

theorem put_of_not_mem_keys (h : key ∉ keys t) : put key value t = t ++ [(key, value)] := by
  induction t with
  | nil => rfl
  | cons e rest ih =>
    rw [keys, List.map_cons, List.mem_cons, not_or] at h
    rw [put, if_neg fun heq => h.1 heq.symm, ih h.2, List.cons_append]

/-- Writing lists the new value once more, and perhaps drops an old one. -/
theorem values_put_subperm : ((put key value t).map Prod.snd).Subperm (t.map Prod.snd ++ [value]) := by
  induction t with
  | nil => exact List.Subperm.refl _
  | cons e rest ih =>
    rw [put]
    split
    · refine List.Subperm.cons_right _ ?_
      exact (List.perm_append_singleton value (rest.map Prod.snd)).symm.subperm
    · exact (List.subperm_cons _).mpr ih

end Table

/-- A node that lists nothing, or itself as a block of its own chain. -/
def Node.ListsOnly (n : Node) (i : Nat) : Prop :=
  ∀ e, n.element? = some e → ∀ k j, j ∈ e.listed k → k = .block ∧ j = i

theorem Node.ListsOnly.of_empty {n : Node} {e : Element} (hn : n.element? = some e)
    (he : ∀ k, e.listed k = []) (i : Nat) : n.ListsOnly i := by
  intro e' he' k j hj
  obtain rfl : e = e' := Option.some.inj (hn.symm.trans he')
  rw [he k] at hj
  cases hj

theorem Node.ListsOnly.leaf {n : Node} {i : Nat} (hn : n.element? = none) : n.ListsOnly i :=
  fun _ he => nomatch hn.symm.trans he

namespace Loader

/-- Node `i` was added behind the nodes of `t`, with everything that belongs to it. -/
structure Loaded (t : Tree) (parent : Option Nat) (i : Nat) (t' : Tree) : Prop where
  linked : t'.Linked
  index : t.size = i
  lt_size : i < t'.size
  old : ∀ j < t.size, t'.node? j = t.node? j
  parent_eq : t'.parent? i = parent
  unlisted : t'.Unlisted i

theorem node?_adopt (t : Tree) (n : Node) (parent : Option Nat) (j : Nat) :
    (t.adopt n parent).1.node? j =
      if j = t.size then some { n with parent := parent } else t.node? j :=
  Array.getElem?_push

/-- Whether a node lists another is a matter of the node alone. -/
theorem lists_iff_of_node? {t u : Tree} {i : Nat} (h : u.node? i = t.node? i) (k : Link) (j : Nat) :
    u.Lists k i j ↔ t.Lists k i j := by
  unfold Tree.Lists Tree.element?
  rw [h]

/-- A new node that lists no other leaves the links as they were. -/
theorem lists_of_adopt {t : Tree} {n : Node} {p : Option Nat} (hn : n.ListsOnly t.size) {k : Link}
    {a j : Nat} (h : (t.adopt n p).1.Lists k a j) : t.Lists k a j := by
  have ha : a ≠ t.size := by
    rintro rfl
    obtain ⟨e, he, hj, hne⟩ := h
    rw [Tree.element?, node?_adopt, if_pos rfl] at he
    obtain ⟨rfl, rfl⟩ := hn e he k j hj
    exact hne rfl rfl
  exact (lists_iff_of_node? (by rw [node?_adopt, if_neg ha]) k j).mp h

theorem lists_modifyElement {t : Tree} {k : Link} {i j : Nat} {f : Element → Element} :
    (t.modifyElement i f).Lists k i j ↔
      ∃ e, t.element? i = some e ∧ j ∈ (f e).listed k ∧ (k = .block → j ≠ i) := by
  unfold Tree.Lists
  rw [Tree.element?_modifyElement, if_pos rfl]
  simp only [Option.map_eq_some_iff]
  constructor
  · rintro ⟨_, ⟨e, he, rfl⟩, hj⟩
    exact ⟨e, he, hj⟩
  · rintro ⟨e, he, hj⟩
    exact ⟨f e, ⟨e, he, rfl⟩, hj⟩

end Loader

namespace Tree

variable {t : Tree} {i : Nat} {g : Node → Node}

theorem parent?_modifyNode (hg : ∀ n, (g n).parent = n.parent) (j : Nat) :
    (t.modifyNode i g).parent? j = t.parent? j := by
  rw [parent?, node?_modifyNode, parent?]
  split
  · rcases t.node? j with _ | n
    · rfl
    · exact hg n
  · rfl

theorem lists_modifyNode {New : Link → Nat → Prop}
    (hl : ∀ k j, (t.modifyNode i g).Lists k i j → t.Lists k i j ∨ New k j) {k : Link} {a j : Nat}
    (h : (t.modifyNode i g).Lists k a j) : t.Lists k a j ∨ a = i ∧ New k j := by
  by_cases ha : a = i
  · subst ha
    exact (hl k j h).imp_right fun h => ⟨rfl, h⟩
  · refine .inl ((Loader.lists_iff_of_node? ?_ k j).mp h)
    rw [node?_modifyNode, if_neg fun h => ha h.symm]

/-- A node may change what it lists: it may drop nodes, and list nodes after it that were listed nowhere
and stand under the right element. -/
theorem Linked.modify (h : t.Linked) (hg : ∀ n, (g n).parent = n.parent) (New : Link → Nat → Prop)
    (hl : ∀ k j, (t.modifyNode i g).Lists k i j → t.Lists k i j ∨ New k j)
    (hnew : ∀ k j, New k j → t.Unlisted j ∧ i < j ∧ j < t.size ∧
      t.parent? j = if k = .block then t.parent? i else some i)
    (huniq : ∀ k k' j, New k j → New k' j → k = k') : (t.modifyNode i g).Linked where
  above hj := h.above (parent?_modifyNode hg _ ▸ hj)
  below {k a j} hkj := by
    rw [parent?_modifyNode hg, parent?_modifyNode hg, size_modifyNode]
    rcases lists_modifyNode hl hkj with hold | ⟨rfl, hn⟩
    · exact h.below hold
    · exact (hnew k j hn).2
  single hkj hkj' := by
    rcases lists_modifyNode hl hkj with hold | ⟨ha, hn⟩ <;>
    rcases lists_modifyNode hl hkj' with hold' | ⟨ha', hn'⟩
    · exact h.single hold hold'
    · exact absurd hold ((hnew _ _ hn').1 _ _)
    · exact absurd hold' ((hnew _ _ hn).1 _ _)
    · exact ⟨ha.trans ha'.symm, huniq _ _ _ hn hn'⟩

end Tree

namespace Loader

namespace Loaded

variable {t u u' : Tree} {p q : Option Nat} {i c : Nat}

theorem adopt (ht : t.Linked) (hp : ∀ a, p = some a → a < t.size) {n : Node}
    (hn : n.ListsOnly t.size) : Loaded t p t.size (t.adopt n p).1 := by
  have hold : ∀ j < t.size, (t.adopt n p).1.node? j = t.node? j := by
    intro j hj
    rw [node?_adopt, if_neg (by omega)]
  have hnew : (t.adopt n p).1.node? t.size = some { n with parent := p } := by
    rw [node?_adopt, if_pos rfl]
  have hsize : (t.adopt n p).1.size = t.size + 1 := Array.size_push ..
  have hparent : ∀ j < t.size, (t.adopt n p).1.parent? j = t.parent? j := by
    intro j hj
    rw [Tree.parent?, hold j hj, Tree.parent?]
  have hlists : ∀ {k a j}, (t.adopt n p).1.Lists k a j → t.Lists k a j := lists_of_adopt hn
  refine ⟨⟨fun {j a} hj => ?_, fun {k a j} hl => ?_, fun hl hl' => ?_⟩, rfl, by omega, hold, ?_, ?_⟩
  · by_cases hlt : j < t.size
    · exact ht.above (hparent j hlt ▸ hj)
    · obtain ⟨m, hm, hma⟩ := Option.bind_eq_some_iff.mp hj
      obtain rfl : j = t.size := by
        have hjlt : j < (t.adopt n p).1.size := (Array.getElem?_eq_some_iff.mp hm).1
        omega
      rw [hnew] at hm
      cases hm
      exact hp a hma
  · obtain ⟨haj, hj, hpar⟩ := ht.below (hlists hl)
    rw [hparent j hj, hparent a (by omega)]
    exact ⟨haj, by omega, hpar⟩
  · exact ht.single (hlists hl) (hlists hl')
  · rw [Tree.parent?, hnew]; rfl
  · intro k a hl
    have hlt := (ht.below (hlists hl)).2.1
    omega

theorem grows (h : Loaded t p i u) : t.size < u.size :=
  h.index ▸ h.lt_size

/-- Nodes that were listed nowhere still are: a node comes after the one that lists it, so that a new
node lists new ones only. -/
theorem unlisted_old (h : Loaded t p i u) {j : Nat} (hj : j < t.size) (hu : t.Unlisted j) :
    u.Unlisted j := by
  intro k a hl
  have haj : a < j := (h.linked.below hl).1
  exact hu k a ((lists_iff_of_node? (h.old a (by omega)) k j).mp hl)

theorem trans (h : Loaded t p i u) (h' : Loaded u q c u') : Loaded t p i u' where
  linked := h'.linked
  index := h.index
  lt_size := Nat.lt_trans h.lt_size h'.grows
  old j hj := by rw [h'.old j (Nat.lt_trans hj h.grows), h.old j hj]
  parent_eq := by rw [Tree.parent?, h'.old i h.lt_size, ← Tree.parent?, h.parent_eq]
  unlisted := h'.unlisted_old h.lt_size h.unlisted

/-- The new node may change what it lists, within the rules of `Linked.modify`. -/
theorem modify (h : Loaded t p i u) {g : Node → Node} (hg : ∀ n, (g n).parent = n.parent)
    (New : Link → Nat → Prop)
    (hl : ∀ k j, (u.modifyNode i g).Lists k i j → u.Lists k i j ∨ New k j)
    (hnew : ∀ k j, New k j → u.Unlisted j ∧ i < j ∧ j < u.size ∧
      u.parent? j = if k = .block then u.parent? i else some i)
    (huniq : ∀ k k' j, New k j → New k' j → k = k') : Loaded t p i (u.modifyNode i g) where
  linked := h.linked.modify hg New hl hnew huniq
  index := h.index
  lt_size := by rw [Tree.size_modifyNode]; exact h.lt_size
  old j hj := by
    have := h.index
    rw [Tree.node?_modifyNode, if_neg (by omega), h.old j hj]
  parent_eq := by rw [Tree.parent?_modifyNode hg, h.parent_eq]
  unlisted k a hka := by
    rcases Tree.lists_modifyNode hl hka with hold | ⟨-, hn⟩
    · exact h.unlisted k a hold
    · have := (hnew k i hn).2.1
      omega

/-- Listing the node that was loaded last. -/
theorem link (h : Loaded t p i u) (hc : Loaded u q c u') {k : Link}
    (hq : q = if k = .block then p else some i) {f : Element → Element}
    (hf : ∀ e k' j, j ∈ (f e).listed k' → j ∈ e.listed k' ∨ k' = k ∧ j = c) :
    Loaded t p i (u'.modifyElement i f) := by
  have hi := h.trans hc
  refine hi.modify (fun n => n.parent_mapElement f) (fun k' j => k' = k ∧ j = c) ?_ ?_ ?_
  · intro k' j hj
    obtain ⟨e, he, hj, hne⟩ := lists_modifyElement.mp hj
    exact (hf e k' j hj).imp_left fun hj => ⟨e, he, hj, hne⟩
  · rintro _ _ ⟨rfl, rfl⟩
    have hlt : i < u.size := h.lt_size
    rw [hc.index] at hlt
    exact ⟨hc.unlisted, hlt, hc.lt_size, by rw [hc.parent_eq, hi.parent_eq, hq]⟩
  · rintro _ _ _ ⟨rfl, -⟩ ⟨rfl, -⟩
    rfl

/-- Changes that list no more than before, apart from the element itself as a block. -/
theorem keep (h : Loaded t p i u) {f : Element → Element}
    (hf : ∀ e k j, j ∈ (f e).listed k → j ∈ e.listed k ∨ k = .block ∧ j = i) :
    Loaded t p i (u.modifyElement i f) := by
  refine h.modify (fun n => n.parent_mapElement f) (fun _ _ => False) ?_ nofun nofun
  intro k j hj
  obtain ⟨e, he, hj, hne⟩ := lists_modifyElement.mp hj
  rcases hf e k j hj with hj | ⟨hk, rfl⟩
  · exact .inl ⟨e, he, hj, hne⟩
  · exact absurd rfl (hne hk)

end Loaded

end Loader

/-! ## Arenas in good order -/

namespace Tree

variable {t : Tree} {i : Nat} {f : Element → Element}

theorem isSome_element?_modifyElement (t : Tree) (i : Nat) (f : Element → Element) (j : Nat) :
    ((t.modifyElement i f).element? j).isSome = (t.element? j).isSome := by
  rw [element?_modifyElement]
  split
  · exact Option.isSome_map
  · rfl

/-- An element that keeps what it lists keeps every link of the tree. -/
theorem Lists.modifyElement {k : Link} {a j : Nat} (h : t.Lists k a j)
    (hf : ∀ e, t.element? i = some e → ∀ k, e.listed k ⊆ (f e).listed k) :
    (t.modifyElement i f).Lists k a j := by
  obtain ⟨e, he, hj, hne⟩ := h
  by_cases ha : i = a
  · subst ha
    exact Loader.lists_modifyElement.mpr ⟨e, he, hf e he k hj, hne⟩
  · exact ⟨e, by rw [element?_modifyElement, if_neg ha, he], hj, hne⟩

namespace Whole

theorem adopt (h : t.Whole) {n : Node} {p : Option Nat} (hp : ∀ a, p = some a → (t.element? a).isSome)
    (hn : n.ListsOnly t.size) : (t.adopt n p).1.Whole := by
  have hold : ∀ j, j ≠ t.size → (t.adopt n p).1.node? j = t.node? j := by
    intro j hj
    rw [Loader.node?_adopt, if_neg hj]
  have helement : ∀ a, (t.element? a).isSome → ((t.adopt n p).1.element? a).isSome := by
    intro a ha
    obtain ⟨e, he⟩ := Option.isSome_iff_exists.mp ha
    rwa [element?, hold a (Nat.ne_of_lt (lt_size_of_element? he)), ← element?]
  refine ⟨fun {j a} hj => helement a ?_, fun a k => ?_⟩
  · by_cases hjs : j = t.size
    · rw [hjs, parent?, Loader.node?_adopt, if_pos rfl] at hj
      exact hp a hj
    · rw [parent?, hold j hjs, ← parent?] at hj
      exact h.parents hj
  · by_cases ha : a = t.size
    · have hnil : (t.adopt n p).1.links a k = [] := by
        refine List.eq_nil_iff_forall_not_mem.mpr fun j hj => ?_
        obtain ⟨e, he, -⟩ := Loader.lists_of_adopt hn (mem_links.mp hj)
        exact absurd (lt_size_of_element? he) (by omega)
      rw [hnil]
      exact List.nodup_nil
    · rw [links, element?, hold a ha]
      exact h.nodup a k

/-- An element may come to list nodes of `new` that were listed nowhere. -/
theorem modifyElement (h : t.Whole) {k : Link} {new : List Nat} (hnew : new.Nodup)
    (hun : ∀ c ∈ new, t.Unlisted c)
    (hf : ∀ e k', ((f e).listed k').Subperm (e.listed k' ++ if k' = k then new else [])) :
    (t.modifyElement i f).Whole := by
  refine ⟨fun {j a} hj => ?_, fun a k' => ?_⟩
  · rw [isSome_element?_modifyElement]
    rw [parent?_modifyElement] at hj
    exact h.parents hj
  · have hold := h.nodup a k'
    unfold links at hold ⊢
    rw [element?_modifyElement]
    split
    · rename_i hia
      subst hia
      rcases he : t.element? i with _ | e
      · exact List.nodup_nil
      rw [he] at hold
      refine List.nodup_iff_count_le_one.mpr fun j => ?_
      refine Nat.le_trans (((hf e k').filter _).count_le j) (List.nodup_iff_count_le_one.mp ?_ j)
      rw [List.filter_append]
      refine List.nodup_append'.mpr ⟨hold, .filter _ ?_, fun c hc hc' => ?_⟩
      · split
        exacts [hnew, List.nodup_nil]
      · have hmem : c ∈ new := by
          have := List.mem_of_mem_filter hc'
          split at this
          exacts [this, nomatch this]
        refine hun c hmem k' i (mem_links.mp ?_)
        rw [links, he]
        exact hc
    · exact hold

end Whole

end Tree

end TemplateCompiler
