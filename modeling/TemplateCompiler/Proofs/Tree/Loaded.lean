import TemplateCompiler.Proofs.Tree.Adding
import TemplateCompiler.Proofs.Tree.Reading

/-!
# Loaded trees

Loading adds a node and all that belongs to it, and keeps the arena in order (`Complete`). While an element is
being made (`Making`), its children, slot definitions and blocks are loaded one after another, and each is
listed as soon as it is there (`loads_loadNode`). A loaded tree is linked, and its root is listed nowhere and
stands under nothing (`linked_load`). If no object of the data has two members of one name, then every other
node is listed exactly once (`count_references_load`).
-/

namespace TemplateCompiler

namespace Loader

/-- Node `i` was added, and the tree is in good order. If `D` holds, then all that came with the node is
listed. -/
structure Complete (D : Prop) (t : Tree) (parent : Option Nat) (i : Nat) (t' : Tree) : Prop
    extends Loaded t parent i t' where
  whole : t'.Whole
  elements : ∀ {k a j}, k ≠ .child → t'.Lists k a j → (t'.element? j).isSome
  covered : D → ∀ j, i < j → j < t'.size → ∃ k a, t'.Lists k a j

/-- What loading starts from. -/
structure Orderly (t : Tree) : Prop where
  linked : t.Linked
  whole : t.Whole
  elements : ∀ {k a j}, k ≠ .child → t.Lists k a j → (t.element? j).isSome

namespace Complete

variable {D D' : Prop} {t u u' : Tree} {p q : Option Nat} {i c : Nat}

theorem orderly (h : Complete D t p i u) : Orderly u :=
  ⟨h.linked, h.whole, h.elements⟩

theorem adopt (ht : Orderly t) (hp : ∀ a, p = some a → (t.element? a).isSome) {n : Node}
    (hn : n.ListsOnly t.size) : Complete D t p t.size (t.adopt n p).1 := by
  have hlt : ∀ a, p = some a → a < t.size := by
    intro a ha
    obtain ⟨e, he⟩ := Option.isSome_iff_exists.mp (hp a ha)
    exact Tree.lt_size_of_element? he
  have hnew := Loaded.adopt ht.linked hlt hn
  refine ⟨hnew, ht.whole.adopt hp hn, fun {k a j} hk hl => ?_, fun _ j hj hjs => ?_⟩
  · have hold : t.Lists k a j := lists_of_adopt hn hl
    rw [Tree.element?, hnew.old j (ht.linked.below hold).2.1]
    exact ht.elements hk hold
  · have hsize : (t.adopt n p).1.size = t.size + 1 := Array.size_push ..
    omega

/-- Elements that were there still are. -/
theorem isSome_element? (h : Complete D t p i u) {a : Nat} (ha : (t.element? a).isSome) :
    (u.element? a).isSome := by
  obtain ⟨e, he⟩ := Option.isSome_iff_exists.mp ha
  rw [Tree.element?, h.old a (Tree.lt_size_of_element? he)]
  exact ha

/-- Listing the node that was loaded last. -/
theorem link (h : Complete D t p i u) (hc : Complete D' u q c u') (hD : D → D') {k : Link}
    (hk : k ≠ .child → (u'.element? c).isSome) (hq : q = if k = .block then p else some i)
    {f : Element → Element}
    (hf : ∀ e k', ((f e).listed k').Subperm (e.listed k' ++ if k' = k then [c] else []))
    (hcov : D → ∀ e, u'.element? i = some e →
      ∀ k', e.listed k' ++ (if k' = k then [c] else []) ⊆ (f e).listed k')
    (hi : (u.element? i).isSome) : Complete D t p i (u'.modifyElement i f) := by
  have hmem (e : Element) (k' : Link) (j : Nat) (hj : j ∈ (f e).listed k') :
      j ∈ e.listed k' ∨ k' = k ∧ j = c := by
    refine (List.mem_append.mp ((hf e k').subset hj)).imp_right fun hj => ?_
    split at hj
    · exact ⟨‹_›, List.mem_singleton.mp hj⟩
    · cases hj
  refine ⟨h.toLoaded.link hc.toLoaded hq hmem, ?_, fun {k' a j} hk' hl => ?_, fun hd j hj hjs => ?_⟩
  · refine hc.whole.modifyElement (k := k) (List.nodup_singleton c) (fun j hj => ?_) hf
    exact List.mem_singleton.mp hj ▸ hc.unlisted
  · rw [Tree.isSome_element?_modifyElement]
    by_cases hold : u'.Lists k' a j
    · exact hc.elements hk' hold
    · obtain ⟨e, he, hje, hne⟩ := hl
      rw [Tree.element?_modifyElement] at he
      split at he
      · subst a
        obtain ⟨e, he', rfl⟩ := Option.map_eq_some_iff.mp he
        rcases hmem e k' j hje with hje | ⟨rfl, rfl⟩
        · exact absurd ⟨e, he', hje, hne⟩ hold
        · exact hk hk'
      · exact absurd ⟨e, he, hje, hne⟩ hold
  · rw [Tree.size_modifyElement] at hjs
    have hkeep (e : Element) (he : u'.element? i = some e) (k' : Link) : e.listed k' ⊆ (f e).listed k' :=
      fun _ hj => hcov hd e he k' (List.mem_append_left _ hj)
    -- The node is older than `c`, or `c` itself, or came with it.
    rcases Nat.lt_trichotomy j c with hlt | rfl | hgt
    · obtain ⟨k', a, hl⟩ := h.covered hd j hj (hc.index ▸ hlt)
      have hl' := (lists_iff_of_node? (hc.old a hl.lt_size) k' j).mpr hl
      exact ⟨k', a, hl'.modifyElement hkeep⟩
    · obtain ⟨e, he⟩ := Option.isSome_iff_exists.mp (hc.isSome_element? hi)
      refine ⟨k, i, lists_modifyElement.mpr ⟨e, he, hcov hd e he k ?_, fun _ => Nat.ne_of_gt hj⟩⟩
      rw [if_pos rfl]
      exact List.mem_append_right _ (List.mem_singleton_self _)
    · obtain ⟨k', a, hl⟩ := hc.covered (hD hd) j hgt hjs
      exact ⟨k', a, hl.modifyElement hkeep⟩

/-- Changes that list what was listed before, apart from the element itself as a block. -/
theorem keep (h : Complete D t p i u) {f : Element → Element}
    (hf : ∀ e k, (f e).listed k = e.listed k ∨ k = .block ∧ (f e).listed k = e.listed k ++ [i]) :
    Complete D t p i (u.modifyElement i f) := by
  have hlinks (a : Nat) (k : Link) : (u.modifyElement i f).links a k = u.links a k := by
    unfold Tree.links
    rw [Tree.element?_modifyElement]
    split
    · rename_i hia
      subst hia
      rcases u.element? i with _ | e
      · rfl
      · rcases hf e k with he | ⟨rfl, he⟩ <;> simp [he]
    · rfl
  have hlists {k : Link} {a j : Nat} : (u.modifyElement i f).Lists k a j ↔ u.Lists k a j := by
    rw [← Tree.mem_links, hlinks, Tree.mem_links]
  refine ⟨h.toLoaded.keep fun e k j hj => ?_, ⟨fun {j a} hj => ?_, fun a k => ?_⟩, fun {k a j} hk hl => ?_, ?_⟩
  · rcases hf e k with he | ⟨hk, he⟩
    · exact .inl (he ▸ hj)
    · exact (List.mem_append.mp (he ▸ hj)).imp_right fun hj => ⟨hk, List.mem_singleton.mp hj⟩
  · rw [Tree.isSome_element?_modifyElement]
    exact h.whole.parents (Tree.parent?_modifyElement .. ▸ hj)
  · exact hlinks a k ▸ h.whole.nodup a k
  · rw [Tree.isSome_element?_modifyElement]
    exact h.elements hk (hlists.mp hl)
  · intro hd j hj hjs
    obtain ⟨k, a, hl⟩ := h.covered hd j hj (Tree.size_modifyElement .. ▸ hjs)
    exact ⟨k, a, hlists.mpr hl⟩

end Complete

/-- Element `i` is being made: it is there, and none of its slots has a name from `free`. -/
structure Making (D : Prop) (t : Tree) (p : Option Nat) (i : Nat) (free : List String) (u : Tree) : Prop
    extends Complete D t p i u where
  element : (u.element? i).isSome
  unused : D → ∀ e, u.element? i = some e → ∀ name ∈ free, .string name ∉ Table.keys e.scopedSlots

namespace Making

variable {D D' : Prop} {t u u' : Tree} {p q : Option Nat} {i c : Nat} {free free' : List String}

theorem adopt (ht : Orderly t) (hp : ∀ a, p = some a → (t.element? a).isSome) {n : Node} {e : Element}
    (hn : n.element? = some e) (he : ∀ k, e.listed k = []) (free : List String) :
    Making D t p t.size free (t.adopt n p).1 := by
  have hat : (t.adopt n p).1.element? t.size = some e := by
    rw [Tree.element?, node?_adopt, if_pos rfl]
    exact hn
  refine ⟨.adopt ht hp (.of_empty hn he _), by rw [hat]; rfl, fun _ e' he' name _ hname => ?_⟩
  obtain rfl : e = e' := Option.some.inj (hat.symm.trans he')
  have hnone : e.scopedSlots = [] := List.map_eq_nil_iff.mp (he .slot)
  rw [hnone] at hname
  cases hname

theorem link (h : Making D t p i free u) (hc : Complete D' u q c u') (hD : D → D') {k : Link}
    (hk : k ≠ .child → (u'.element? c).isSome) (hq : q = if k = .block then p else some i)
    {f : Element → Element}
    (hf : ∀ e k', ((f e).listed k').Subperm (e.listed k' ++ if k' = k then [c] else []))
    (hcov : D → ∀ e, u.element? i = some e →
      ∀ k', e.listed k' ++ (if k' = k then [c] else []) ⊆ (f e).listed k')
    (hfree : D → ∀ e, u.element? i = some e →
      ∀ name ∈ free', .string name ∉ Table.keys (f e).scopedSlots) :
    Making D t p i free' (u'.modifyElement i f) := by
  have hold : u'.element? i = u.element? i := by
    rw [Tree.element?, hc.old i h.lt_size, ← Tree.element?]
  refine ⟨h.toComplete.link hc hD hk hq hf (hold ▸ hcov) h.element, ?_, fun hd e he => ?_⟩
  · rw [Tree.isSome_element?_modifyElement, hold]
    exact h.element
  · rw [Tree.element?_modifyElement, if_pos rfl, hold] at he
    obtain ⟨e, he', rfl⟩ := Option.map_eq_some_iff.mp he
    exact hfree hd e he'

/-- Listing the node that was loaded last behind all others. -/
theorem append (h : Making D t p i free u) (hc : Complete D' u q c u') (hD : D → D') {k : Link}
    (hk : k ≠ .child → (u'.element? c).isSome) (hq : q = if k = .block then p else some i)
    {f : Element → Element}
    (hf : ∀ e k', (f e).listed k' = e.listed k' ++ if k' = k then [c] else [])
    (hslots : ∀ e, (f e).scopedSlots = e.scopedSlots) :
    Making D t p i free (u'.modifyElement i f) := by
  refine h.link hc hD hk hq (fun e k' => ?_) (fun _ e _ k' => ?_) fun hd e he => ?_
  · exact hf e k' ▸ List.Subperm.refl _
  · exact hf e k' ▸ List.Subset.refl _
  · rw [hslots]
    exact h.unused hd e he

theorem keep (h : Making D t p i free u) {f : Element → Element}
    (hf : ∀ e k, (f e).listed k = e.listed k ∨ k = .block ∧ (f e).listed k = e.listed k ++ [i])
    (hslots : ∀ e, (f e).scopedSlots = e.scopedSlots) :
    Making D t p i free (u.modifyElement i f) := by
  refine ⟨h.toComplete.keep hf, ?_, fun hd e he => ?_⟩
  · rw [Tree.isSome_element?_modifyElement]
    exact h.element
  · rw [Tree.element?_modifyElement, if_pos rfl] at he
    obtain ⟨e, he', rfl⟩ := Option.map_eq_some_iff.mp he
    rw [hslots]
    exact h.unused hd e he'

/-- Putting the node that was loaded last under a free name. No slot has that name yet, so that it goes to the
end. -/
theorem put {name : String} (h : Making D t p i (name :: free) u) (hc : Complete D' u (some i) c u')
    (hD : D → D') (helement : (u'.element? c).isSome) (hname : D → name ∉ free) :
    Making D t p i free
      (u'.modifyElement i fun e => { e with scopedSlots := Table.put (.string name) c e.scopedSlots }) := by
  have hput (hd : D) (e : Element) (he : u.element? i = some e) :
      Table.put (.string name) c e.scopedSlots = e.scopedSlots ++ [(.string name, c)] :=
    Table.put_of_not_mem_keys (h.unused hd e he name (List.mem_cons_self ..))
  refine h.link hc hD (k := .slot) (fun _ => helement) rfl (fun e k' => ?_) (fun hd e he k' => ?_)
    fun hd e he other hother => ?_
  · cases k' with
    | slot => exact Table.values_put_subperm
    | child | block => exact (List.append_nil _).symm ▸ List.Subperm.refl _
  · cases k' with
    | slot =>
      simp only [Element.listed, hput hd e he, List.map_append]
      exact List.Subset.refl _
    | child | block => exact (List.append_nil _).symm ▸ List.Subset.refl _
  · have hne : other ≠ name := fun heq => hname hd (heq ▸ hother)
    have hold := h.unused hd e he other (List.mem_cons_of_mem _ hother)
    simp only [hput hd e he, Table.keys, List.map_append, List.mem_append, not_or]
    exact ⟨hold, by simpa using hne⟩

end Making

/-! ## Loading -/

theorem ensures_edit {P : Tree → Prop} {Q : Unit → Tree → Prop} {i : Nat} {f : Element → Element}
    (h : ∀ t, P t → Q () (t.modifyElement i f)) : Ensures P (edit i f) Q :=
  .modify fun s hs => h s.tree hs

theorem ensures_adopt {P : Tree → Prop} {Q : Nat → Tree → Prop} {n : Node} {parent : Option Nat}
    (h : ∀ t, P t → Q t.size (t.adopt n parent).1) : Ensures P (adopt n parent) Q := by
  intro s hs a s' ha
  cases ha
  exact h s.tree hs

/-- What loading a node ensures, wherever it starts. -/
def Loads (self : Json → Option Nat → Path → LoadM Nat) : Prop :=
  ∀ v parent path t, Orderly t → (∀ a, parent = some a → (t.element? a).isSome) →
    Ensures (fun t' => t' = t) (self v parent path) fun c t' => Complete (v.distinct = true) t parent c t'

section Below

variable {self : Json → Option Nat → Path → LoadM Nat} {D : Prop} {t : Tree} {p : Option Nat} {i : Nat}
  {free : List String}

/-- Loading a node while element `i` is being made. -/
theorem Loads.below (hself : Loads self) (hp : ∀ a, p = some a → (t.element? a).isSome) (v : Json)
    {q : Option Nat} (path : Path) (hq : ∀ a, q = some a → a = i ∨ p = some a) :
    Ensures (Making D t p i free) (self v q path) fun c t' =>
      ∃ u, Making D t p i free u ∧ Complete (v.distinct = true) u q c t' := by
  intro s hs c s' hc
  refine ⟨s.tree, hs, hself v q path s.tree hs.orderly (fun a ha => ?_) s rfl c s' hc⟩
  rcases hq a ha with rfl | ha
  · exact hs.element
  · exact hs.isSome_element? (hp a ha)

variable {v : Json} {path : Path}

theorem ensures_loadChildren (hself : Loads self) (hp : ∀ a, p = some a → (t.element? a).isSome)
    (hD : D → v.distinct = true) :
    Ensures (Making D t p i free) (loadChildren self v path i) fun _ => Making D t p i free := by
  have hparts : Ensures (Making D t p i free) (partsAt v "children") fun parts t' =>
      Making D t p i free t' ∧ ∀ x ∈ parts, D → x.distinct = true := by
    unfold partsAt
    split
    · rename_i list hlist
      refine (ensures_partsOf _ list).mono fun parts t' ht' => ⟨ht'.1, fun x hx hd => ?_⟩
      exact Json.distinct_of_mem_parts (Json.distinct_of_get? (hD hd) hlist) ht'.2 hx
    · exact .pure fun t' ht' => ⟨ht', nofun⟩
  refine hparts.bind fun parts => .given fun hdistinct => .forM_mem fun child hchild => ?_
  refine .bind (hself.below hp child.1 _ fun a ha => .inl (Option.some.inj ha).symm) fun c => ?_
  refine ensures_edit fun u' ⟨u, hu, hc⟩ => hu.append hc ?_ (k := .child) nofun rfl (fun e k' => ?_) ?_
  · exact hdistinct child.1 (List.fst_mem_of_mem_zipIdx hchild)
  · cases k' <;> simp [Element.listed]
  · exact fun _ => rfl

/-- The members under one key of an object without repeated keys have names of their own. -/
theorem ensures_membersAt {P : Tree → Prop} (hD : D → v.distinct = true) (key : String) :
    Ensures P (membersAt v key) fun members u =>
      P u ∧ (D → (members.map Prod.fst).Nodup ∧ ∀ m ∈ members, m.2.distinct = true) := by
  unfold membersAt membersOf
  split
  · split
    · rename_i members hv
      refine .pure fun u hu => ⟨hu, fun hd => ?_⟩
      have hdistinct : (Json.object members).distinct = true := by
        unfold valueAt at hv
        rcases hget : v.get? key with _ | x
        · rw [hget] at hv; cases hv
        · rw [hget] at hv
          exact hv ▸ Json.distinct_of_get? (hD hd) hget
      obtain ⟨hnodup, hall⟩ := Json.distinct_object.mp hdistinct
      exact ⟨hnodup, fun m hm => Json.distinct_of_mem_members hall hm⟩
    · exact .throw
  · exact .pure fun u hu => ⟨hu, fun _ => ⟨List.nodup_nil, nofun⟩⟩

theorem ensures_loadSlots (hself : Loads self) (hp : ∀ a, p = some a → (t.element? a).isSome)
    (hD : D → v.distinct = true) :
    Ensures (fun u => ∀ free, Making D t p i free u) (loadSlots self v path i) fun _ =>
      Making D t p i [] := by
  -- The names of the members that are still to come are free.
  let I (rest : List (String × Json)) (u : Tree) : Prop :=
    Making D t p i (rest.map Prod.fst) u ∧ (D → (rest.map Prod.fst).Nodup ∧ ∀ m ∈ rest, m.2.distinct = true)
  have hmembers : Ensures (fun u => ∀ free, Making D t p i free u) (membersAt v "scopedSlots") I :=
    (ensures_membersAt hD _).mono fun members u hu => ⟨hu.1 _, hu.2⟩
  refine hmembers.bind fun members => ?_
  refine .mono (.forM (I := I) fun ⟨name, slot⟩ rest => .given fun hrest => ?_) fun _ u hu => hu.1
  refine .bind (hself.below hp slot _ fun a ha => .inl (Option.some.inj ha).symm) fun c => ?_
  refine .bind (ensures_needElement _ c _ _) fun _ => ensures_edit fun u' ⟨⟨u, hu, hc⟩, helement⟩ => ?_
  refine ⟨hu.put hc (fun hd => (hrest hd).2 (name, slot) (List.mem_cons_self ..)) helement fun hd => ?_, fun hd => ?_⟩
  · exact (List.nodup_cons.mp (hrest hd).1).1
  · obtain ⟨hnodup, hall⟩ := hrest hd
    exact ⟨(List.nodup_cons.mp hnodup).2, fun m hm => hall m (List.mem_cons_of_mem _ hm)⟩

/-- A block that is written stands beside the element; else the element is its own block. -/
theorem ensures_loadBlock (hself : Loads self) (hp : ∀ a, p = some a → (t.element? a).isSome)
    (hD : D → v.distinct = true) (k : Nat) :
    Ensures (Making D t p i free) (loadBlock self v p path k i) fun b u' =>
      (∃ D' u, Making D t p i free u ∧ Complete D' u p b u' ∧ (D → D') ∧ (u'.element? b).isSome) ∨
        Making D t p i free u' ∧ b = i := by
  unfold loadBlock
  split
  · rename_i block hblock
    refine .bind (hself.below hp block _ fun a ha => .inr ha) fun b => ?_
    refine .bind (ensures_needElement _ b _ _) fun _ => .pure fun u' ⟨⟨u, hu, hb⟩, helement⟩ => .inl ?_
    exact ⟨_, u, hu, hb, fun hd => Json.distinct_of_given? (hD hd) hblock, helement⟩
  · exact .pure fun u' hu' => .inr ⟨hu', rfl⟩

theorem ensures_loadConditions (hself : Loads self) (hp : ∀ a, p = some a → (t.element? a).isSome)
    (hD : D → v.distinct = true) :
    Ensures (Making D t p i free) (loadConditions self v p path i) fun _ => Making D t p i free := by
  unfold loadConditions
  split
  · rename_i list hlist
    refine .bind (ensures_partsOf _ list) fun parts => .given fun hparts => ?_
    refine .forM_mem fun condition hcondition => .bind (quiet_membersOf _ _) fun _ => ?_
    have hdistinct (hd : D) : condition.1.distinct = true :=
      Json.distinct_of_mem_parts (Json.distinct_of_given? (hD hd) hlist) hparts
        (List.fst_mem_of_mem_zipIdx hcondition)
    refine .bind (ensures_loadBlock hself hp hdistinct _) fun b => ensures_edit fun u' hu' => ?_
    rcases hu' with ⟨D', u, hu, hb, hD', helement⟩ | ⟨hu, rfl⟩
    · refine hu.append hb hD' (k := .block) (fun _ => helement) rfl (fun e k' => ?_) fun _ => rfl
      cases k' <;> simp [Element.listed]
    · refine hu.keep (fun e k' => ?_) fun _ => rfl
      cases k' <;> simp [Element.listed]
  · refine ensures_edit fun u' hu' => hu'.keep (fun e k' => ?_) fun e => ?_
    · unfold Element.seedConditions
      split
      · rename_i hseed
        have hnone : e.conditions = [] := by
          rw [Bool.and_eq_true, List.isEmpty_iff] at hseed
          exact hseed.2
        cases k' <;> simp [Element.listed, hnone]
      · exact .inl rfl
    · unfold Element.seedConditions
      split <;> rfl

/-- The element of a node that was just added may be written anew. -/
theorem modifyNode_adopt (t : Tree) (n : Node) (parent : Option Nat) {g : Node → Node}
    (hg : { g { n with parent := parent } with parent := parent } = g { n with parent := parent }) :
    (t.adopt n parent).1.modifyNode t.size g = (t.adopt (g { n with parent := parent }) parent).1 := by
  refine Tree.ext_node? rfl fun j => ?_
  rw [Tree.node?_modifyNode, node?_adopt, node?_adopt]
  by_cases hj : j = t.size
  · rw [if_pos hj.symm, if_pos hj, if_pos hj, hg]
    rfl
  · rw [if_neg fun h => hj h.symm, if_neg hj, if_neg hj]

theorem loads_loadElement (hself : Loads self) : Loads (loadElement self) := by
  intro v parent path t ht hp
  refine .bind (ensures_shell _ _ _) fun e => ?_
  refine .bind (R := fun i t' => i = t.size ∧ t' = (t.adopt { span := spanOf v, content := .element e } parent).1
    ∧ ∀ k, e.listed k = []) (ensures_adopt fun t' ⟨ht', he⟩ => ?_) fun i => ?_
  · exact ⟨congrArg Tree.size ht', ht' ▸ rfl, he⟩
  refine .bind (ensures_bindings _ _ _ _) fun e' => ?_
  refine .bind (R := fun _ u => ∀ free, Making (v.distinct = true) t parent i free u)
    (.modify fun s hs free => ?_) fun _ => ?_
  · obtain ⟨⟨rfl, hs, he⟩, he'⟩ := hs
    rw [hs]
    dsimp only
    rw [modifyNode_adopt t _ parent rfl]
    exact .adopt ht hp rfl (fun k => (he' k).trans (he k)) free
  refine .bind (R := fun _ => Making (v.distinct = true) t parent i []) ?_ fun _ =>
    .pure fun _ h => h.toComplete
  refine .bind (R := fun _ u => ∀ free, Making (v.distinct = true) t parent i free u) ?_ fun _ => ?_
  · exact fun s hs a s' ha free => ensures_loadChildren hself hp id s (hs free) a s' ha
  exact .bind (ensures_loadSlots hself hp id) fun _ => ensures_loadConditions hself hp id

end Below

theorem loads_loadNode (fuel : Nat) : Loads (loadNode fuel) := by
  induction fuel with
  | zero => exact fun _ _ _ _ _ _ => .throw
  | succ fuel ih =>
    intro v parent path t ht hp
    unfold loadNode
    split
    case h_2 => exact .throw
    dsimp only
    split
    · refine .bind (quiet_require _ _ _ _) fun code => ensures_adopt fun t' ht' => ?_
      subst ht'
      exact .adopt ht hp fun _ he => nomatch he
    split
    · refine .bind (quiet_require _ _ _ _) fun text => ensures_adopt fun t' ht' => ?_
      subst ht'
      refine .adopt ht hp fun e he => ?_
      split at he <;> cases he
    split
    · exact loads_loadElement ih _ parent path t ht hp
    split
    · exact .throw
    · exact .throw

end Loader

theorem Tree.linked_empty : ({} : Tree).Linked where
  above h := nomatch h
  below := fun ⟨_, he, _⟩ => nomatch he
  single := fun ⟨_, he, _⟩ => nomatch he

theorem Loader.orderly_empty : Orderly {} where
  linked := Tree.linked_empty
  whole := ⟨fun h => (nomatch h), fun _ _ => List.nodup_nil⟩
  elements _ := fun ⟨_, he, _⟩ => nomatch he

/-- A tree is loaded from its root on, or empty. -/
theorem Tree.complete_load {v : Json} {t : Tree} (h : (Tree.load v).1 = .ok t) :
    t = {} ∨ ∃ u, Loader.Complete (v.distinct = true) {} none 0 u ∧ (u.element? 0).isSome ∧
      t = { u with root := some 0 } := by
  unfold Tree.load at h
  split at h
  · cases h
    exact .inl rfl
  · have hroot : Loader.Ensures (fun t => t = {}) (Loader.loadRoot v) fun _ t =>
        ∃ u, Loader.Complete (v.distinct = true) {} none 0 u ∧ (u.element? 0).isSome ∧
          t = { u with root := some 0 } := by
      refine .bind (Loader.loads_loadNode _ v none [] {} Loader.orderly_empty nofun) fun root => ?_
      refine .bind (Loader.ensures_needElement _ root _ _) fun _ => ?_
      refine .bind (R := fun _ t => ∃ u, Loader.Complete (v.distinct = true) {} none 0 u ∧
        (u.element? 0).isSome ∧ t = { u with root := some 0 }) (.modify fun s ⟨hs, helement⟩ => ?_) fun _ => ?_
      · obtain rfl : 0 = root := hs.index
        exact ⟨s.tree, hs, helement, rfl⟩
      · exact .bind (Loader.Quiet.get _) fun s => Loader.quiet_record _ _
    rcases hrun : (Loader.loadRoot v).run.run {} with ⟨_ | _, s⟩
    · rw [hrun] at h; cases h
    · rw [hrun] at h
      cases h
      exact .inr (hroot {} rfl _ s hrun)

/-- A loaded tree is linked, and its root belongs to no element. -/
theorem Tree.linked_load {v : Json} {t : Tree} (h : (Tree.load v).1 = .ok t) :
    t.Linked ∧ ∀ r, t.root = some r → t.Unlisted r ∧ t.parent? r = none := by
  rcases complete_load h with rfl | ⟨u, hu, -, rfl⟩
  · exact ⟨linked_empty, nofun⟩
  · refine ⟨⟨hu.linked.above, hu.linked.below, hu.linked.single⟩, fun r hr => ?_⟩
    cases hr
    exact ⟨hu.unlisted, hu.parent_eq⟩

theorem Tree.wellFormed_load {v : Json} {t : Tree} (h : (Tree.load v).1 = .ok t) : t.WellFormed := by
  rcases complete_load h with rfl | ⟨u, hu, -, rfl⟩
  · exact linked_empty.wellFormed Loader.orderly_empty.whole
  · have hwf : u.WellFormed := hu.linked.wellFormed hu.whole
    exact ⟨hwf.above, hwf.inside, hwf.under, hwf.beside, hwf.single⟩

/-- Slot definitions and blocks are elements. -/
theorem Tree.elements_load {v : Json} {t : Tree} (h : (Tree.load v).1 = .ok t) {k : Link} {i j : Nat}
    (hk : k ≠ .child) (hl : t.Lists k i j) : (t.element? j).isSome := by
  rcases complete_load h with rfl | ⟨u, hu, -, rfl⟩
  · exact Loader.orderly_empty.elements hk hl
  · exact hu.elements hk hl

theorem Tree.root_load {v : Json} {t : Tree} (h : (Tree.load v).1 = .ok t) {r : Nat} (hr : t.root = some r) :
    (t.element? r).isSome := by
  rcases complete_load h with rfl | ⟨u, -, helement, rfl⟩
  · cases hr
  · cases hr
    exact helement

/-- Of data without double names, every node but the root is listed exactly once. -/
theorem Tree.count_references_load {v : Json} {t : Tree} (hv : v.distinct = true)
    (h : (Tree.load v).1 = .ok t) (j : Nat) :
    t.references.count j = if j < t.size ∧ t.root ≠ some j then 1 else 0 := by
  have hwf := wellFormed_load h
  rw [hwf.single.count]
  refine if_congr (mem_references.trans ⟨fun ⟨k, i, hl⟩ => ⟨hwf.inside hl, fun hr => ?_⟩, fun hj => ?_⟩) rfl rfl
  · exact ((linked_load h).2 j hr).1 k i hl
  · rcases complete_load h with rfl | ⟨u, hu, -, rfl⟩
    · exact absurd hj.1 (Nat.not_lt_zero j)
    · have hpos : 0 < j := by
        rcases Nat.eq_zero_or_pos j with rfl | hpos
        · exact absurd rfl hj.2
        · exact hpos
      exact hu.covered hv j hpos hj.1

end TemplateCompiler
