import TemplateCompiler.Proofs.Generator.Coupling
import TemplateCompiler.Proofs.Generator.Legible
import TemplateCompiler.Proofs.Generator.Tasks
import TemplateCompiler.Proofs.Tree.Links

/-!
# Generations that end

A generation starts from a tree `t`, and plugins change its elements on the way. `t.Fits F u` says how far the tree
`u` of a later state can be from `t`: it has the same nodes under the same parents, its elements list no more
than those of `t`, and they are legible. `Ends F t x y Q` says that `x` and `y` do the same from every such state:
both return the same, with `Q`, and have lost no warning, or both fail, in a way that `F` admits. The rules follow
the way in which actions are built. With `y` the same as `x` they speak of one generation; with different ways to
generate the tasks below they show that only some of those tasks matter.
-/

namespace TemplateCompiler

/-! ## Trees on the way -/

/-- `u` has the nodes of `t` under the same parents, and its elements list no more than those of `t`. -/
structure Tree.Confines (t u : Tree) : Prop where
  size : u.size = t.size
  parents : ∀ i, u.parent? i = t.parent? i
  elements : ∀ i, (u.element? i).isSome = (t.element? i).isSome
  listed : ∀ {i e}, u.element? i = some e → ∃ e₀, t.element? i = some e₀ ∧ ∀ k, e.listed k ⊆ e₀.listed k

/-- A tree as a generation that started from `t` may leave it. -/
structure Tree.Fits (F : Failure → Prop) (t u : Tree) : Prop extends t.Confines u where
  legible : ∀ {i e}, u.element? i = some e → e.Legible F

/-- An element as it may stand at `i`. -/
structure Element.Fits (F : Failure → Prop) (t : Tree) (i : Nat) (e : Element) : Prop where
  legible : e.Legible F
  listed : ∃ e₀, t.element? i = some e₀ ∧ ∀ k, e.listed k ⊆ e₀.listed k

/-- There is a node at `i`, and it is an element unless the failure is admitted. -/
def Tree.Holds (F : Failure → Prop) (t : Tree) (i : Nat) : Prop :=
  i < t.size ∧ (F (.dangling i) ∨ (t.element? i).isSome)

/-- What a generation needs of the tree that it starts from: elements list nodes after them, apart from
themselves as blocks, and what they list as slots and blocks are elements. -/
structure Tree.Sound (F : Failure → Prop) (t : Tree) : Prop where
  forward : ∀ {i e k j}, t.element? i = some e → j ∈ e.listed k →
    k = .block ∧ j = i ∨ i < j ∧ j < t.size
  elements : ∀ {i e k j}, t.element? i = some e → j ∈ e.listed k → k ≠ .child →
    F (.dangling j) ∨ (t.element? j).isSome

/-- Plugins keep elements legible, list nothing new, and give up in admitted ways only. -/
def Options.Sound (F : Failure → Prop) (o : Options) : Prop :=
  ∀ {name p}, Table.get? name o.directives = some p → ∀ site e d, e.Legible F → d.Legible F →
    (p.compile site e d).element.Legible F ∧ (∀ k, (p.compile site e d).element.listed k ⊆ e.listed k) ∧
      Within F (p.compile site e d).reply

variable {F : Failure → Prop} {t u : Tree} {i : Nat} {e : Element}

namespace Tree

theorem Linked.sound (h : t.Linked)
    (helements : ∀ {k i j}, k ≠ .child → t.Lists k i j → F (.dangling j) ∨ (t.element? j).isSome) :
    t.Sound F where
  forward {i e k j} he hj := by
    by_cases hown : k = .block ∧ j = i
    · exact .inl hown
    · have hlater := h.below (⟨e, he, hj, fun hk hji => hown ⟨hk, hji⟩⟩ : t.Lists k i j)
      exact .inr ⟨hlater.1, hlater.2.1⟩
  elements {i e k j} he hj hk := by
    by_cases hown : k = .block ∧ j = i
    · rw [hown.2, he]
      exact .inr rfl
    · exact helements hk ⟨e, he, hj, fun hk hji => hown ⟨hk, hji⟩⟩

theorem Confines.modifyElement (h : t.Confines u) {f : Element → Element}
    (hf : ∀ e, u.element? i = some e → ∀ k, (f e).listed k ⊆ e.listed k) :
    t.Confines (u.modifyElement i f) where
  size := (size_modifyElement ..).trans h.size
  parents j := (parent?_modifyElement ..).trans (h.parents j)
  elements j := by
    rw [element?_modifyElement, ← h.elements j]
    split
    · exact Option.isSome_map
    · rfl
  listed {j e} he := by
    rw [element?_modifyElement] at he
    split at he
    · rename_i hij
      subst hij
      obtain ⟨e, hu, rfl⟩ := Option.map_eq_some_iff.mp he
      obtain ⟨e₀, he₀, hlisted⟩ := h.listed hu
      exact ⟨e₀, he₀, fun k => List.Subset.trans (hf e hu k) (hlisted k)⟩
    · exact h.listed he

namespace Fits

theorem element (h : t.Fits F u) (he : u.element? i = some e) : e.Fits F t i :=
  ⟨h.legible he, h.listed he⟩

theorem modifyElement (h : t.Fits F u) {f : Element → Element}
    (hf : ∀ e, u.element? i = some e → (f e).Legible F ∧ ∀ k, (f e).listed k ⊆ e.listed k) :
    t.Fits F (u.modifyElement i f) where
  toConfines := h.toConfines.modifyElement fun e he => (hf e he).2
  legible {j e} he := by
    rw [element?_modifyElement] at he
    split at he
    · rename_i hij
      subst hij
      obtain ⟨e, hu, rfl⟩ := Option.map_eq_some_iff.mp he
      exact (hf e hu).1
    · exact h.legible he

/-- Other bindings list nothing. -/
theorem rebind (h : t.Fits F u) {b : Bindings} (hb : b.Legible F) :
    t.Fits F (u.modifyElement i fun e => { e with toBindings := b }) := by
  refine h.modifyElement fun e he => ⟨⟨(h.legible he).tag, hb, (h.legible he).directives⟩, fun k => ?_⟩
  cases k <;> exact List.Subset.refl _

end Fits

end Tree

namespace Element.Fits

variable {k : Link} {j : Nat}

theorem forward (h : e.Fits F t i) (ht : t.Sound F) (hj : j ∈ e.listed k) :
    k = .block ∧ j = i ∨ i < j ∧ j < t.size := by
  obtain ⟨e₀, he₀, hlisted⟩ := h.listed
  exact ht.forward he₀ (hlisted k hj)

theorem child (h : e.Fits F t i) (ht : t.Sound F) (hj : j ∈ e.children) : i < j ∧ j < t.size := by
  rcases h.forward ht (k := .child) hj with ⟨hk, -⟩ | hj
  · cases hk
  · exact hj

theorem slot (h : e.Fits F t i) (ht : t.Sound F) {s : Json × Nat} (hs : s ∈ e.scopedSlots) :
    i < s.2 ∧ t.Holds F s.2 := by
  have hj : s.2 ∈ e.listed .slot := List.mem_map_of_mem hs
  obtain ⟨e₀, he₀, hlisted⟩ := h.listed
  rcases h.forward ht hj with ⟨hk, -⟩ | ⟨hlt, hsize⟩
  · cases hk
  · exact ⟨hlt, hsize, ht.elements he₀ (hlisted .slot hj) nofun⟩

theorem block (h : e.Fits F t i) (ht : t.Sound F) {c : Condition} (hc : c ∈ e.conditions) :
    c.block = i ∨ i < c.block ∧ t.Holds F c.block := by
  have hj : c.block ∈ e.listed .block := List.mem_map_of_mem hc
  obtain ⟨e₀, he₀, hlisted⟩ := h.listed
  refine (h.forward ht hj).imp (fun h => h.2) fun ⟨hlt, hsize⟩ => ?_
  exact ⟨hlt, hsize, ht.elements he₀ (hlisted .block hj) nofun⟩

end Element.Fits

namespace Generator

/-! ## Actions that end -/

variable {α β γ : Type}

/-- From a state whose tree fits `t`, `x` and `y` return the same, with `Q` and with the warnings so far, or fail
alike and in an admitted way. -/
def Ends (F : Failure → Prop) (t : Tree) (x y : GenM α) (Q : α → Prop) : Prop :=
  ∀ g, t.Fits F g.tree →
    (∃ a g', outcome x g = (.ok a, g') ∧ outcome y g = (.ok a, g') ∧ Q a ∧ t.Fits F g'.tree ∧
      g.warnings <+: g'.warnings) ∨
    ∃ f g', outcome x g = (.error f, g') ∧ outcome y g = (.error f, g') ∧ F f

namespace Ends

variable {x y : GenM α} {f k : α → GenM β} {Q : α → Prop} {R : β → Prop}

theorem outcome_eq {g : Generation} (h : Ends F t x y Q) (hg : t.Fits F g.tree) :
    outcome x g = outcome y g := by
  rcases h g hg with ⟨a, g', hx, hy, -⟩ | ⟨f, g', hx, hy, -⟩
  · rw [hx, hy]
  · rw [hx, hy]

theorem within {g : Generation} (h : Ends F t x y Q) (hg : t.Fits F g.tree) : Within F (outcome x g).1 := by
  rcases h g hg with ⟨a, g', hx, -⟩ | ⟨f, g', hx, -, hf⟩
  · rw [hx]
    exact .ok a
  · rw [hx]
    exact .error hf

theorem pure {a : α} (h : Q a) : Ends F t (pure a) (pure a) Q :=
  fun g hg => .inl ⟨a, g, rfl, rfl, h, hg, List.prefix_rfl⟩

theorem throw {e : Failure} (h : F e) : Ends F t (throw e) (throw e) Q :=
  fun g _ => .inr ⟨e, g, rfl, rfl, h⟩

theorem bind (hx : Ends F t x y Q) (hf : ∀ a, Q a → Ends F t (f a) (k a) R) :
    Ends F t (x >>= f) (y >>= k) R := by
  intro g hg
  rw [outcome_bind, outcome_bind]
  rcases hx g hg with ⟨a, g', hxa, hya, ha, hg', hw⟩ | ⟨e, g', hxe, hye, he⟩
  · rw [hxa, hya]
    refine (hf a ha g' hg').imp_left ?_
    rintro ⟨b, g'', hxb, hyb, hb, hg'', hw'⟩
    exact ⟨b, g'', hxb, hyb, hb, hg'', hw.trans hw'⟩
  · rw [hxe, hye]
    exact .inr ⟨e, g', rfl, rfl, he⟩

/-- A step whose result may be anything. -/
theorem seq (hx : Ends F t x y fun _ => True) (hf : ∀ a, Ends F t (f a) (k a) R) :
    Ends F t (x >>= f) (y >>= k) R :=
  hx.bind fun a _ => hf a

/-- The state that is read has a tree that fits. -/
theorem get : Ends F t get get fun g => t.Fits F g.tree :=
  fun g hg => .inl ⟨g, g, rfl, rfl, hg, hg, List.prefix_rfl⟩

theorem modify {m : Generation → Generation}
    (h : ∀ g, t.Fits F g.tree → t.Fits F (m g).tree ∧ g.warnings <+: (m g).warnings) :
    Ends F t (modify m) (modify m) fun _ => True :=
  fun g hg => .inl ⟨(), m g, rfl, rfl, trivial, h g hg⟩

theorem liftFailure {r : Except Failure α} (h : Within F r) :
    Ends F t (liftFailure r) (liftFailure r) fun _ => True := by
  cases r with
  | error e => exact throw (h e rfl)
  | ok a => exact pure trivial

theorem ite {c : Prop} [Decidable c] {x' y' : GenM α} (h : c → Ends F t x y Q)
    (h' : ¬c → Ends F t x' y' Q) : Ends F t (if c then x else x') (if c then y else y') Q := by
  split
  · exact h ‹_›
  · exact h' ‹_›

theorem mapM {xs : List γ} {f k : γ → GenM α} (h : ∀ c ∈ xs, Ends F t (f c) (k c) fun _ => True) :
    Ends F t (xs.mapM f) (xs.mapM k) fun _ => True := by
  induction xs with
  | nil => exact pure trivial
  | cons c xs ih =>
    obtain ⟨hc, hxs⟩ := List.forall_mem_cons.mp h
    rw [List.mapM_cons, List.mapM_cons]
    exact hc.seq fun _ => (ih hxs).seq fun _ => pure trivial

theorem filterM {xs : List γ} {f k : γ → GenM Bool}
    (h : ∀ c ∈ xs, Ends F t (f c) (k c) fun _ => True) :
    Ends F t (xs.filterM f) (xs.filterM k) fun _ => True := by
  have loop (kept : List γ) :
      Ends F t (List.filterAuxM f xs kept) (List.filterAuxM k xs kept) fun _ => True := by
    induction xs generalizing kept with
    | nil => exact pure trivial
    | cons c xs ih =>
      obtain ⟨hc, hxs⟩ := List.forall_mem_cons.mp h
      exact hc.seq fun _ => ih hxs _
  exact (loop []).seq fun _ => pure trivial

theorem elementAt (h : F (.dangling i) ∨ (t.element? i).isSome) :
    Ends F t (elementAt i) (elementAt i) (Element.Fits F t i) := by
  intro g hg
  rw [outcome_elementAt]
  rcases he : g.tree.element? i with _ | e
  · refine .inr ⟨_, g, rfl, rfl, h.resolve_right fun hsome => ?_⟩
    rw [← hg.elements, he] at hsome
    cases hsome
  · exact .inl ⟨e, g, rfl, rfl, hg.element he, hg, List.prefix_rfl⟩

/-- Every index below the size has a node. -/
theorem nodeAt (h : i < t.size) :
    Ends F t (nodeAt i) (nodeAt i) fun n => ∀ e, n.content = .element e → (t.element? i).isSome := by
  intro g hg
  have hi : i < g.tree.size := hg.size.symm ▸ h
  have hn : g.tree.node? i = some g.tree.nodes[i] := Array.getElem?_eq_getElem hi
  refine .inl ⟨g.tree.nodes[i], g, ?_, ?_, fun e he => ?_, hg, List.prefix_rfl⟩
  · simp [Generator.nodeAt, outcome_bind, hn]
  · simp [Generator.nodeAt, outcome_bind, hn]
  · rw [← hg.elements, Tree.element?, hn, Option.bind_some, Node.element?, he]
    rfl

theorem siteOf : Ends F t (siteOf i) (siteOf i) fun _ => True :=
  get.bind fun _ _ => pure trivial

theorem flagsOf : Ends F t (flagsOf i) (flagsOf i) fun _ => True :=
  get.bind fun _ _ => pure trivial

theorem warn (w : Warning) : Ends F t (warn w) (warn w) fun _ => True :=
  modify fun _ hg => ⟨hg, List.prefix_append ..⟩

theorem setVerbatim (on : Bool) : Ends F t (setVerbatim on) (setVerbatim on) fun _ => True :=
  modify fun _ hg => ⟨hg, List.prefix_rfl⟩

theorem isVerbatim : Ends F t (isVerbatim i) (isVerbatim i) fun _ => True :=
  fun _ hg => .inl ⟨_, _, rfl, rfl, trivial, hg, List.prefix_rfl⟩

theorem restoringBindings {b : Bindings} (hb : b.Legible F) (hx : Ends F t x y Q) :
    Ends F t (restoringBindings i b x) (restoringBindings i b y) Q := by
  intro g hg
  rw [outcome_restoringBindings, outcome_restoringBindings]
  rcases hx g hg with ⟨a, g', hxa, hya, ha, hg', hw⟩ | ⟨e, g', hxe, hye, he⟩
  · rw [hxa, hya]
    exact .inl ⟨a, _, rfl, rfl, ha, hg'.rebind hb, hw⟩
  · rw [hxe, hye]
    exact .inr ⟨e, _, rfl, rfl, he⟩

theorem apart (hx : Ends F t x y Q) : Ends F t (apart x) (apart y) Q := by
  refine get.bind fun g _ => .seq (modify fun _ hg => ⟨hg, List.prefix_rfl⟩) fun _ => hx.bind fun a ha => ?_
  exact .seq (modify fun _ hg => ⟨hg, List.prefix_rfl⟩) fun _ => pure ha

end Ends

end Generator

end TemplateCompiler
