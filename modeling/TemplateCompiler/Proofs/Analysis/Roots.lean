import TemplateCompiler.Proofs.Analysis.Constants
import TemplateCompiler.Proofs.Tree.Unique

/-!
# Which elements are static roots

The second pass stops at every static root. So the static roots of a tree that came without flags are the outermost
of the constant elements with content: those to which a way leads from the root that meets no other static root
(`Uncovered`, `root_iff_uncovered`). Ways follow children and the later blocks of chains. In a tree in good order
there is one way to a node at most, so nothing below a static root is reached (`eq_of_reaches`), by whatever links it
hangs there, and nothing in a slot definition is visited at all (`not_reaches_of_visits`).
-/

namespace TemplateCompiler

open Relation

namespace Tree

/-- A link to a child or a later block of an element that is no static root. -/
def Opens (t : Tree) (i j : Nat) : Prop :=
  (t.flags i).root ≠ .bool true ∧ t.Visits i j

/-- A way leads from the root to node `j` that meets no static root before `j`. -/
def Uncovered (t : Tree) (j : Nat) : Prop :=
  ∃ r, t.root = some r ∧ ReflTransGen t.Opens r j

/-- The list holds a single node, which is a text or a comment. -/
def LoneText (t : Tree) (children : List Nat) : Prop :=
  ∃ c n s, children = [c] ∧ t.node? c = some n ∧ (n.content = .text s ∨ n.content = .comment s)

variable {t : Tree} {r i j : Nat}

theorem isLoneText_iff (t : Tree) (children : List Nat) :
    Analysis.isLoneText t children = true ↔ t.LoneText children := by
  unfold Analysis.isLoneText LoneText
  constructor
  · intro h
    split at h
    · next c =>
      rcases hn : t.node? c with _ | n
      · simp [hn] at h
      · rw [hn, Option.map_some] at h
        split at h
        · next s hs => exact ⟨c, n, s, rfl, hn, .inl (Option.some.inj hs)⟩
        · next s hs => exact ⟨c, n, s, rfl, hn, .inr (Option.some.inj hs)⟩
        · cases h
    · cases h
  · rintro ⟨c, n, s, rfl, hn, hs | hs⟩
    · simp [hn, hs]
    · simp [hn, hs]

namespace Linked

theorem le_of_visits (h : t.Linked) (hv : ReflTransGen t.Visits i j) : i ≤ j := by
  induction hv with
  | refl => exact Nat.le_refl i
  | tail _ hstep ih =>
    rcases lists_of_visits hstep with rfl | hl | hl
    · exact ih
    · exact Nat.le_of_lt (Nat.lt_of_le_of_lt ih (h.below hl).1)
    · exact Nat.le_of_lt (Nat.lt_of_le_of_lt ih (h.below hl).1)

/-- What leads down to a node without a parent has none either. -/
theorem parent?_eq_none_of_reaches (h : t.Linked) (hr : t.Reaches i j) (hj : t.parent? j = none) :
    t.parent? i = none := by
  induction hr with
  | refl => exact hj
  | @tail m j _ hstep ih =>
    obtain ⟨k, hk⟩ := hstep
    have hp := (h.below hk).2.2
    by_cases hblock : k = .block
    · rw [if_pos hblock, hj] at hp
      exact ih hp.symm
    · rw [if_neg hblock, hj] at hp
      cases hp

/-- The last link of a visit, and of a way down to the same node from elsewhere, are the same. -/
theorem reaches_of_visits (h : t.Linked) (hstep : t.Visits i j) {s : Nat} (hs : t.Reaches s j) (hne : s ≠ j) :
    t.Reaches s i := by
  rcases ReflTransGen.cases_tail_iff _ _ _ |>.mp hs with heq | ⟨m, hm, k, hk⟩
  · exact absurd heq.symm hne
  · rcases lists_of_visits hstep with rfl | hl | hl
    · exact hs
    · exact (h.single hl hk).1 ▸ hm
    · exact (h.single hl hk).1 ▸ hm

/-- The analysis visits nothing that stands in a slot definition. -/
theorem not_reaches_of_visits (h : t.Linked) (hr : t.parent? r = none) (hv : ReflTransGen t.Visits r j)
    {s : Nat} (hs : t.Lists .slot i s) : ¬t.Reaches s j := by
  induction hv with
  | refl =>
    intro hsr
    have hp := (h.below hs).2.2
    rw [h.parent?_eq_none_of_reaches hsr hr] at hp
    cases hp
  | @tail m j _ hstep ih =>
    intro hsj
    by_cases hsj' : s = j
    · subst hsj'
      rcases lists_of_visits hstep with rfl | hl | hl
      · exact ih .refl
      · exact nomatch (h.single hl hs).2
      · exact nomatch (h.single hl hs).2
    · exact ih (h.reaches_of_visits hstep hsj hsj')

end Linked

end Tree

namespace Analysis

variable {Passed : Nat → Bool → Prop} {a : Analysis} {t t₁ : Tree} {r i j : Nat} {e : Element}
  {log : List LogRecord}

namespace Analysed

variable (h : Analysed Passed t r t₁)

include h

theorem element?_eq (i : Nat) : t₁.element? i = t.element? i :=
  Tree.element?_eq_of_unflag h.unflag i

/-- The second pass goes on exactly from the elements that it does not flag as static roots. -/
theorem reached_iff_opens : Reached t₁ r j ↔ ReflTransGen t₁.Opens r j := by
  have hflag {i : Nat} {e : Element} (hi : Reached t₁ r i) (he : t₁.element? i = some e) :=
    h.roots i e hi (h.element?_eq i ▸ he)
  constructor
  · intro hj
    induction hj with
    | refl => exact .refl
    | tail hm hstep ih =>
      obtain ⟨e, he, hroot, hj⟩ := hstep
      refine ih.tail ⟨?_, e, he, hj⟩
      rw [hflag hm he, hroot]
      nofun
  · intro hj
    induction hj with
    | refl => exact .refl
    | tail _ hstep ih =>
      obtain ⟨hroot, e, he, hj⟩ := hstep
      refine ih.tail ⟨e, he, ?_, hj⟩
      rw [hflag ih he] at hroot
      exact Bool.eq_false_iff.mpr fun htrue => hroot (congrArg Json.bool htrue)

/-- A static root was reached, if there was none before. -/
theorem reached_of_root (ht : t.unflag = t) (hj : (t₁.flags j).root = .bool true) : Reached t₁ r j := by
  by_contra hout
  rw [h.root j hout, ← ht, Tree.flags_unflag] at hj
  cases hj

/-- Nothing that hangs below a static root is reached but the root itself. -/
theorem eq_of_reaches (ht : t.Linked) (hi : Reached t₁ r i) (hroot : (t₁.flags i).root = .bool true)
    (hj : Reached t₁ r j) (hij : t.Reaches i j) : i = j := by
  induction hj with
  | refl => exact Nat.le_antisymm (ht.le_of_reaches hij) (ht.le_of_visits (h.visits hi))
  | @tail m j hm hstep ih =>
    by_contra hne
    obtain ⟨e, he, hopen, hj⟩ := hstep
    rw [h.element?_eq] at he
    obtain rfl : i = m := ih (ht.reaches_of_visits ⟨e, he, hj⟩ hij hne)
    rw [h.roots i e hi he, hopen] at hroot
    cases hroot

end Analysed

/-- Of a tree without flags the first pass leaves truth values and null. -/
theorem constant_of_unset (ht : t.unflag = t) (h : t.analyse a = .ok (t₁, log)) (hr : t.root = some r) (j : Nat) :
    (∃ b, (t₁.flags j).constant = .bool b) ∨ (t₁.flags j).constant = .null := by
  have hrun : Ensures (a.run r) t fun _ t₁ =>
      (∃ b, (t₁.flags j).constant = .bool b) ∨ (t₁.flags j).constant = .null := by
    refine .bind (.get (.bind ((ensures_flagged a t _ r t rfl).mono fun _ t' ⟨hflagged, _⟩ => ?_)))
    refine (ensures_sameConstants _ r false t').mono fun _ t'' hsame => ?_
    rw [hsame.constant]
    by_cases hj : a.Exposed t r j
    · obtain ⟨b, hb, -⟩ := hflagged.inside j hj
      exact .inl ⟨b, hb⟩
    · refine .inr ?_
      rw [hflagged.outside j hj, ← ht, Tree.flags_unflag]
  unfold Tree.analyse at h
  rw [hr] at h
  rcases hrun' : (a.run r).run t with _ | ⟨x, t'⟩ <;> simp only [hrun'] at h <;> cases h
  exact hrun x t' hrun'

theorem isRoot_iff_constant (ht : t.unflag = t) (h : t.analyse a = .ok (t₁, log)) (hr : t.root = some r) :
    isRoot t₁ i e = true ↔
      (t₁.flags i).constant = .bool true ∧ e.children ≠ [] ∧ ¬t.LoneText e.children := by
  have hconstant : (t₁.flags i).constant.truthy = true ↔ (t₁.flags i).constant = .bool true := by
    rcases constant_of_unset ht h hr i with ⟨b, hb⟩ | hnull
    · rw [hb, Json.bool.injEq]
      rfl
    · rw [hnull]
      exact iff_of_false nofun nofun
  rw [isRoot, Bool.and_eq_true, Bool.and_eq_true, hconstant, Bool.not_eq_true', Bool.not_eq_true', and_assoc,
    ← isLoneText_unflag, unflag_analyse h, isLoneText_unflag, ← Tree.isLoneText_iff, Bool.not_eq_true,
    List.isEmpty_eq_false_iff]

/-- The static roots of a tree in good order that came without flags are the elements to which a way leads that meets
no other static root, and that are constant and have more than a lone text in them. So none of them hangs below
another one, and none stands in a slot definition. -/
theorem root_iff_uncovered (a : Analysis) {t : Tree} (ht : t.WellFormed) (hunset : t.unflag = t) :
    (t.Analysable → (∀ r, t.root = some r → r < t.size) → ∃ t₁ log, t.analyse a = .ok (t₁, log)) ∧
    ∀ t₁ log, t.analyse a = .ok (t₁, log) →
      (∀ i e, t.element? i = some e → ((t₁.flags i).root = .bool true ↔
        t₁.Uncovered i ∧ (t₁.flags i).constant = .bool true ∧ e.children ≠ [] ∧ ¬t.LoneText e.children)) ∧
      (∀ i j, (t₁.flags i).root = .bool true → (t₁.flags j).root = .bool true → t.Reaches i j → i = j) ∧
      ((∀ r, t.root = some r → t.parent? r = none) →
        ∀ i s j, t.Lists .slot i s → t.Reaches s j → (t₁.flags j).root ≠ .bool true) := by
  refine ⟨fun hok hroot => analyse_ok ht.linked hok a hroot, fun t₁ log h => ?_⟩
  have hunflag := unflag_analyse h
  have htop : t₁.root = t.root := by rw [← Tree.root_unflag, hunflag, Tree.root_unflag]
  rcases hr : t.root with _ | r
  · -- The empty template has no flags.
    have heq : t₁ = t := by
      unfold Tree.analyse at h
      rw [hr] at h
      cases h
      rfl
    have hnone (i : Nat) : (t₁.flags i).root ≠ .bool true := by
      rw [heq, ← hunset, Tree.flags_unflag]
      nofun
    refine ⟨fun i e _ => iff_of_false (hnone i) ?_, fun i j hi => absurd hi (hnone i), fun _ _ _ j _ _ => hnone j⟩
    rintro ⟨⟨r, hr', -⟩, -⟩
    rw [htop, hr] at hr'
    cases hr'
  · have han := analysed_any h hr
    refine ⟨fun i e he => ?_, fun i j hi hj hij => ?_, fun hparent i s j hs hsj hj => ?_⟩
    · rw [← isRoot_iff_constant hunset h hr]
      constructor
      · intro hi
        have hreached := han.reached_of_root hunset hi
        refine ⟨⟨r, htop.trans hr, han.reached_iff_opens.mp hreached⟩, ?_⟩
        rwa [han.roots i e hreached he, Json.bool.injEq] at hi
      · rintro ⟨⟨r', hr', hway⟩, hroot⟩
        obtain rfl : r = r' := Option.some.inj ((htop.trans hr).symm.trans hr')
        rw [han.roots i e (han.reached_iff_opens.mpr hway) he, hroot]
    · exact han.eq_of_reaches ht.linked (han.reached_of_root hunset hi) hi (han.reached_of_root hunset hj) hij
    · exact ht.linked.not_reaches_of_visits (hparent r rfl) (han.visits (han.reached_of_root hunset hj)) hs hsj

/-- The same paragraph in the last block of a chain, behind a component and in a slot definition, and one with a text
in it. -/
def hall : Json :=
  let bold : Json := .object [("tag", "p"), ("children", .array [.object [("tag", "b")]])]
  let greeting : Json := .object
    [("tag", "p"), ("children", .array [.object [("type", .int 3), ("text", "hello")]])]
  let last : Json := .object [("tag", "section"), ("else", .bool true), ("children", .array [bold])]
  let first : Json := .object
    [("tag", "p"), ("if", "ok"), ("ifConditions", .array [.object [("exp", "ok")], .object [("block", last)]])]
  let box : Json := .object [("tag", "my-box"), ("children", .array [bold]),
    ("scopedSlots", .object [("head", .object [("tag", "template"), ("children", .array [bold])])])]
  .object [("tag", "div"), ("children", .array [greeting, first, box])]

/-- The first paragraph has a lone text, the one in the last block is a static root, the bold text in it hangs below a
static root, and the one in the slot definition is not visited. -/
theorem root_iff_uncovered_hall : ∃ t t₁ log, (Tree.load hall).1 = .ok t ∧ t.unflag = t ∧
    t.analyse {} = .ok (t₁, log) ∧ t₁.Uncovered 5 ∧ ¬t.LoneText [6] ∧ (t₁.flags 1).root ≠ .bool true ∧
    (t₁.flags 6).root ≠ .bool true ∧ (t₁.flags 11).root ≠ .bool true := by
  have h : ((Tree.load hall).1.toOption.bind fun t => (t.analyse {}).toOption.map fun p =>
      decide (t.unflag = t ∧ t.root = some 0 ∧ t.parent? 0 = none ∧
        ((t.element? 1).map Element.children) = some [2] ∧
        ((t.node? 2).map Node.content) = some (.text "hello") ∧
        ((t.element? 5).map Element.children) = some [6] ∧ (p.1.flags 5).root = .bool true ∧
        ((t.element? 7).map fun e => e.scopedSlots.map Prod.snd) = some [10] ∧
        ((t.element? 10).map Element.children) = some [11])) = some true := by
    decide +kernel
  obtain ⟨t, hload, h⟩ := Option.bind_eq_some_iff.mp h
  obtain ⟨⟨t₁, log⟩, ha, h⟩ := Option.map_eq_some_iff.mp h
  obtain ⟨hunset, hroot, hparent, hp, hhello, hbold, hfive, hbox, hslot⟩ := of_decide_eq_true h
  have ha := ok_of_toOption (x := t.analyse _) ha
  obtain ⟨hiff, hbelow, hslots⟩ :=
    (root_iff_uncovered {} (Tree.wellFormed_load (ok_of_toOption hload)) hunset).2 t₁ log ha
  have hlists {k : Link} {i j : Nat} {js : List Nat} (hk : (t.element? i).map (Element.listed · k) = some js)
      (hj : j ∈ js) (hne : k ≠ .block) : t.Lists k i j := by
    obtain ⟨e, he, rfl⟩ := Option.map_eq_some_iff.mp hk
    exact ⟨e, he, hj, fun hblock => absurd hblock hne⟩
  obtain ⟨paragraph, he₁, hc₁⟩ := Option.map_eq_some_iff.mp hp
  obtain ⟨bold, he₅, hc₅⟩ := Option.map_eq_some_iff.mp hbold
  obtain ⟨n, hn, hcontent⟩ := Option.map_eq_some_iff.mp hhello
  obtain ⟨hway, -, -, hlone⟩ := (hiff 5 bold he₅).mp hfive
  refine ⟨t, t₁, log, ok_of_toOption hload, hunset, ha, hway, hc₅ ▸ hlone, fun hone => ?_, fun hsix => ?_, ?_⟩
  · exact ((hiff 1 paragraph he₁).mp hone).2.2.2 ⟨2, n, _, hc₁, hn, .inl hcontent⟩
  · exact nomatch hbelow 5 6 hfive hsix (.single ⟨.child, hlists hbold (by decide) nofun⟩)
  · refine hslots (fun r hr => ?_) 7 10 11 (hlists hbox (by decide) nofun)
      (.single ⟨.child, hlists hslot (by decide) nofun⟩)
    obtain rfl : 0 = r := Option.some.inj (hroot.symm.trans hr)
    exact hparent

end Analysis

end TemplateCompiler
