import Mathlib.Order.Basic
import TemplateCompiler.Generator.Element

/-!
# The way from task to task

Generating a task asks for other tasks. They belong to nodes after its own, or to the same node with more
stages done; only the entry of an element that is rendered once, or of a slot definition, may hand over to the
element itself as it is (`Task.Leads`). What a single step asks for is a little narrower (`Task.Calls`), and
needs less depth (`Task.Calls.need_lt`). `Generator.runAlong` generates like `Generator.run`, but refuses a
task if some task on the way to it does not lead there.
-/

namespace TemplateCompiler

namespace Stages

/-- Every stage of `d` is one of `d'`. -/
def Subset (d d' : Stages) : Prop :=
  (d.hoisted → d'.hoisted) ∧ (d.once → d'.once) ∧ (d.looped → d'.looped) ∧ (d.branched → d'.branched)

theorem Subset.antisymm {d d' : Stages} (h : d.Subset d') (h' : d'.Subset d) : d = d' := by
  obtain ⟨h₁, h₂, h₃, h₄⟩ := h
  obtain ⟨h₁', h₂', h₃', h₄'⟩ := h'
  cases d
  cases d'
  rw [Stages.mk.injEq]
  exact ⟨Bool.eq_iff_iff.mpr ⟨h₁, h₁'⟩, Bool.eq_iff_iff.mpr ⟨h₂, h₂'⟩, Bool.eq_iff_iff.mpr ⟨h₃, h₃'⟩,
    Bool.eq_iff_iff.mpr ⟨h₄, h₄'⟩⟩

instance : PartialOrder Stages where
  le := Subset
  lt d d' := Subset d d' ∧ d ≠ d'
  le_refl _ := ⟨id, id, id, id⟩
  le_trans _ _ _ h h' :=
    ⟨h'.1 ∘ h.1, h'.2.1 ∘ h.2.1, h'.2.2.1 ∘ h.2.2.1, h'.2.2.2 ∘ h.2.2.2⟩
  le_antisymm _ _ h h' := h.antisymm h'
  lt_iff_le_not_ge _ _ :=
    ⟨fun h => ⟨h.1, fun h' => h.2 (h.1.antisymm h')⟩, fun h => ⟨h.1, fun heq => h.2 (heq ▸ h.1)⟩⟩

instance (d d' : Stages) : Decidable (d ≤ d') :=
  inferInstanceAs (Decidable (_ ∧ _ ∧ _ ∧ _))

instance (d d' : Stages) : Decidable (d < d') :=
  inferInstanceAs (Decidable (d ≤ d' ∧ d ≠ d'))

/-- How many stages are left. -/
def left (d : Stages) : Nat :=
  (!d.hoisted).toNat + (!d.once).toNat + (!d.looped).toNat + (!d.branched).toNat

theorem left_le_four (d : Stages) : d.left ≤ 4 := by
  obtain ⟨h, o, l, b⟩ := d
  revert h o l b
  decide

theorem left_lt_left {d d' : Stages} (h : d < d') : d'.left < d.left := by
  obtain ⟨h₁, o₁, l₁, b₁⟩ := d
  obtain ⟨h₂, o₂, l₂, b₂⟩ := d'
  revert h₁ o₁ l₁ b₁ h₂ o₂ l₂ b₂
  decide

theorem left_le_left {d d' : Stages} (h : d ≤ d') : d'.left ≤ d.left := by
  rcases h.lt_or_eq with h | rfl
  · exact Nat.le_of_lt (left_lt_left h)
  · exact Nat.le_refl _

theorem branched_le {d d' : Stages} (h : d ≤ d') : (!d'.branched).toNat ≤ (!d.branched).toNat := by
  have hb : d.branched → d'.branched := h.2.2.2
  revert hb
  generalize d.branched = b
  generalize d'.branched = b'
  revert b b'
  decide

end Stages

namespace Task

def index : Task → Nat
  | .element i _ | .onceElement i _ | .slotEntry i _ => i

def done : Task → Stages
  | .element _ d | .onceElement _ d | .slotEntry _ d => d

def isElement : Task → Bool
  | .element _ _ => true
  | _ => false

/-- Where a generation may go from a task: to a later node, or to the same node with more stages done, or from
an entry of the node to the element itself. -/
def Leads (s s' : Task) : Prop :=
  s.index < s'.index ∨ s.index = s'.index ∧
    (s.done < s'.done ∨ s.done = s'.done ∧ s.isElement = false ∧ s'.isElement = true)

instance (s s' : Task) : Decidable (s.Leads s') :=
  inferInstanceAs (Decidable (_ ∨ _ ∧ (_ ∨ _)))

/-- What a step may ask for at its own node. -/
def Again : Task → Task → Prop
  | .element _ d, .element _ d' => d < d'
  | .element _ d, .onceElement _ d' => d < d' ∧ d.branched = false ∧ d'.branched = true
  | .onceElement _ d, .element _ d' | .slotEntry _ d, .element _ d' => d ≤ d'
  | .onceElement _ d, .onceElement _ d' | .slotEntry _ d, .slotEntry _ d' => d < d'
  | _, _ => False

/-- What a step may ask for. -/
def Calls (s s' : Task) : Prop :=
  s.index < s'.index ∨ s.index = s'.index ∧ s.Again s'

/-- The depth that the stages of a task take at its own node. -/
def weight : Task → Nat
  | .element _ d => 1 + d.left + (!d.branched).toNat
  | .onceElement _ d | .slotEntry _ d => 2 + d.left + (!d.branched).toNat

/-- The depth that a task takes in a tree of `n` nodes. -/
def need (n : Nat) (s : Task) : Nat :=
  8 * (n - s.index) + s.weight

variable {s s' s'' : Task} {n : Nat}

theorem Leads.trans (h : s.Leads s') (h' : s'.Leads s'') : s.Leads s'' := by
  rcases h with h | ⟨hi, h⟩ <;> rcases h' with h' | ⟨hi', h'⟩
  · exact .inl (Nat.lt_trans h h')
  · exact .inl (hi' ▸ h)
  · exact .inl (hi ▸ h')
  · refine .inr ⟨hi.trans hi', ?_⟩
    rcases h with h | ⟨hd, hs, hs'⟩ <;> rcases h' with h' | ⟨hd', hs₁, hs₁'⟩
    · exact .inl (h.trans h')
    · exact .inl (hd' ▸ h)
    · exact .inl (hd ▸ h')
    · exact absurd (hs'.symm.trans hs₁) (by decide)

theorem Again.leads (h : s.Again s') :
    s.done < s'.done ∨ s.done = s'.done ∧ s.isElement = false ∧ s'.isElement = true := by
  cases s <;> cases s' <;> unfold Again at h
  case element.element | onceElement.onceElement | slotEntry.slotEntry => exact .inl h
  case element.onceElement => exact .inl h.1
  case onceElement.element | slotEntry.element =>
    exact h.lt_or_eq.imp_right fun h => ⟨h, rfl, rfl⟩
  all_goals exact h.elim

theorem Calls.leads (h : s.Calls s') : s.Leads s' :=
  h.imp_right fun h => ⟨h.1, h.2.leads⟩

theorem weight_le (s : Task) : s.weight ≤ 7 := by
  have hb (b : Bool) : b.toNat ≤ 1 := b.toNat_le
  have hleft := Stages.left_le_four
  cases s with
  | element i d | onceElement i d | slotEntry i d =>
    have := hb !d.branched
    have := hleft d
    simp only [weight]
    omega

theorem Again.weight_lt (h : s.Again s') : s'.weight < s.weight := by
  cases s <;> cases s' <;> unfold Again at h
  case element.element | onceElement.onceElement | slotEntry.slotEntry =>
    have := Stages.left_lt_left h
    have := Stages.branched_le h.le
    simp only [weight]
    omega
  case element.onceElement =>
    obtain ⟨h, hb, hb'⟩ := h
    have := Stages.left_lt_left h
    simp only [weight, hb, hb', Bool.not_false, Bool.not_true, Bool.toNat_true, Bool.toNat_false]
    omega
  case onceElement.element | slotEntry.element =>
    have := Stages.left_le_left h
    have := Stages.branched_le h
    simp only [weight]
    omega
  all_goals exact h.elim

theorem Calls.need_lt (h : s.Calls s') (hn : s'.index < n) : s'.need n < s.need n := by
  have hw := s'.weight_le
  unfold need
  rcases h with h | ⟨hi, h⟩
  · omega
  · have := h.weight_lt
    omega

/-- The depth that a generation is given is enough for every task. -/
theorem need_le_depth (t : Tree) (s : Task) : s.need t.size ≤ Generator.depth t := by
  have := s.weight_le
  unfold need Generator.depth
  omega

theorem need_pos (s : Task) : 0 < s.need n := by
  have : 0 < s.weight := by
    cases s <;> simp only [weight] <;> omega
  unfold need
  omega

end Task

/-- Generates a task like `run`, and checks that every task on the way leads to it. -/
def Generator.runAlong (o : Options) : Nat → List Task → Emit
  | 0, _ => fun _ => throw .tooDeep
  | fuel + 1, way => fun s =>
    if way.all fun r => r.Leads s then step o (runAlong o fuel (s :: way)) s else throw .tooDeep

end TemplateCompiler
