import TemplateCompiler.Proofs.Generator.Restored

/-!
# What actions yield

`Maintains I x Q` says that if `x` returns, starting from a state with `I`, its result has `Q` and the state that it
leaves has `I`. The rules follow the way in which actions are built. `Yields I x Q` is the same for an `I` that is about
the tree. An action that leaves the tree alone keeps every such `I`.
-/

namespace TemplateCompiler.Generator

variable {α β : Type}

/-! ## States -/

def Maintains (I : Generation → Prop) (x : GenM α) (Q : α → Prop) : Prop :=
  ∀ g, I g → ∀ a g', outcome x g = (.ok a, g') → Q a ∧ I g'

namespace Maintains

variable {I : Generation → Prop} {Q : α → Prop} {R : β → Prop} {x : GenM α} {f : α → GenM β}

theorem pure {a : α} (h : Q a) : Maintains I (pure a) Q := by
  rintro g hg _ _ ⟨⟩
  exact ⟨h, hg⟩

theorem throw (e : Failure) : Maintains I (throw e : GenM α) Q := by
  rintro g hg _ _ ⟨⟩

theorem get : Maintains I (get : GenM Generation) I := by
  rintro g hg _ _ ⟨⟩
  exact ⟨hg, hg⟩

theorem modify {u : Generation → Generation} (h : ∀ g, I g → I (u g)) :
    Maintains I (modify u : GenM Unit) fun _ => True := by
  rintro g hg _ _ ⟨⟩
  exact ⟨trivial, h g hg⟩

theorem mono {Q' : α → Prop} (hx : Maintains I x Q) (h : ∀ a, Q a → Q' a) : Maintains I x Q' := by
  intro g hg a g' ha
  exact (hx g hg a g' ha).imp_left (h a)

theorem bind (hx : Maintains I x Q) (hf : ∀ a, Q a → Maintains I (f a) R) : Maintains I (x >>= f) R := by
  intro g hg b g'' hb
  obtain ⟨a, g', ha, hb⟩ := outcome_bind_ok hb
  obtain ⟨hQ, hg'⟩ := hx g hg a g' ha
  exact hf a hQ g' hg' b g'' hb

theorem ite {c : Prop} [Decidable c] {y : GenM α} (hx : c → Maintains I x Q) (hy : ¬c → Maintains I y Q) :
    Maintains I (if c then x else y) Q := by
  split
  · exact hx ‹_›
  · exact hy ‹_›

theorem liftFailure {r : Except Failure α} (h : ∀ a, r = .ok a → Q a) : Maintains I (liftFailure r) Q := by
  cases r with
  | error e => exact throw e
  | ok a => exact pure (h a rfl)

/-- Each result of a list of actions has what its action gives. -/
theorem mapM_forall₂ {xs : List β} {f : β → GenM α} {Q : β → α → Prop} (hf : ∀ b ∈ xs, Maintains I (f b) (Q b)) :
    Maintains I (xs.mapM f) (List.Forall₂ Q xs) := by
  induction xs with
  | nil => exact pure .nil
  | cons b xs ih =>
    rw [List.mapM_cons]
    refine (hf b (List.mem_cons_self ..)).bind fun a ha => ?_
    refine (ih fun b hb => hf b (List.mem_cons_of_mem _ hb)).bind fun as has => ?_
    exact pure (.cons ha has)

theorem mapM {xs : List β} {f : β → GenM α} (hf : ∀ b ∈ xs, Maintains I (f b) Q) :
    Maintains I (xs.mapM f) fun as => ∀ a ∈ as, Q a := by
  induction xs with
  | nil => exact pure nofun
  | cons b xs ih =>
    rw [List.mapM_cons]
    refine (hf b (List.mem_cons_self ..)).bind fun a ha => ?_
    refine (ih fun b hb => hf b (List.mem_cons_of_mem _ hb)).bind fun as has => ?_
    exact pure (List.forall_mem_cons.mpr ⟨ha, has⟩)

/-- What is kept of a list has what all of it has. -/
theorem filterM {P : β → Prop} {xs : List β} (hxs : ∀ b ∈ xs, P b) {f : β → GenM Bool}
    (hf : ∀ b, P b → Maintains I (f b) fun _ => True) : Maintains I (xs.filterM f) fun ys => ∀ b ∈ ys, P b := by
  have loop {kept : List β} (hkept : ∀ b ∈ kept, P b) :
      Maintains I (List.filterAuxM f xs kept) fun ys => ∀ b ∈ ys, P b := by
    induction xs generalizing kept with
    | nil => exact pure hkept
    | cons b xs ih =>
      obtain ⟨hb, hxs⟩ := List.forall_mem_cons.mp hxs
      refine (hf b hb).bind fun keep _ => ih hxs ?_
      cases keep with
      | true => exact List.forall_mem_cons.mpr ⟨hb, hkept⟩
      | false => exact hkept
  exact (loop (List.forall_mem_nil _)).bind fun kept hkept => pure fun b hb => hkept b (List.mem_reverse.mp hb)

end Maintains

/-! ## Trees -/

def Yields (I : Tree → Prop) (x : GenM α) (Q : α → Prop) : Prop :=
  ∀ g, I g.tree → ∀ a g', outcome x g = (.ok a, g') → Q a ∧ I g'.tree

namespace Yields

variable {I : Tree → Prop} {Q : α → Prop} {R : β → Prop} {x : GenM α} {f : α → GenM β} {i : Nat}

/-- What a view shows stays the same. -/
theorem of_preserves {γ : Type} {view : Tree → γ} {shows : γ} (h : Preserves view x) :
    Yields (fun t => view t = shows) x fun _ => True := by
  intro g hg a g' ha
  have hview : view (outcome x g).2.tree = view g.tree := h g
  rw [ha] at hview
  exact ⟨trivial, hview.trans hg⟩

theorem of_untouched (h : Untouched x) : Yields I x fun _ => True := by
  intro g hg a g' ha
  have htree : (outcome x g).2.tree = g.tree := h g
  rw [ha] at htree
  exact ⟨trivial, htree ▸ hg⟩

theorem pure {a : α} (h : Q a) : Yields I (pure a) Q := Maintains.pure h

theorem throw (e : Failure) : Yields I (throw e : GenM α) Q := Maintains.throw e

theorem get : Yields I (get : GenM Generation) fun g => I g.tree := Maintains.get

theorem modify {u : Generation → Generation} (h : ∀ g, I g.tree → I (u g).tree) :
    Yields I (modify u : GenM Unit) fun _ => True :=
  Maintains.modify h

theorem mono {Q' : α → Prop} (hx : Yields I x Q) (h : ∀ a, Q a → Q' a) : Yields I x Q' := Maintains.mono hx h

theorem bind (hx : Yields I x Q) (hf : ∀ a, Q a → Yields I (f a) R) : Yields I (x >>= f) R := Maintains.bind hx hf

theorem ite {c : Prop} [Decidable c] {y : GenM α} (hx : Yields I x Q) (hy : Yields I y Q) :
    Yields I (if c then x else y) Q :=
  Maintains.ite (fun _ => hx) fun _ => hy

theorem liftFailure {r : Except Failure α} (h : ∀ a, r = .ok a → Q a) : Yields I (liftFailure r) Q :=
  Maintains.liftFailure h

theorem mapM {xs : List β} {f : β → GenM α} (hf : ∀ b ∈ xs, Yields I (f b) Q) :
    Yields I (xs.mapM f) fun as => ∀ a ∈ as, Q a :=
  Maintains.mapM hf

theorem mapM_forall₂ {xs : List β} {f : β → GenM α} {Q : β → α → Prop} (hf : ∀ b ∈ xs, Yields I (f b) (Q b)) :
    Yields I (xs.mapM f) (List.Forall₂ Q xs) :=
  Maintains.mapM_forall₂ hf

theorem filterM {P : β → Prop} {xs : List β} (hxs : ∀ b ∈ xs, P b) {f : β → GenM Bool}
    (hf : ∀ b, P b → Yields I (f b) fun _ => True) : Yields I (xs.filterM f) fun ys => ∀ b ∈ ys, P b :=
  Maintains.filterM hxs hf

theorem nodeAt : Yields I (nodeAt i) fun n => ∃ t, I t ∧ t.node? i = some n := by
  refine get.bind fun g hg => ?_
  split
  · next n hn => exact pure ⟨g.tree, hg, hn⟩
  · exact throw _

theorem elementAt : Yields I (elementAt i) fun e => ∃ t, I t ∧ t.element? i = some e := by
  intro g hg e g' he
  rw [outcome_elementAt] at he
  rcases hi : g.tree.element? i with _ | e₀ <;> rw [hi] at he <;> cases he
  exact ⟨⟨g.tree, hg, hi⟩, hg⟩

theorem flagsOf : Yields I (flagsOf i) fun f => ∃ t, I t ∧ t.flags i = f :=
  get.bind fun g hg => pure ⟨g.tree, hg, rfl⟩

theorem restoringBindings {bindings : Bindings}
    (hI : ∀ t, I t → I (t.modifyElement i fun e => { e with toBindings := bindings })) (hx : Yields I x Q) :
    Yields I (restoringBindings i bindings x) Q := by
  intro g hg a g' ha
  rw [outcome_restoringBindings, Prod.mk.injEq] at ha
  obtain ⟨hQ, hg'⟩ := hx g hg a (outcome x g).2 (Prod.ext ha.1 rfl)
  rw [← ha.2]
  exact ⟨hQ, hI _ hg'⟩

theorem apart (hx : Yields I x Q) : Yields I (apart x) Q := by
  refine get.bind fun _ _ => .bind (.modify fun _ hg => hg) fun _ _ => hx.bind fun _ ha => ?_
  exact .bind (.modify fun _ hg => hg) fun _ _ => .pure ha

end Yields

end TemplateCompiler.Generator
