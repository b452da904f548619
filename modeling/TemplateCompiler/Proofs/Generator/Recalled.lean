import TemplateCompiler.Proofs.Environment.Compile
import TemplateCompiler.Proofs.Generator.InStep
import TemplateCompiler.Proofs.Generator.Marks
import TemplateCompiler.Proofs.Generator.Restored
import TemplateCompiler.Proofs.Generator.Verbatim
import TemplateCompiler.Proofs.Tree.Loaded

/-!
# What a generator remembers is true

A generator asks again and again whether elements are verbatim, in the order in which it comes to them, and each question
may fill in the answers for a whole chain of elements. Meanwhile plugins change the tree. As long as the marks stay as
they are (`Tree.SameMarks`), every answer is the one that the tree gave at the beginning, and so is all that is remembered
(`outcome_askAll`). The emitters keep this too (`recalling`), so that it holds after every task of a generation whose
plugins leave the marks alone (`recalls_run`).
-/

namespace TemplateCompiler

namespace Tree

/-- The nodes of `u` stand where those of `t` stand, and the same elements are marked as verbatim. -/
structure SameMarks (t u : Tree) : Prop where
  size : u.size = t.size
  parents : ∀ i, u.parent? i = t.parent? i
  marks : u.shown Element.pre = t.shown Element.pre

variable {t u : Tree} {i : Nat}

namespace SameMarks

theorem refl (t : Tree) : t.SameMarks t := ⟨rfl, fun _ => rfl, rfl⟩

theorem modifyElement (h : t.SameMarks u) {f : Element → Element}
    (hf : ∀ e, u.element? i = some e → (f e).pre = e.pre) : t.SameMarks (u.modifyElement i f) where
  size := (size_modifyElement ..).trans h.size
  parents j := (parent?_modifyElement ..).trans (h.parents j)
  marks := (shown_modifyElement hf).trans h.marks

theorem any_pre (h : t.SameMarks u) (i : Nat) :
    (u.element? i).any (fun e => e.pre.truthy) = (t.element? i).any fun e => e.pre.truthy := by
  have hany (w : Tree) : (w.element? i).any (fun e => e.pre.truthy) = (w.shown Element.pre i).any Json.truthy := by
    rw [shown, Option.any_map]
  rw [hany, hany, h.marks]

end SameMarks

/-- The way up, without a count of the steps. -/
theorem Linked.verbatim_iff (h : t.Linked) : t.verbatim i = true ↔
    ∃ a e, Relation.ReflTransGen (fun j p => t.parent? j = some p) i a ∧ t.element? a = some e ∧
      e.pre.truthy = true := by
  have hhere {j : Nat} : (t.element? j).any (fun e => e.pre.truthy) = true ↔
      ∃ e, t.element? j = some e ∧ e.pre.truthy = true := by
    rw [Option.any_eq_true]
  constructor
  · induction i using Nat.strongRecOn with
    | ind i ih =>
      intro hi
      rcases hp : t.parent? i with _ | p
      · rw [verbatim_of_parent?_none hp, hhere] at hi
        obtain ⟨e, he, hpre⟩ := hi
        exact ⟨i, e, .refl, he, hpre⟩
      · rw [h.verbatim_of_parent? hp, Bool.or_eq_true, hhere] at hi
        rcases hi with ⟨e, he, hpre⟩ | hi
        · exact ⟨i, e, .refl, he, hpre⟩
        · obtain ⟨a, e, hpa, he, hpre⟩ := ih p (h.above hp) hi
          exact ⟨a, e, .head hp hpa, he, hpre⟩
  · rintro ⟨a, e, hia, he, hpre⟩
    induction hia using Relation.ReflTransGen.head_induction_on with
    | refl => rw [verbatim, hhere.mpr ⟨e, he, hpre⟩, Bool.true_or]
    | head hp _ ih => rw [h.verbatim_of_parent? hp, ih, Bool.or_true]

end Tree

namespace Memo

variable {t u : Tree}

/-- All that is remembered is what the tree says. -/
abbrev Faithful (t : Tree) (memo : Memo) : Prop :=
  memo.Recalls fun i found => found = t.verbatim i

/-- A search reads nothing of the tree but the way up and the marks. -/
theorem query_of_sameMarks (h : t.SameMarks u) (fuel i : Nat) (memo : Memo) :
    query u fuel i memo = query t fuel i memo := by
  induction fuel generalizing i with
  | zero => rfl
  | succ fuel ih => simp only [query, h.any_pre, h.parents, ih]

end Memo

namespace Generator

open Memo (Faithful)

variable {t : Tree} {g g' : Generation}

theorem outcome_isVerbatim (i : Nat) (g : Generation) : outcome (isVerbatim i) g =
    (.ok (Memo.query g.tree (g.tree.size + 1) i g.memo).1,
      { g with memo := (Memo.query g.tree (g.tree.size + 1) i g.memo).2 }) := rfl

/-- A question is answered as the tree answers it, and what is remembered stays true. -/
theorem isVerbatim_faithful (ht : t.Linked) (hmarks : t.SameMarks g.tree) (hmemo : Faithful t g.memo) (i : Nat) :
    ∃ memo, outcome (isVerbatim i) g = (.ok (t.verbatim i), { g with memo := memo }) ∧ Faithful t memo := by
  obtain ⟨hanswer, hrecalls⟩ := Memo.query_verbatim ht (i := i) (Nat.lt_succ_of_le (Nat.min_le_right ..)) hmemo
  refine ⟨_, ?_, hrecalls⟩
  rw [outcome_isVerbatim, Memo.query_of_sameMarks hmarks, hmarks.size, hanswer]

/-! ## Questions in any order -/

/-- A question about a node, and the tree as it is by then. -/
structure Question where
  tree : Tree
  index : Nat

def ask (q : Question) : GenM Bool := do
  modify fun g => { g with tree := q.tree }
  isVerbatim q.index

theorem outcome_askAll (ht : t.Linked) {qs : List Question} (hqs : ∀ q ∈ qs, t.SameMarks q.tree)
    (hmemo : Faithful t g.memo) :
    ∃ g', outcome (qs.mapM ask) g = (.ok (qs.map fun q => t.verbatim q.index), g') ∧ Faithful t g'.memo := by
  induction qs generalizing g with
  | nil => exact ⟨g, rfl, hmemo⟩
  | cons q qs ih =>
    obtain ⟨hq, hqs⟩ := List.forall_mem_cons.mp hqs
    have hask : outcome (ask q) g = outcome (isVerbatim q.index) { g with tree := q.tree } := rfl
    obtain ⟨memo, hanswer, hmemo⟩ := isVerbatim_faithful (g := { g with tree := q.tree }) ht hq hmemo q.index
    obtain ⟨g', hrest, hmemo'⟩ := ih (g := { g with tree := q.tree, memo := memo }) hqs hmemo
    refine ⟨g', ?_, hmemo'⟩
    rw [List.mapM_cons, outcome_bind_of_ok (hask.trans hanswer), outcome_bind_of_ok hrest]
    rfl

/-! ## Questions of the emitters -/

/-- The generation beside has come as far with an element. -/
abbrev Abreast (d d' : Stages) : Prop :=
  d = d'

theorem Abreast.refl (d : Stages) : Abreast d d :=
  rfl

/-- A generation beside itself, with the marks of `t` and a memo that is true of them. Its code is of no interest. -/
def recalling (ht : t.Linked) {o : Options} (ho : o.Keep Element.pre) : Coupling o where
  states v g h := g = h ∧ g.verbatim = v ∧ t.SameMarks g.tree ∧ Faithful t g.memo
  stages := Abreast
  shape i e := t.shown Element.pre i = some e.pre
  code _ _ _ := True
  content _ _ _ := True
  unflag_tree h := by rw [h.1]
  verbatim h := ⟨h.2.1, h.1 ▸ h.2.1⟩
  shape_element h he := by
    rw [← h.2.2.1.marks, Tree.shown, he]
    rfl
  warn ws h := ⟨by rw [h.1], h.2⟩
  isVerbatim i := by
    rintro g _ ⟨rfl, hv, hmarks, hmemo⟩ a g' ha
    obtain ⟨memo, hanswer, hmemo'⟩ := isVerbatim_faithful ht hmarks hmemo i
    rw [hanswer] at ha
    cases ha
    exact ⟨_, _, hanswer, rfl, rfl, hv, hmarks, hmemo'⟩
  rebind i b h := ⟨by rw [h.1], h.2.1, h.2.2.1.modifyElement fun _ _ => rfl, h.2.2.2⟩
  plugin hp he h := by
    refine ⟨by rw [h.1], h.2.1, h.2.2.1.modifyElement fun e' he' => ?_, h.2.2.2⟩
    rw [← h.2.2.1.marks, Tree.shown, he'] at he
    rw [ho _ _ hp, Option.some.inj he]
  enter _ _ h := ⟨by rw [h.1], rfl, h.2.2.1, Memo.recalls_nil _⟩
  leave h h' := ⟨by rw [h.1, h'.1], h.2.1, h'.2.2.1, h.2.2.2⟩
  fresh := .refl _
  stages_agree h := by rw [h]; exact ⟨rfl, rfl, rfl⟩
  looped h := by rw [h]
  branched h := by rw [h]
  text _ := trivial
  helper _ := trivial
  append _ _ := trivial
  create _ _ := trivial
  loop _ := trivial
  branch _ _ := trivial
  fragment _ := trivial
  outlet _ := trivial
  child _ _ _ := trivial
  block _ _ _ := trivial
  contentText _ := trivial
  contentAppend _ _ := trivial
  definition _ _ _ := trivial
  slots _ _ := trivial
  inline _ _ _ := trivial
  transform _ _ _ := trivial

theorem inStep_recalling (ht : t.Linked) {o : Options} (ho : o.Keep Element.pre) : (recalling ht ho).InStep where
  stages := .rfl
  switch _ h := ⟨by rw [h.1], rfl, h.2.2⟩
  root _ h := by rw [h.1]
  inLoop _ h := by rw [h.1]
  hoist _ _ _ _ _ := trivial
  mark _ _ _ _ := trivial

/-- Whatever a generation comes to, its memo is as true afterwards as it was before. -/
theorem recalls_run (ht : t.Linked) {o : Options} (ho : o.Keep Element.pre) {fuel : Nat} {task : Task} {c : Code}
    (hmarks : t.SameMarks g.tree) (hmemo : Faithful t g.memo) (h : outcome (run o fuel task) g = (.ok c, g')) :
    t.SameMarks g'.tree ∧ Faithful t g'.memo := by
  obtain ⟨_, h', -, -, -, -, hafter⟩ :=
    (inStep_recalling ht ho).task fuel task g g ⟨rfl, rfl, hmarks, hmemo⟩ c g' h
  exact hafter

/-- An element is found to be verbatim exactly if it or one above it is marked. This holds of every question, in whatever
order they are asked and however the tree is changed in between, as long as its marks stay; and it holds of all that a
generator remembers: at first, as nothing is remembered, after each question, and after every task of a generation
whose plugins leave the marks alone. -/
theorem answers_verbatim (h : t.WellFormed) :
    (∀ i, t.verbatim i = true ↔ ∃ a e, Relation.ReflTransGen (fun j p => t.parent? j = some p) i a ∧
      t.element? a = some e ∧ e.pre.truthy = true) ∧
    Faithful t [] ∧
    (∀ (qs : List Question) (g : Generation), (∀ q ∈ qs, t.SameMarks q.tree) → Faithful t g.memo →
      ∃ g', outcome (qs.mapM ask) g = (.ok (qs.map fun q => t.verbatim q.index), g') ∧ Faithful t g'.memo) ∧
    ∀ (o : Options), o.Keep Element.pre → ∀ fuel task g c g', t.SameMarks g.tree → Faithful t g.memo →
      outcome (run o fuel task) g = (.ok c, g') → t.SameMarks g'.tree ∧ Faithful t g'.memo := by
  refine ⟨fun i => h.linked.verbatim_iff, Memo.recalls_nil _, fun qs g hqs hmemo => ?_, ?_⟩
  · exact outcome_askAll h.linked hqs hmemo
  · intro o ho fuel task g c g' hmarks hmemo hrun
    exact recalls_run h.linked ho hmarks hmemo hrun

/-- A quotation with a paragraph in it, and a note beside it. -/
def blockQuote : Json :=
  let word : Json := .object [("tag", "b"), ("attrsList", .array [.object [("name", "id"), ("value", "w")]])]
  let quoted : Json := .object [("tag", "blockquote"), ("pre", .bool true),
    ("children", .array [.object [("tag", "p"), ("children", .array [word])]])]
  .object [("tag", "div"), ("children", .array [quoted, .object [("tag", "i")]])]

/-- The word is asked about first and last, and in between the paragraph gets a key. -/
theorem answers_verbatim_blockQuote : ∃ t u : Tree, (Tree.load blockQuote).1 = .ok t ∧ t.WellFormed ∧ t.SameMarks u ∧
    (u.shown Element.key 2 = some "k") ∧
    (∃ g', outcome ([⟨t, 3⟩, ⟨u, 0⟩, ⟨u, 4⟩, ⟨u, 1⟩, ⟨t, 3⟩].mapM ask) { tree := t } =
      (.ok [true, false, false, true, true], g') ∧ Faithful t g'.memo) ∧
    ({} : Environment).options.Keep Element.pre ∧
    ∃ c g', outcome (run ({} : Environment).options 40 (.element 0 {})) { tree := t } = (.ok c, g') ∧
      Faithful t g'.memo ∧ Table.get? 3 g'.memo = some true := by
  have h : ((Tree.load blockQuote).1.toOption.bind fun t =>
      (outcome (run ({} : Environment).options 40 (.element 0 {})) { tree := t }).1.toOption.map fun _ =>
        decide ([3, 0, 4, 1, 3].map t.verbatim = [true, false, false, true, true] ∧
          (t.modifyElement 2 fun e => { e with key := "k" }).shown Element.key 2 = some "k" ∧
          Table.get? 3 (outcome (run ({} : Environment).options 40 (.element 0 {})) { tree := t }).2.memo =
            some true)) = some true := by
    decide +kernel
  obtain ⟨t, hload, h⟩ := Option.bind_eq_some_iff.mp h
  obtain ⟨c, hc, h⟩ := Option.map_eq_some_iff.mp h
  obtain ⟨hanswers, hkey, hfound⟩ := of_decide_eq_true h
  have hload := ok_of_toOption hload
  have ht : t.WellFormed := Tree.wellFormed_load hload
  have hmarks : t.SameMarks (t.modifyElement 2 fun e => { e with key := "k" }) :=
    (Tree.SameMarks.refl t).modifyElement fun _ _ => rfl
  have ho : ({} : Environment).options.Keep Element.pre := (Options.tidy_standard rfl).keep fun _ => rfl
  have hrun : outcome (run ({} : Environment).options 40 (.element 0 {})) { tree := t } = (.ok c, _) :=
    Prod.ext (ok_of_toOption hc) rfl
  obtain ⟨-, hnothing, hasked, hgenerated⟩ := answers_verbatim ht
  refine ⟨t, _, hload, ht, hmarks, hkey, ?_, ho, c, _, hrun, ?_, hfound⟩
  · rw [← hanswers]
    refine hasked _ _ ?_ hnothing
    simp [hmarks, Tree.SameMarks.refl]
  · exact (hgenerated _ ho _ _ _ _ _ (.refl t) hnothing hrun).2

end Generator

end TemplateCompiler
