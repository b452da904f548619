import TemplateCompiler.Proofs.Generator.Marks
import TemplateCompiler.Proofs.Generator.UpdateHint

/-!
# The arm that a chain selects

A chain is generated arm by arm, up to the first condition without a test: the conditions that are `live`. Their codes
are put into conditionals that are nested to the right (`Code.chain`). `Code.Selects` gives the arms that conditionals
come down to once the truth of every test is known, and `Code.Chooses` says that this is the arm of the first condition
that is met. `emitBranches_chooses` is about the chains of elements and of slot definitions alike.
-/

namespace TemplateCompiler

namespace Condition

/-- The test holds, or there is none. -/
def isMet (holds : String → Bool) (c : Condition) : Bool :=
  c.expression.filled?.all holds

/-- The conditions up to the first one without a test. -/
def live : List Condition → List Condition
  | [] => []
  | c :: rest =>
    match c.expression.filled? with
    | some _ => c :: live rest
    | none => [c]

end Condition

open Condition

namespace Code

/-- Conditionals come down to an arm, if the truth of each test is given by `holds`. -/
inductive Selects (holds : String → Bool) : Code → Code → Prop
  | refl (c : Code) : Selects holds c c
  | branch {owner : Nat} {test : String} {yes no c : Code} (h : Selects holds (if holds test then yes else no) c) :
      Selects holds (branch owner test yes no) c

/-- Conditionals for the arms of a chain, nested to the right. -/
def chain (owner : Nat) (empty : Code) : List (Condition × Code) → Code
  | [] => empty
  | (c, code) :: rest =>
    match c.expression.filled? with
    | some test => branch owner test code (chain owner empty rest)
    | none => code

/-- The text of conditionals that are nested to the right. -/
def nested (empty : String) : List (Condition × String) → String
  | [] => empty
  | (c, arm) :: rest =>
    match c.expression.filled? with
    | some test => "(" ++ test ++ ")?" ++ arm ++ ":" ++ nested empty rest
    | none => arm

/-- The code `c` decides between `codes`, the codes of the live conditions of a chain, and `empty`. -/
structure Chooses (conditions : List Condition) (codes : List Code) (c empty : Code) : Prop where
  first : ∀ holds n, conditions.findIdx? (isMet holds) = some n → ∃ code, codes[n]? = some code ∧ c.Selects holds code
  otherwise : ∀ holds, conditions.findIdx? (isMet holds) = none → c.Selects holds empty
  text : ∀ names s, (c.lift s).1.render names = nested (empty.render names) (conditions.zip (texts names codes s))
  /-- No functions are hoisted and no once marks numbered but those of the codes. -/
  lifted : ∀ s, (c.lift s).2 = (liftEach codes s).2

variable {owner : Nat} {empty : Code} {cs : List Condition} {codes : List Code}

/-- The codes of the live conditions end with the first condition, or go on with the rest. -/
theorem live_cases {c : Condition} (h : codes.length = (live (c :: cs)).length) :
    (c.expression.filled? = none ∧ ∃ code, codes = [code]) ∨
      ∃ test code rest, c.expression.filled? = some test ∧ codes = code :: rest ∧ rest.length = (live cs).length := by
  rw [live] at h
  cases hf : c.expression.filled? with
  | none =>
    rw [hf] at h
    exact .inl ⟨rfl, List.length_eq_one_iff.mp h⟩
  | some test =>
    rw [hf] at h
    obtain ⟨code, rest, rfl⟩ := List.exists_of_length_succ codes h
    exact .inr ⟨test, code, rest, rfl, rfl, Nat.succ.inj h⟩

theorem selects_chain (hlength : codes.length = (live cs).length) (holds : String → Bool) {n : Nat}
    (hn : cs.findIdx? (isMet holds) = some n) :
    ∃ code, codes[n]? = some code ∧ (chain owner empty (cs.zip codes)).Selects holds code := by
  induction cs generalizing codes n with
  | nil => cases hn
  | cons c rest ih =>
    rw [List.findIdx?_cons, isMet] at hn
    obtain ⟨hf, code, rfl⟩ | ⟨test, code, codes, hf, rfl, hrest⟩ := live_cases hlength
    · rw [hf] at hn
      obtain rfl : 0 = n := Option.some.inj hn
      rw [List.zip_cons_cons, chain, hf]
      exact ⟨code, rfl, .refl code⟩
    · rw [hf, Option.all_some] at hn
      rw [List.zip_cons_cons, chain, hf]
      by_cases htest : holds test = true
      · obtain rfl : 0 = n := by simpa [htest] using hn
        exact ⟨code, rfl, .branch (by rw [if_pos htest]; exact .refl code)⟩
      · obtain ⟨m, hm, rfl⟩ : ∃ m, rest.findIdx? (isMet holds) = some m ∧ m + 1 = n := by simpa [htest] using hn
        obtain ⟨code', hcode', hselects⟩ := ih hrest hm
        exact ⟨code', hcode', .branch (by rwa [if_neg htest])⟩

theorem selects_chain_empty {holds : String → Bool} (hnone : cs.findIdx? (isMet holds) = none) :
    (chain owner empty (cs.zip codes)).Selects holds empty := by
  induction cs generalizing codes with
  | nil => exact .refl empty
  | cons c rest ih =>
    rcases codes with _ | ⟨code, codes⟩
    · exact .refl empty
    · obtain ⟨hc, hrest⟩ := List.forall_mem_cons.mp (List.findIdx?_eq_none_iff.mp hnone)
      rw [List.zip_cons_cons, chain]
      rw [isMet] at hc
      split
      · next test hf =>
        rw [hf, Option.all_some] at hc
        refine .branch ?_
        rw [hc]
        exact ih (List.findIdx?_eq_none_iff.mpr hrest)
      · next hf =>
        rw [hf] at hc
        cases hc

/-- The arms are lifted in order. -/
theorem lift_chain (hempty : ∀ s, empty.lift s = (empty, s)) (hlength : codes.length = (live cs).length)
    (s : Lifted) : (chain owner empty (cs.zip codes)).lift s =
      (chain owner empty (cs.zip (liftEach codes s).1), (liftEach codes s).2) := by
  induction cs generalizing codes s with
  | nil =>
    obtain rfl := List.length_eq_zero_iff.mp hlength
    exact hempty s
  | cons c rest ih =>
    obtain ⟨hf, code, rfl⟩ | ⟨test, code, codes, hf, rfl, hrest⟩ := live_cases hlength
    · simp only [liftEach, List.zip_cons_cons, chain, hf]
    · simp only [liftEach, List.zip_cons_cons, chain, hf, lift, ih hrest]

theorem render_chain (names : Names) : (chain owner empty (cs.zip codes)).render names =
    nested (empty.render names) (cs.zip (codes.map (render names))) := by
  induction cs generalizing codes with
  | nil => rfl
  | cons c rest ih =>
    rcases codes with _ | ⟨code, codes⟩
    · rfl
    · rw [List.map_cons, List.zip_cons_cons, List.zip_cons_cons, chain, nested]
      split
      · rw [render, ih]
      · rfl

theorem chooses_chain (hempty : ∀ s, empty.lift s = (empty, s)) (hlength : codes.length = (live cs).length) :
    (chain owner empty (cs.zip codes)).Chooses cs codes empty where
  first holds _ hn := selects_chain hlength holds hn
  otherwise _ hnone := selects_chain_empty hnone
  text names s := by rw [lift_chain hempty hlength, render_chain, texts]
  lifted s := by rw [lift_chain hempty hlength]

end Code

namespace Generator

variable {o : Options} {self : Emit} {i : Nat} {e : Element} {done : Stages} {slot : Bool}

/-- The live arms are generated one after another, and nothing else is. -/
theorem emitChain_eq (cs : List Condition) : emitChain self i done slot cs =
    (fun codes => Code.chain i (noArm slot) (cs.zip codes)) <$>
      (live cs).mapM fun c => emitArm self i done slot c.block := by
  induction cs with
  | nil => rfl
  | cons c rest ih =>
    rw [emitChain, live]
    cases hf : c.expression.filled? with
    | none => simp [Code.chain, hf]
    | some test => simp [Code.chain, hf, ih]

/-- What stands after a condition without a test is not looked at. -/
theorem emitChain_append {c : Condition} (hc : c.expression.truthy = false) (before after : List Condition) :
    emitChain self i done slot (before ++ c :: after) = emitChain self i done slot (before ++ [c]) := by
  have hf : c.expression.filled? = none := by
    rw [← Option.not_isSome_iff_eq_none, Json.isSome_filled?, hc]
    decide
  induction before with
  | nil => simp only [List.nil_append, emitChain, hf]
  | cons b before ih => simp only [List.cons_append, emitChain, ih]

theorem lift_noArm (slot : Bool) (s : Lifted) : (noArm slot).lift s = (noArm slot, s) := by
  cases slot <;> rfl

theorem render_noArm (slot : Bool) (names : Names) :
    (noArm slot).render names = if slot then "null" else names .empty ++ "()" := by
  cases slot with
  | true => rfl
  | false =>
    show names .empty ++ "(" ++ "" ++ ")" = names .empty ++ "()"
    rw [String.append_empty, String.append_assoc]
    rfl

theorem outcome_slotEntry {fuel : Nat} {g : Generation} (he : g.tree.element? i = some e) (htest : e.tested = true)
    (hdone : done.branched = false) (hlegacy : (e.rawValue "slot-scope").truthy = false) :
    outcome (run o (fuel + 1) (.slotEntry i done)) g = outcome (emitBranches (run o fuel) i e done true) g := by
  show outcome (emitSlotEntry o (run o fuel) i done) g = _
  have helement : outcome (elementAt i) g = (.ok e, g) := by rw [outcome_elementAt, he]
  rw [emitSlotEntry, outcome_bind_of_ok helement]
  simp only [htest, hdone, hlegacy, Bool.not_false, Bool.and_self, if_true]

/-- The live arms of a chain are generated one after another, and nothing else is, so that the chain fails if one of
them does. It decides between their codes: whatever the tests come to, it gives the code for the first condition whose
test holds or is missing, and the empty code if there is none. A condition without a test ends the chain: without what
stands after it, the same is generated with the same functions, warnings and failures. If plugins leave condition lists
alone, these stay as they were, also if an arm failed. The descriptor of a tested slot definition is such a chain, with
`null` for the empty code. -/
theorem emitBranches_chooses (o : Options) (fuel i : Nat) (e : Element) (done : Stages) (slot : Bool) :
    (∃ build : List Code → Code,
      emitBranches (run o fuel) i e done slot = build <$> (live e.conditions).mapM
        (fun c => emitArm (run o fuel) i { done with branched := true } slot c.block) ∧
      (∀ codes, codes.length = (live e.conditions).length →
        (build codes).Chooses e.conditions codes (noArm slot)) ∧
      ∀ names, (noArm slot).render names = if slot then "null" else names .empty ++ "()") ∧
    (∀ before c after, e.conditions = before ++ c :: after → c.expression.truthy = false →
      emitBranches (run o fuel) i e done slot =
        emitBranches (run o fuel) i { e with conditions := before ++ [c] } done slot) ∧
    (o.Keep Element.conditions → ∀ g,
      (outcome (emitBranches (run o fuel) i e done slot) g).2.tree.shown Element.conditions =
        g.tree.shown Element.conditions) ∧
    ∀ g, g.tree.element? i = some e → e.tested = true → done.branched = false →
      (e.rawValue "slot-scope").truthy = false →
      outcome (run o (fuel + 1) (.slotEntry i done)) g = outcome (emitBranches (run o fuel) i e done true) g := by
  refine ⟨⟨_, emitChain_eq _, fun codes hcodes => ?_, render_noArm slot⟩, fun before c after he hc => ?_, fun ho => ?_,
    fun g => outcome_slotEntry⟩
  · exact Code.chooses_chain (lift_noArm slot) hcodes
  · rw [emitBranches, he]
    exact emitChain_append hc before after
  · exact preserves_chain (preserves_shown_run ho (fun _ => rfl) fuel) _

/-- A component with a slot definition that has two alternatives, and one more that is never reached. -/
def curtainData : Json :=
  let alternative (label test : Json) : Json := .object
    [("tag", "template"), ("children", .array [.object [("type", .int 3), ("text", label)]]), ("elseif", test)]
  let definition : Json := .object [("tag", "template"), ("slotTarget", "head"), ("if", "a"), ("ifConditions", .array
    [.object [("exp", "a")], .object [("exp", "b"), ("block", alternative "second" "b")],
      .object [("exp", ""), ("block", alternative "third" .null)],
      .object [("exp", "c"), ("block", alternative "lost" "c")]])]
  .object [("tag", "my-frame"), ("scopedSlots", .object [("head", definition)])]

theorem emitBranches_chooses_curtain :
    let o := ({} : Environment).options
    ∃ t e codes c g, (Tree.load curtainData).1 = .ok t ∧ t.element? 1 = some e ∧
      outcome ((live e.conditions).mapM fun c => emitArm (run o 40) 1 { branched := true } true c.block)
        { tree := t } = (.ok codes, g) ∧
      outcome (run o 41 (.slotEntry 1 {})) { tree := t } = (.ok c, g) ∧
      (∃ code, codes[1]? = some code ∧ c.Selects (· == "b") code) ∧
      emitBranches (run o 40) 1 e {} true =
        emitBranches (run o 40) 1 { e with conditions := e.conditions.take 3 } {} true ∧
      (outcome (emitBranches (run o 40) 1 e {} true) { tree := t }).2.tree.shown Element.conditions =
        t.shown Element.conditions := by
  intro o
  have h : ((Tree.load curtainData).1.toOption.bind fun t => (t.element? 1).bind fun e =>
      (outcome ((live e.conditions).mapM fun c => emitArm (run o 40) 1 { branched := true } true c.block)
        { tree := t }).1.toOption.map fun codes =>
        decide (e.tested = true ∧ (e.rawValue "slot-scope").truthy = false ∧ codes.length = 3 ∧
          e.conditions = [⟨"a", 1⟩, ⟨"b", 2⟩] ++ ⟨"", 4⟩ :: [⟨"c", 6⟩])) = some true := by
    decide +kernel
  obtain ⟨t, ht, h⟩ := Option.bind_eq_some_iff.mp h
  obtain ⟨e, he, h⟩ := Option.bind_eq_some_iff.mp h
  obtain ⟨codes, hcodes, h⟩ := Option.map_eq_some_iff.mp h
  obtain ⟨htest, hlegacy, hlength, hconditions⟩ := of_decide_eq_true h
  obtain ⟨⟨build, hbuild, hchooses, -⟩, htail, hkept, hslot⟩ := emitBranches_chooses o 40 1 e {} true
  have harms : outcome ((live e.conditions).mapM fun c => emitArm (run o 40) 1 { branched := true } true c.block)
      { tree := t } = (.ok codes, _) := Prod.ext (ok_of_toOption hcodes) rfl
  have hlive : codes.length = (live e.conditions).length := by
    rw [hlength, hconditions]
    rfl
  have hkeep : o.Keep Element.conditions := (Options.tidy_standard rfl).keep fun _ => rfl
  refine ⟨t, e, codes, build codes, _, ok_of_toOption ht, he, harms, ?_, ?_, ?_, hkept hkeep _⟩
  · rw [hslot { tree := t } he htest rfl hlegacy, hbuild, map_eq_pure_bind, outcome_bind_of_ok harms, outcome_pure]
  · refine (hchooses codes hlive).first (· == "b") 1 ?_
    rw [hconditions]
    decide
  · rw [htail _ _ _ hconditions rfl, hconditions]
    rfl

end Generator

end TemplateCompiler
