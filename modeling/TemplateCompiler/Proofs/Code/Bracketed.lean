import TemplateCompiler.Code.Lift
import TemplateCompiler.Proofs.Json.Balanced

/-!
# Code that is well bracketed

`c.Takes q q'` says that code `c` takes a reader from `q` to `q'`, whatever the helpers are called: there is one
rule for each kind of code. Lifting keeps the judgement (`Takes.lift`), and what is rendered is read as the
judgement says (`Takes.render`), so that all functions of a program are balanced if the code is `Bracketed`
(`balanced_program`).
-/

namespace TemplateCompiler

open Text

def Names.Balanced (names : Names) : Prop :=
  ∀ h, Text.Balanced (names h)

namespace Code

/-! ## The judgement -/

/-- Code takes a reader from one state to another. Code with a text of its own is read outside of string
literals and leaves open what was open before. -/
inductive Takes : Code → Reader → Reader → Prop
  | text {s : String} {q q' : Reader} (h : Reads q s q') : Takes (text s) q q'
  | helper (h : Helper) {opened : List Bracket} : Takes (helper h) ⟨.code, opened⟩ ⟨.code, opened⟩
  | append {a b : Code} {q m q' : Reader} (ha : Takes a q m) (hb : Takes b m q') : Takes (append a b) q q'
  | create (owner : Nat) (dynamic : Bool) {target : String} {data children : Code} {opened : List Bracket}
      (ht : Balanced target) (hd : Takes data {} {}) (hc : Takes children {} {}) :
      Takes (create owner dynamic target data children) ⟨.code, opened⟩ ⟨.code, opened⟩
  | loop (owner : Nat) {source params : String} {body : Code} {opened : List Bracket} (hs : Balanced source)
      (hp : Balanced params) (hb : Takes body {} {}) :
      Takes (loop owner source params body) ⟨.code, opened⟩ ⟨.code, opened⟩
  | branch (owner : Nat) {test : String} {yes no : Code} {opened : List Bracket} (ht : Balanced test)
      (hy : Takes yes {} {}) (hn : Takes no {} {}) :
      Takes (branch owner test yes no) ⟨.code, opened⟩ ⟨.code, opened⟩
  | fragment (owner : Nat) {body : Code} {opened : List Bracket} (hb : Takes body {} {}) :
      Takes (fragment owner body) ⟨.code, opened⟩ ⟨.code, opened⟩
  | outlet (owner : Nat) {arguments : Code} {opened : List Bracket} (ha : Takes arguments {} {}) :
      Takes (outlet owner arguments) ⟨.code, opened⟩ ⟨.code, opened⟩
  | slots (owner : Nat) (hint : UpdateHint) {descriptors : Code} {opened : List Bracket}
      (hd : Takes descriptors {} {}) : Takes (slots owner descriptors hint) ⟨.code, opened⟩ ⟨.code, opened⟩
  | hoist (owner : Nat) (inLoop : Bool) {body : Code} {opened : List Bracket} (hb : Takes body {} {}) :
      Takes (hoist owner inLoop body) ⟨.code, opened⟩ ⟨.code, opened⟩
  | once (owner : Nat) {key : String} {body : Code} {opened : List Bracket} (hk : Balanced key)
      (hb : Takes body {} {}) : Takes (once owner key body) ⟨.code, opened⟩ ⟨.code, opened⟩
  | call (index : Nat) (inLoop : Bool) {opened : List Bracket} :
      Takes (call index inLoop) ⟨.code, opened⟩ ⟨.code, opened⟩
  | memo (id : Nat) {key : String} {body : Code} {opened : List Bracket} (hk : Balanced key)
      (hb : Takes body {} {}) : Takes (memo id key body) ⟨.code, opened⟩ ⟨.code, opened⟩
  | inline {body : Code} {opened : List Bracket} (hb : Takes body {} {}) :
      Takes (inline body) ⟨.code, opened⟩ ⟨.code, opened⟩
  | unit {body : Code} {opened : List Bracket} (hb : Takes body {} {}) :
      Takes (unit body) ⟨.code, opened⟩ ⟨.code, opened⟩
  | rewritten {f : String → String} {body : Code} {opened : List Bracket} (hf : ∀ s, Balanced s → Balanced (f s))
      (hb : Takes body {} {}) : Takes (rewritten f body) ⟨.code, opened⟩ ⟨.code, opened⟩

/-- Code that leaves nothing open. -/
abbrev Bracketed (c : Code) : Prop :=
  c.Takes {} {}

namespace Takes

variable {a b : Code} {q m q' : Reader} {s : String} {opened : List Bracket}

/-- Brackets that are open around code are still open after it. -/
theorem under (h : a.Takes q q') (outer : List Bracket) : a.Takes (q.under outer) (q'.under outer) := by
  induction h with
  | text h => exact .text (Reader.read_under h outer)
  | helper h => exact .helper h
  | append _ _ iha ihb => exact .append iha ihb
  | create owner dynamic ht hd hc => exact .create owner dynamic ht hd hc
  | loop owner hs hp hb => exact .loop owner hs hp hb
  | branch owner ht hy hn => exact .branch owner ht hy hn
  | fragment owner hb => exact .fragment owner hb
  | outlet owner ha => exact .outlet owner ha
  | slots owner hint hd => exact .slots owner hint hd
  | hoist owner inLoop hb => exact .hoist owner inLoop hb
  | once owner hk hb => exact .once owner hk hb
  | call index inLoop => exact .call index inLoop
  | memo id hk hb => exact .memo id hk hb
  | inline hb => exact .inline hb
  | unit hb => exact .unit hb
  | rewritten hf hb => exact .rewritten hf hb

/-- Code begins with a text that is known. -/
theorem start (s : String) (h : q.read s.toList = some q') : (Code.text s).Takes q q' :=
  .text h

/-- Code goes on with a text. -/
theorem piece (h : a.Takes q m) (hs : Reads m s q') : (a ++ Code.text s).Takes q q' :=
  .append h (.text hs)

/-- Code goes on with a text that is known. -/
theorem fixed (h : a.Takes q m) (s : String) (hs : m.read s.toList = some q') :
    (a ++ Code.text s).Takes q q' :=
  h.piece hs

/-- Code goes on with code that leaves nothing open. -/
theorem code (h : a.Takes q ⟨.code, opened⟩) (hb : b.Bracketed) : (a ++ b).Takes q ⟨.code, opened⟩ :=
  .append h (hb.under opened)

end Takes

theorem bracketed_text {s : String} (h : Balanced s) : (text s).Bracketed := .text h

theorem bracketed_empty : empty.Bracketed := bracketed_text balanced_empty

theorem bracketed_join {separator : String} (hseparator : Balanced separator) {cs : List Code}
    (h : ∀ c ∈ cs, c.Bracketed) : (join separator cs).Bracketed := by
  induction cs with
  | nil => exact bracketed_empty
  | cons c rest ih =>
    have hc := h c (List.mem_cons_self ..)
    cases rest with
    | nil => exact hc
    | cons d rest => exact (hc.piece hseparator).code (ih fun d hd => h d (List.mem_cons_of_mem _ hd))

theorem bracketed_callHelper (h : Helper) {arguments : Code} (ha : arguments.Bracketed) :
    (callHelper h arguments).Bracketed :=
  (Takes.helper h).fixed "(" rfl |>.code ha |>.fixed ")" rfl

theorem bracketed_enclosed {c : Code} (h : c.Bracketed) : c.enclosed.Bracketed :=
  Takes.start "with(this)\x7breturn " rfl |>.code h |>.fixed "\x7d" rfl

theorem bracketed_inlineEntry {body : Code} (hb : body.Bracketed) {functions : List Code}
    (hf : ∀ f ∈ functions, f.Bracketed) : (inlineEntry body functions).Bracketed := by
  have hfunctions : (join "," (functions.map fun f =>
      Code.text "function()\x7b" ++ enclosed f ++ Code.text "\x7d")).Bracketed := by
    refine bracketed_join (by decide) fun c hc => ?_
    obtain ⟨f, hmem, rfl⟩ := List.mem_map.mp hc
    exact Takes.start "function()\x7b" rfl |>.code (bracketed_enclosed (hf f hmem)) |>.fixed "\x7d" rfl
  exact Takes.start "inlineTemplate:\x7brender:function()\x7b" rfl |>.code (bracketed_enclosed hb)
    |>.fixed _ rfl |>.code hfunctions |>.fixed _ rfl

/-! ## Programs -/

/-- Lifting keeps the judgement, and what it takes out leaves nothing open. -/
theorem Takes.lift {c : Code} {q q' : Reader} (h : c.Takes q q') {s : Lifted}
    (hs : ∀ f ∈ s.functions, f.Bracketed) :
    (c.lift s).1.Takes q q' ∧ ∀ f ∈ (c.lift s).2.functions, f.Bracketed := by
  induction h generalizing s with
  | text h => exact ⟨.text h, hs⟩
  | helper h => exact ⟨.helper h, hs⟩
  | append _ _ iha ihb =>
    obtain ⟨ha, hs⟩ := iha hs
    obtain ⟨hb, hs⟩ := ihb hs
    exact ⟨.append ha hb, hs⟩
  | create owner dynamic ht _ _ ihd ihc =>
    cases dynamic with
    | true =>
      obtain ⟨hc, hs⟩ := ihc hs
      obtain ⟨hd, hs⟩ := ihd hs
      exact ⟨.create owner true ht hd hc, hs⟩
    | false =>
      obtain ⟨hd, hs⟩ := ihd hs
      obtain ⟨hc, hs⟩ := ihc hs
      exact ⟨.create owner false ht hd hc, hs⟩
  | branch owner ht _ _ ihy ihn =>
    obtain ⟨hy, hs⟩ := ihy hs
    obtain ⟨hn, hs⟩ := ihn hs
    exact ⟨.branch owner ht hy hn, hs⟩
  | loop owner hsource hp _ ih => exact ⟨.loop owner hsource hp (ih hs).1, (ih hs).2⟩
  | fragment owner _ ih => exact ⟨.fragment owner (ih hs).1, (ih hs).2⟩
  | outlet owner _ ih => exact ⟨.outlet owner (ih hs).1, (ih hs).2⟩
  | slots owner hint _ ih => exact ⟨.slots owner hint (ih hs).1, (ih hs).2⟩
  | hoist owner inLoop _ ih =>
    obtain ⟨hb, hs⟩ := ih hs
    refine ⟨.call _ inLoop, fun f hf => ?_⟩
    rcases List.mem_append.mp hf with hf | hf
    · exact hs f hf
    · exact List.mem_singleton.mp hf ▸ hb
  | once owner hk _ ih => exact ⟨.memo _ hk (ih hs).1, (ih hs).2⟩
  | call index inLoop => exact ⟨.call index inLoop, hs⟩
  | memo id hk _ ih => exact ⟨.memo id hk (ih hs).1, (ih hs).2⟩
  | inline _ ih =>
    -- The functions of an inline template are its own.
    obtain ⟨hb, hown⟩ := ih (s := {}) nofun
    exact ⟨.unit (bracketed_inlineEntry hb hown), hs⟩
  | unit hb => exact ⟨.unit hb, hs⟩
  | rewritten hf _ ih => exact ⟨.rewritten hf (ih hs).1, (ih hs).2⟩

theorem balanced_hintText (hint : UpdateHint) (descriptors : String) :
    Balanced (hintText hint descriptors) := by
  cases hint with
  | none => exact balanced_empty
  | force => exact (by decide : Balanced ",null,true")
  | keyed => exact Reads.start ",null,false," rfl |>.code (balanced_toString_nat _)

/-- Code is read as the judgement says. -/
theorem Takes.render {names : Names} (hn : names.Balanced) {c : Code} {q q' : Reader} (h : c.Takes q q') :
    Reads q (c.render names) q' := by
  induction h with
  | text h => exact h
  | helper h => exact (hn h).reads _
  | append _ _ iha ihb => exact iha.append ihb
  | create _ _ ht _ _ ihd ihc =>
    refine Balanced.reads ?_ _
    exact hn .create |>.fixed "(" rfl |>.code ht |>.code ihd |>.code ihc |>.fixed ")" rfl
  | loop _ hs hp _ ih =>
    refine Balanced.reads ?_ _
    exact hn .renderList |>.fixed "((" rfl |>.code hs |>.fixed "),function(" rfl
      |>.code hp |>.fixed ")\x7breturn " rfl |>.code ih |>.fixed "\x7d)" rfl
  | branch _ ht _ _ ihy ihn =>
    refine Balanced.reads ?_ _
    exact Reads.start "(" rfl |>.code ht |>.fixed ")?" rfl |>.code ihy |>.fixed ":" rfl
      |>.code ihn
  | fragment _ _ ih | hoist _ _ _ ih | once _ _ _ ih | unit _ ih => exact Balanced.reads ih _
  | rewritten hf _ ih => exact Balanced.reads (hf _ ih) _
  | outlet _ _ ih =>
    refine Balanced.reads ?_ _
    exact hn .renderSlot |>.fixed "(" rfl |>.code ih |>.fixed ")" rfl
  | slots _ hint _ ih =>
    refine Balanced.reads ?_ _
    exact hn .resolveScopedSlots |>.fixed "([" rfl |>.code ih |>.fixed "]" rfl
      |>.code (balanced_hintText hint _) |>.fixed ")" rfl
  | call index inLoop =>
    have hloop : Balanced (if inLoop then ",true" else "") := by cases inLoop <;> decide
    refine Balanced.reads ?_ _
    exact hn .renderStatic |>.fixed "(" rfl |>.code (balanced_toString_nat index)
      |>.code hloop |>.fixed ")" rfl
  | memo id hk _ ih =>
    refine Balanced.reads ?_ _
    exact hn .markOnce |>.fixed "(" rfl |>.code ih |>.fixed "," rfl
      |>.code (balanced_toString_nat id) |>.fixed "," rfl |>.code hk |>.fixed ")" rfl
  | inline _ ih =>
    refine Balanced.reads ?_ _
    exact Reads.start _ rfl |>.code ih |>.fixed _ rfl

/-- All functions of a program are balanced. -/
theorem balanced_program {names : Names} (hn : names.Balanced) {c : Code} (h : c.Bracketed) :
    Balanced (c.program names).render ∧ ∀ f ∈ (c.program names).functions, Balanced f := by
  obtain ⟨hmain, hlifted⟩ := Takes.lift h (s := {}) nofun
  refine ⟨(bracketed_enclosed hmain).render hn, fun f hf => ?_⟩
  obtain ⟨c, hc, rfl⟩ := List.mem_map.mp hf
  exact (bracketed_enclosed (hlifted c hc)).render hn

end Code

end TemplateCompiler
