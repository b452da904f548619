import TemplateCompiler.Proofs.Code.References
import TemplateCompiler.Proofs.Text.Stencil

/-!
# Code under every naming

A family of codes, one for each naming, is `Drawn` if all of them are built alike, from drawn texts. Lifting such
code takes the same steps under every naming, so unless it holds a hash of slot content, one `Outline` gives the
programs of the family (`Code.Drawn.program`).
-/

namespace TemplateCompiler

/-- A program with holes for names. -/
structure Outline where
  render : Stencil
  functions : List Stencil
  deriving DecidableEq, Repr

def Outline.fill (names : Names) (o : Outline) : Program :=
  { render := o.render.fill names, functions := o.functions.map (Stencil.fill names) }

structure Outline.Sound (V : Json → Prop) (o : Outline) : Prop where
  render : o.render.Sound V
  functions : ∀ f ∈ o.functions, f.Sound V

namespace Code

/-- Slots whose descriptors are hashed, to make a key. -/
def IsHashed : Code → Prop
  | slots _ _ .keyed => True
  | _ => False

instance : DecidablePred IsHashed
  | slots _ _ .keyed => .isTrue trivial
  | slots _ _ .none | slots _ _ .force => .isFalse id
  | text _ | helper _ | append _ _ | create _ _ _ _ _ | loop _ _ _ _ | branch _ _ _ _ | fragment _ _ | outlet _ _
  | hoist _ _ _ | once _ _ _ | call _ _ | memo _ _ _ | inline _ | unit _ | rewritten _ _ => .isFalse id

/-- Code without a hash of slot content. -/
def Hashless (c : Code) : Prop :=
  c.Everywhere fun d => ¬d.IsHashed

instance : DecidablePred Hashless :=
  fun c => inferInstanceAs (Decidable (c.Everywhere _))

/-- Codes that are built alike under every naming. -/
inductive Drawn (V : Json → Prop) : (Naming → Code) → Prop
  | text {s : Naming → String} (h : Text.Drawn V s) : Drawn V fun I => .text (s I)
  | helper (h : Helper) : Drawn V fun _ => .helper h
  | append {a b : Naming → Code} (ha : Drawn V a) (hb : Drawn V b) : Drawn V fun I => .append (a I) (b I)
  | create (i : Nat) (dynamic : Bool) {target : String} (ht : Text.Drawn V fun _ => target)
      {data children : Naming → Code} (hd : Drawn V data) (hc : Drawn V children) :
      Drawn V fun I => .create i dynamic target (data I) (children I)
  | loop (i : Nat) {source params : String} (hs : Text.Drawn V fun _ => source) (hp : Text.Drawn V fun _ => params)
      {body : Naming → Code} (hb : Drawn V body) : Drawn V fun I => .loop i source params (body I)
  | branch (i : Nat) {test : String} (ht : Text.Drawn V fun _ => test) {yes no : Naming → Code} (hy : Drawn V yes)
      (hn : Drawn V no) : Drawn V fun I => .branch i test (yes I) (no I)
  | fragment (i : Nat) {body : Naming → Code} (hb : Drawn V body) : Drawn V fun I => .fragment i (body I)
  | outlet (i : Nat) {arguments : Naming → Code} (ha : Drawn V arguments) : Drawn V fun I => .outlet i (arguments I)
  | slots (i : Nat) (hint : UpdateHint) {descriptors : Naming → Code} (hd : Drawn V descriptors) :
      Drawn V fun I => .slots i (descriptors I) hint
  | hoist (i : Nat) (inLoop : Bool) {body : Naming → Code} (hb : Drawn V body) :
      Drawn V fun I => .hoist i inLoop (body I)
  | once (i : Nat) {key : String} (hk : Text.Drawn V fun _ => key) {body : Naming → Code} (hb : Drawn V body) :
      Drawn V fun I => .once i key (body I)
  | inline {body : Naming → Code} (hb : Drawn V body) : Drawn V fun I => .inline (body I)

/-! ## Lifting -/

variable {V : Json → Prop}

theorem drawn_enclosed {f : Naming → String} (hf : Text.Drawn V f) :
    Text.Drawn V fun I => "with(this)\x7breturn " ++ f I ++ "\x7d" :=
  ((Text.Drawn.own _ (by decide)).text hf).fixed "\x7d" (by decide)

/-- Under every naming, lifting gives a drawn text and adds drawn functions, as many and under the same numbers. -/
def Lifts (V : Json → Prop) (c : Naming → Code) : Prop :=
  ∀ n m, ∃ (r : Naming → String) (fs : List (Naming → String)) (m' : Nat), Text.Drawn V r ∧
    (∀ f ∈ fs, Text.Drawn V f) ∧ ∀ (I : Naming) (s : Lifted), s.functions.length = n → s.marks = m →
      ((c I).lift s).1.render I.names = r I ∧
      ((c I).lift s).2.functions.map (Code.render I.names) =
        s.functions.map (Code.render I.names) ++ fs.map (· I) ∧
      ((c I).lift s).2.marks = m'

namespace Lifts

variable {a b body c : Naming → Code}

/-- Code that nothing is lifted from. -/
theorem flat {r : Naming → String} (hr : Text.Drawn V r)
    (hc : ∀ I s, (c I).lift s = (c I, s) ∧ (c I).render I.names = r I) : Lifts V c := by
  refine fun n m => ⟨r, [], m, hr, List.forall_mem_nil _, fun I s _ hm => ?_⟩
  rw [(hc I s).1]
  exact ⟨(hc I s).2, (List.append_nil _).symm, hm⟩

/-- Code around one piece of code. -/
theorem around (hb : Lifts V body) {w : Naming → String → String}
    (hw : ∀ r, Text.Drawn V r → Text.Drawn V fun I => w I (r I))
    (hc : ∀ I s, ((c I).lift s).1.render I.names = w I (((body I).lift s).1.render I.names) ∧
      ((c I).lift s).2 = ((body I).lift s).2) : Lifts V c := by
  intro n m
  obtain ⟨r, fs, m', hr, hfs, hlift⟩ := hb n m
  refine ⟨_, fs, m', hw r hr, hfs, fun I s hn hm => ?_⟩
  obtain ⟨hrender, hrest⟩ := hlift I s hn hm
  rw [(hc I s).1, (hc I s).2, hrender]
  exact ⟨rfl, hrest⟩

/-- Two pieces of code, one lifted after the other, in code that holds both. -/
theorem after (ha : Lifts V a) (hb : Lifts V b) {w : Naming → String → String → String}
    (hw : ∀ r r', Text.Drawn V r → Text.Drawn V r' → Text.Drawn V fun I => w I (r I) (r' I))
    (hc : ∀ I s, ((c I).lift s).1.render I.names =
        w I (((a I).lift s).1.render I.names) (((b I).lift ((a I).lift s).2).1.render I.names) ∧
      ((c I).lift s).2 = ((b I).lift ((a I).lift s).2).2) : Lifts V c := by
  intro n m
  obtain ⟨r, fs, m', hr, hfs, hlift⟩ := ha n m
  obtain ⟨r', fs', m'', hr', hfs', hlift'⟩ := hb (n + fs.length) m'
  refine ⟨_, fs ++ fs', m'', hw r r' hr hr', List.forall_mem_append.mpr ⟨hfs, hfs'⟩, fun I s hn hm => ?_⟩
  obtain ⟨hrender, hfunctions, hmarks⟩ := hlift I s hn hm
  have hlength : ((a I).lift s).2.functions.length = n + fs.length := by
    simpa [hn] using congrArg List.length hfunctions
  obtain ⟨hrender', hfunctions', hmarks'⟩ := hlift' I _ hlength hmarks
  rw [(hc I s).1, (hc I s).2, hrender, hrender', hfunctions', hfunctions, List.map_append, List.append_assoc]
  exact ⟨rfl, rfl, hmarks'⟩

/-- A hoist is a call of the next function. -/
theorem hoist (hb : Lifts V body) (i : Nat) (inLoop : Bool) : Lifts V fun I => .hoist i inLoop (body I) := by
  intro n m
  obtain ⟨r, fs, m', hr, hfs, hlift⟩ := hb n m
  have hcall : Text.Drawn V fun I =>
      I .renderStatic ++ "(" ++ toString (n + fs.length) ++ (if inLoop then ",true" else "") ++ ")" := by
    refine (((Text.Drawn.hole .renderStatic).fixed "(" (by decide)).fixed _ (.toString_nat _)).fixed _ ?_
      |>.fixed ")" (by decide)
    cases inLoop <;> decide
  refine ⟨_, fs ++ [r], m', hcall, List.forall_mem_append.mpr ⟨hfs, List.forall_mem_singleton.mpr hr⟩,
    fun I s hn hm => ?_⟩
  obtain ⟨hrender, hfunctions, hmarks⟩ := hlift I s hn hm
  have hlength : ((body I).lift s).2.functions.length = n + fs.length := by
    simpa [hn] using congrArg List.length hfunctions
  simp only [lift, render, hlength, List.map_append, hfunctions, List.map_cons, List.map_nil, hrender,
    List.append_assoc, true_and]
  exact hmarks

/-- A once mark takes the next number. -/
theorem once (hb : Lifts V body) (i : Nat) {key : String} (hk : Text.Drawn V fun _ => key) :
    Lifts V fun I => .once i key (body I) := by
  intro n m
  obtain ⟨r, fs, m', hr, hfs, hlift⟩ := hb n m
  have hmemo : Text.Drawn V fun I => I .markOnce ++ "(" ++ r I ++ "," ++ toString m' ++ "," ++ key ++ ")" :=
    (((Text.Drawn.hole .markOnce).fixed "(" (by decide)).text hr |>.fixed "," (by decide)
      |>.fixed _ (.toString_nat m') |>.fixed "," (by decide)).text hk |>.fixed ")" (by decide)
  refine ⟨_, fs, m' + 1, hmemo, hfs, fun I s hn hm => ?_⟩
  obtain ⟨hrender, hfunctions, hmarks⟩ := hlift I s hn hm
  simp only [lift, render, hrender, hfunctions, hmarks, true_and]

/-- An inline template is lifted apart, with functions of its own. -/
theorem inline (hb : Lifts V body) : Lifts V fun I => .inline (body I) := by
  obtain ⟨r, fs, m', hr, hfs, hlift⟩ := hb 0 0
  have hfunction (f : Naming → String) (hf : Text.Drawn V f) :
      Text.Drawn V fun I => "function()\x7b" ++ ("with(this)\x7breturn " ++ f I ++ "\x7d") ++ "\x7d" :=
    ((Text.Drawn.own _ (by decide)).text (drawn_enclosed hf)).fixed "\x7d" (by decide)
  have hentry : Text.Drawn V fun I => "inlineTemplate:\x7brender:function()\x7b" ++
      ("with(this)\x7breturn " ++ r I ++ "\x7d") ++ "\x7d,staticRenderFns:[" ++ String.intercalate ","
        ((fs.map fun f I => "function()\x7b" ++ ("with(this)\x7breturn " ++ f I ++ "\x7d") ++ "\x7d").map (· I)) ++
      "]\x7d" := by
    refine (((Text.Drawn.own _ (by decide)).text (drawn_enclosed hr)).fixed _ (by decide)).text
      (.intercalate (by decide) ?_) |>.fixed _ (by decide)
    exact List.forall_mem_map.mpr fun f hf => hfunction f (hfs f hf)
  refine fun n m => ⟨_, [], m, hentry, List.forall_mem_nil _, fun I s _ hm => ?_⟩
  obtain ⟨hrender, hfunctions, -⟩ := hlift I {} rfl rfl
  refine ⟨?_, (List.append_nil _).symm, hm⟩
  show "inlineTemplate:\x7brender:function()\x7b" ++
      ("with(this)\x7breturn " ++ ((body I).lift {}).1.render I.names ++ "\x7d") ++ "\x7d,staticRenderFns:[" ++
      (join "," (((body I).lift {}).2.functions.map fun f =>
        Code.text "function()\x7b" ++ enclosed f ++ Code.text "\x7d")).render I.names ++ "]\x7d" = _
  have hown : ((body I).lift {}).2.functions.map (Code.render I.names) = fs.map (· I) := by simpa using hfunctions
  have henclose (cs : List Code) : (cs.map fun f => Code.text "function()\x7b" ++ enclosed f ++ Code.text "\x7d").map
      (Code.render I.names) = (cs.map (Code.render I.names)).map fun t =>
        "function()\x7b" ++ ("with(this)\x7breturn " ++ t ++ "\x7d") ++ "\x7d" := by
    rw [List.map_map, List.map_map]
    rfl
  rw [hrender, render_join, henclose, hown, List.map_map, List.map_map]
  rfl

end Lifts

/-- Drawn code without a hash lifts alike under every naming. -/
theorem Drawn.lifts {c : Naming → Code} (hc : Drawn V c) {I : Naming} (hhash : (c I).Hashless) : Lifts V c := by
  induction hc with
  | text h => exact .flat h fun _ _ => ⟨rfl, rfl⟩
  | helper h => exact .flat (.hole h) fun _ _ => ⟨rfl, rfl⟩
  | append _ _ iha ihb =>
    exact .after (iha hhash.2.1) (ihb hhash.2.2) (w := fun _ r r' => r ++ r') (fun _ _ hr hr' => hr.text hr')
      fun _ _ => ⟨rfl, rfl⟩
  | create i dynamic ht _ _ ihd ihc =>
    have hcreate {r r' : Naming → String} (hr : Text.Drawn V r) (hr' : Text.Drawn V r') :=
      (((Text.Drawn.hole .create).fixed "(" (by decide)).text ht).text hr |>.text hr' |>.fixed ")" (by decide)
    cases dynamic with
    | false =>
      exact .after (ihd hhash.2.1) (ihc hhash.2.2) (w := fun I r r' => I .create ++ "(" ++ _ ++ r ++ r' ++ ")")
        (fun _ _ hr hr' => hcreate hr hr') fun _ _ => ⟨rfl, rfl⟩
    | true =>
      -- The children come first.
      exact .after (ihc hhash.2.2) (ihd hhash.2.1) (w := fun I r' r => I .create ++ "(" ++ _ ++ r ++ r' ++ ")")
        (fun _ _ hr' hr => hcreate hr hr') fun _ _ => ⟨rfl, rfl⟩
  | loop i hs hp _ ih =>
    refine .around (ih hhash.2) (w := fun I r => I .renderList ++ "((" ++ _ ++ "),function(" ++ _ ++ ")\x7breturn " ++
      r ++ "\x7d)") (fun _ hr => ?_) fun _ _ => ⟨rfl, rfl⟩
    exact ((((Text.Drawn.hole .renderList).fixed "((" (by decide)).text hs).fixed _ (by decide)).text hp
      |>.fixed _ (by decide) |>.text hr |>.fixed _ (by decide)
  | branch i ht _ _ ihy ihn =>
    refine .after (ihy hhash.2.1) (ihn hhash.2.2) (w := fun _ r r' => "(" ++ _ ++ ")?" ++ r ++ ":" ++ r')
      (fun _ _ hr hr' => ?_) fun _ _ => ⟨rfl, rfl⟩
    exact (((Text.Drawn.own _ (by decide)).text ht).fixed _ (by decide)).text hr |>.fixed _ (by decide) |>.text hr'
  | fragment i _ ih =>
    exact .around (ih hhash.2) (w := fun _ r => r) (fun _ hr => hr) fun _ _ => ⟨rfl, rfl⟩
  | outlet i _ ih =>
    refine .around (ih hhash.2) (w := fun I r => I .renderSlot ++ "(" ++ r ++ ")") (fun _ hr => ?_)
      fun _ _ => ⟨rfl, rfl⟩
    exact ((Text.Drawn.hole .renderSlot).fixed "(" (by decide)).text hr |>.fixed ")" (by decide)
  | slots i hint _ ih =>
    refine .around (ih hhash.2) (w := fun I r => I .resolveScopedSlots ++ "([" ++ r ++ "]" ++ hintText hint r ++ ")")
      (fun _ hr => ?_) fun _ _ => ⟨rfl, rfl⟩
    have hlist := ((Text.Drawn.hole (V := V) .resolveScopedSlots).fixed "([" (by decide)).text hr
      |>.fixed "]" (by decide)
    cases hint with
    | none => exact hlist.fixed "" (by decide) |>.fixed ")" (by decide)
    | force => exact hlist.fixed ",null,true" (by decide) |>.fixed ")" (by decide)
    | keyed => exact absurd trivial hhash.1
  | hoist i inLoop _ ih => exact (ih hhash.2).hoist i inLoop
  | once i hk _ ih => exact (ih hhash.2).once i hk
  | inline _ ih => exact (ih hhash.2).inline

/-- One outline gives the programs of drawn code without a hash. -/
theorem Drawn.program {c : Naming → Code} (hc : Drawn V c) {I : Naming} (hhash : (c I).Hashless) :
    ∃ o : Outline, o.Sound V ∧ ∀ I : Naming, (c I).program I.names = o.fill I.names := by
  have heach (fs : List (Naming → String)) (hfs : ∀ f ∈ fs, Text.Drawn V f) :
      ∃ sts : List Stencil, (∀ st ∈ sts, st.Sound V) ∧ ∀ I,
        fs.map (fun f => "with(this)\x7breturn " ++ f I ++ "\x7d") = sts.map (Stencil.fill I.names) := by
    induction fs with
    | nil => exact ⟨[], List.forall_mem_nil _, fun _ => rfl⟩
    | cons f fs ih =>
      obtain ⟨hf, hfs⟩ := List.forall_mem_cons.mp hfs
      obtain ⟨st, hst, hfill⟩ := drawn_enclosed hf
      obtain ⟨sts, hsts, hfills⟩ := ih hfs
      exact ⟨st :: sts, List.forall_mem_cons.mpr ⟨hst, hsts⟩, fun I => by simp only [List.map_cons, hfill, hfills]⟩
  obtain ⟨r, fs, _, hr, hfs, hlift⟩ := hc.lifts hhash 0 0
  obtain ⟨st, hst, hfill⟩ := drawn_enclosed hr
  obtain ⟨sts, hsts, hfills⟩ := heach fs hfs
  refine ⟨⟨st, sts⟩, ⟨hst, hsts⟩, fun I => ?_⟩
  obtain ⟨hrender, hfunctions, -⟩ := hlift I {} rfl rfl
  have hown : ((c I).lift {}).2.functions.map (Code.render I.names) = fs.map (· I) := by simpa using hfunctions
  rw [Outline.fill, Program.mk.injEq]
  refine ⟨?_, ?_⟩
  · rw [← hfill]
    exact congrArg (fun r => "with(this)\x7breturn " ++ r ++ "\x7d") hrender
  · rw [← hfills]
    have hmap := congrArg (List.map fun t => "with(this)\x7breturn " ++ t ++ "\x7d") hown
    rw [List.map_map, List.map_map] at hmap
    exact hmap

end Code

end TemplateCompiler
