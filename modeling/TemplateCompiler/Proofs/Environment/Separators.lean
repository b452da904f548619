import TemplateCompiler.Proofs.Environment.Reuse
import TemplateCompiler.Proofs.Generator.Admitted
import TemplateCompiler.Proofs.Generator.Literals
import TemplateCompiler.Proofs.Plugin.Spelled

/-!
# Line separators in programs

With the standard modules and directives, the functions of a program are over every alphabet that the template and the
names of the helpers are over (`Environment.over_compile`). Texts are written with their line separators escaped and
comments are not, so that the separators of a program are those of comments (`Environment.separators_from_comments`).
-/

namespace TemplateCompiler

open Text

/-! ## Standard environments -/

/-- The names of helpers are over `P`, and all modules and directives are standard ones. -/
structure Environment.StandardOver (P : Char → Prop) (env : Environment) : Prop where
  names : env.names.Over P
  modules : ∀ m ∈ env.modules, m ∈ CompilerModule.standard
  directives : ∀ name p, Table.get? name env.directives = some p →
    ∃ names reserved, Names.Over P names ∧ Table.get? name (DirectivePlugin.standard names reserved) = some p

theorem CompilerModule.over_data {P : Char → Prop} (hP : Alphabet P) : ∀ m ∈ CompilerModule.standard,
    ∀ {e : Element}, e.Over P → Text.Over P (m.data e) := by
  intro m hm e he
  have hpart {v : Json} (hv : v ∈ e.expressions) {key close : String} (hkey : key.toList.all isPrintable = true)
      (hclose : close.toList.all isPrintable = true) :
      Text.Over P ((v.filled?.map fun s => key ++ s ++ close).getD "") := by
    refine (he.expressions v hv).filledMap hP fun s hs => ?_
    exact over_append.mpr ⟨over_append.mpr ⟨hP.fixed hkey, hs⟩, hP.fixed hclose⟩
  simp only [CompilerModule.standard, List.mem_cons, List.not_mem_nil, or_false] at hm
  rcases hm with rfl | rfl
  · refine over_append.mpr ⟨hpart (v := e.staticClass) ?_ ?_ ?_, hpart (v := e.classBinding) ?_ ?_ ?_⟩
    all_goals first | decide | simp [Element.expressions]
  · refine over_append.mpr ⟨hpart (v := e.staticStyle) ?_ ?_ ?_, hpart (v := e.styleBinding) ?_ ?_ ?_⟩
    all_goals first | decide | simp [Element.expressions]

namespace Environment

variable {P : Char → Prop} {env : Environment} {t : Tree} {r : Compiled}

theorem StandardOver.mono {Q : Char → Prop} (h : env.StandardOver P) (hPQ : ∀ c, P c → Q c) : env.StandardOver Q where
  names helper := (h.names helper).mono hPQ
  modules := h.modules
  directives name p hp := by
    obtain ⟨names, reserved, hn, hp⟩ := h.directives name p hp
    exact ⟨names, reserved, fun helper => (hn helper).mono hPQ, hp⟩

theorem StandardOver.spelling (h : env.StandardOver P) (hP : Alphabet P) : env.options.Spelling P where
  tidy name p hp site e d := by
    obtain ⟨names, reserved, -, hp⟩ := h.directives name p hp
    exact unbound_standard hp site e d
  data m hm _ he := CompilerModule.over_data hP m (h.modules m hm) he
  transform m hm := CompilerModule.transform_standard (h.modules m hm)
  directives hp site _ he hd := by
    obtain ⟨names, reserved, hn, hp⟩ := h.directives _ _ hp
    exact over_standard hP hn hp site he hd

/-- A program has the characters of its template, of the names of the helpers, and of the compiler's own code. -/
theorem over_compile (hP : Alphabet P) (henv : env.StandardOver P) (ht : t.Over P)
    (h : (env.compile t).result = .ok r) :
    Text.Over P r.program.render ∧ ∀ f ∈ r.program.functions, Text.Over P f := by
  obtain ⟨t₁, log, c, hprepared, hc, rfl⟩ := result_compile_iff.mp h
  let S : Rubric := { tree := t₁, letters := P, answers := fun _ _ => True }
  have hS : S.Sound := ⟨hP, fun _ _ => ⟨trivial, fun _ _ _ => trivial⟩⟩
  have ht₁ : t₁.Over P := ht.of_unflag (unflag_prepared hprepared)
  exact Code.over_program hP henv.names (S.admits_generate hS ht₁ (henv.spelling hP) hc).over

end Environment

/-! ## Separators -/

namespace Text

/-- The line and the paragraph separator, which end a line of code. -/
def isSeparator (c : Char) : Bool :=
  c == '\u2028' || c == '\u2029'

theorem isSeparator_iff {c : Char} : isSeparator c = true ↔ c.toNat = 8232 ∨ c.toNat = 8233 := by
  have hpoint (d : Char) : c = d ↔ c.toNat = d.toNat :=
    ⟨congrArg _, fun h => by rw [← Char.ofNat_toNat c, h, Char.ofNat_toNat]⟩
  rw [isSeparator, Bool.or_eq_true, beq_iff_eq, beq_iff_eq, hpoint, hpoint]
  rfl

/-- No capital form of a word character has a separator in it. -/
theorem isSeparator_capital {c d : Char} (hc : isWord c = true) (hd : d ∈ capital c) : isSeparator d = false := by
  have hpoint {n : Nat} (hn : n ≠ 8232 ∧ n ≠ 8233) : isSeparator (Char.ofNat n) = false := by
    rw [Bool.eq_false_iff, Ne, isSeparator_iff, not_or]
    by_cases hvalid : n.isValidChar
    · rw [Char.ofNat, dif_pos hvalid]
      exact hn
    · rw [Char.ofNat, dif_neg hvalid]
      decide
  have hword : isWord '\u2028' = false ∧ isWord '\u2029' = false := by decide +kernel
  have hbasic : ∀ n < 128, isSeparator (Char.ofNat n).toUpper = false := by decide +kernel
  have hlong : ∀ p ∈ longCapitals, ∀ n ∈ p.2, n ≠ 8232 ∧ n ≠ 8233 := by decide +kernel
  have hruns : ∀ r ∈ capitalRuns, 8233 < r.first + r.offset ∨ r.last + r.offset < 8232 := by decide +kernel
  rcases mem_capital hd with ⟨hlow, rfl⟩ | ⟨p, hp, n, hn, rfl⟩ | ⟨r, hr, hcovers, rfl⟩ | rfl
  · have h := hbasic c.toNat hlow
    rwa [Char.ofNat_toNat] at h
  · exact hpoint (hlong p hp n hn)
  · have hrun := hruns r hr
    simp only [CapitalRun.covers, Bool.and_eq_true, decide_eq_true_eq] at hcovers
    exact hpoint (by omega)
  · rw [isSeparator, Bool.or_eq_false_iff, beq_eq_false_iff_ne, beq_eq_false_iff_ne]
    constructor
    · rintro rfl
      exact absurd hc (by rw [hword.1]; decide)
    · rintro rfl
      exact absurd hc (by rw [hword.2]; decide)

/-- A character that is no separator is whatever separators have to be. -/
theorem of_not_separator (K : Char → Prop) (c : Char) (hc : isSeparator c = false) : isSeparator c = true → K c := by
  rw [hc]
  nofun

/-- Whatever else they may be, characters that are no separators are enough for the compiler's own code. -/
theorem alphabet_separators (K : Char → Prop) : Alphabet fun c => isSeparator c = true → K c where
  printable c hc hs := by
    rw [isSeparator_iff] at hs
    simp only [isPrintable, Bool.and_eq_true, decide_eq_true_eq] at hc
    omega
  capital _ _ hc d hd := of_not_separator K d (isSeparator_capital hc hd)

end Text

/-- What stands in texts and comments aside, there are no separators. -/
def Content.Unbroken : Content → Prop
  | .element e => ∀ v ∈ e.values, v.Over fun c => isSeparator c = false
  | .expression code _ => code.Over fun c => isSeparator c = false
  | .text _ | .comment _ => True

instance : DecidablePred Content.Unbroken
  | .element e => List.decidableBAll (fun v : Json => v.Over fun c => isSeparator c = false) e.values
  | .expression code _ => inferInstanceAs (Decidable (code.Over fun c => isSeparator c = false))
  | .text _ | .comment _ => isTrue trivial

theorem Json.mem_compact_separator {c : Char} (hc : isSeparator c = true) (v : Json) :
    c ∈ v.compact.toList ↔ c ∈ v.letters := by
  simp only [isSeparator, Bool.or_eq_true, beq_iff_eq] at hc
  rcases hc with rfl | rfl
  · exact mem_compact_iff (by decide) (by decide) v
  · exact mem_compact_iff (by decide) (by decide) v

/-- The character stands in a comment. -/
def Tree.InComment (t : Tree) (c : Char) : Prop :=
  ∃ i n v, t.node? i = some n ∧ n.content = .comment v ∧ c ∈ v.letters

/-- The separators in the code of such a template are those of its comments. -/
theorem Tree.over_separators {t : Tree} (h : t.Contents Content.Unbroken) :
    t.Over fun c => isSeparator c = true → t.InComment c := by
  intro i n hn
  have hcontent := h i n hn
  unfold Content.Over
  split
  · next e he =>
    rw [he] at hcontent
    exact Element.over_of_values fun v hv c hc => of_not_separator t.InComment c (hcontent v hv c hc)
  · next code raw he =>
    rw [he] at hcontent
    exact fun c hc => of_not_separator t.InComment c (hcontent c hc)
  · next v _ =>
    intro c hc hs
    obtain ⟨hline, hparagraph, -⟩ := Json.forall_escapeSeparators v c hc
    simp [isSeparator, hline, hparagraph] at hs
  · next v he =>
    intro c hc hs
    exact ⟨i, n, v, hn, he, (Json.mem_compact_separator hs v).mp hc⟩

theorem Generator.outcome_emitNode_comment {self : Emit} {i : Nat} {g : Generation} {n : Node} {v : Json}
    (hn : g.tree.node? i = some n) (hv : n.content = .comment v) :
    outcome (emitNode self i) g = (.ok (Code.callHelper .empty (Code.text v.compact)), g) := by
  rw [emitNode, outcome_bind_of_ok (outcome_nodeAt hn), hv]
  rfl

namespace Environment

open Generator

/-- In a template that has line separators in texts and comments only, those in the program come from comments; and
the literal that a comment becomes has all separators of the comment. -/
theorem separators_from_comments {env : Environment} (henv : env.StandardOver fun c => isSeparator c = false)
    {t : Tree} (ht : t.Contents Content.Unbroken) {r : Compiled} (h : (env.compile t).result = .ok r) :
    (∀ f ∈ r.program.render :: r.program.functions, ∀ c ∈ f.toList, isSeparator c = true → t.InComment c) ∧
    ∀ (self : Emit) (i : Nat) (g : Generation) (n : Node) (v : Json), g.tree.node? i = some n →
      n.content = .comment v → ∃ code literal, outcome (emitNode self i) g = (.ok code, g) ∧
        (∀ names, code.render names = names .empty ++ "(" ++ literal ++ ")") ∧
        ∀ c, isSeparator c = true → (c ∈ literal.toList ↔ c ∈ v.letters) := by
  refine ⟨?_, fun self i g n v hn hv => ?_⟩
  · have henv := henv.mono (of_not_separator t.InComment)
    exact List.forall_mem_cons.mpr (over_compile (alphabet_separators _) henv (Tree.over_separators ht) h)
  · refine ⟨_, v.compact, outcome_emitNode_comment hn hv, fun _ => rfl, fun c hc => ?_⟩
    exact Json.mem_compact_separator hc v

theorem standardOver_default : StandardOver (fun c => isSeparator c = false) {} := by
  have hnames : Names.standard.Over fun c => isSeparator c = false := by
    intro h
    cases h <;> decide
  exact ⟨hnames, fun _ hm => hm, fun _ _ hp => ⟨Names.standard, Tag.isReserved, hnames, hp⟩⟩

/-- A paragraph with a text and a comment in two lines each, and a loop over lines. -/
def letter : Json :=
  let lines : Json := .object [("tag", "li"), ("for", "lines"), ("alias", "line"),
    ("children", .array [.object [("type", .int 2), ("expression", "_s(line)")]])]
  let text : Json := .object [("type", .int 3), ("text", "Dear\u2028reader")]
  let note : Json := .object [("type", .int 3), ("isComment", .bool true), ("text", "to\u2029do")]
  .object [("tag", "div"), ("children", .array [lines,
    .object [("tag", "p"), ("children", .array [text, note, .object [("tag", "br")]])]])]

theorem separators_from_comments_letter : StandardOver (fun c => isSeparator c = false) {} ∧ ∃ t r,
    (Tree.load letter).1 = .ok t ∧ t.Contents Content.Unbroken ∧ (compile {} t).result = .ok r ∧
    r.program.render = "with(this)\x7breturn _c('div',[_l((lines),function(line)" ++
      "\x7breturn _c('li',[_v(_s(line))])\x7d),_m(0)],2)\x7d" ∧
    r.program.functions = ["with(this)\x7breturn _c('p',[_v(\"Dear\\u2028reader\"),_e(\"to\u2029do\"),_c('br')])\x7d"] ∧
    t.InComment '\u2029' := by
  have h : test letter (fun t c => decide ((∀ n ∈ t.nodes.toList, n.content.Unbroken) ∧
      (c.program Names.standard).render = "with(this)\x7breturn _c('div',[_l((lines),function(line)" ++
        "\x7breturn _c('li',[_v(_s(line))])\x7d),_m(0)],2)\x7d" ∧
      (c.program Names.standard).functions =
        ["with(this)\x7breturn _c('p',[_v(\"Dear\\u2028reader\"),_e(\"to\u2029do\"),_c('br')])\x7d"])) = some true := by
    decide +kernel
  obtain ⟨t, t₁, log, c, hload, -, -, hr, h⟩ := exists_of_test h
  obtain ⟨hcontents, hrender, hfunctions⟩ := of_decide_eq_true h
  have ht : t.Contents Content.Unbroken :=
    fun i n hn => hcontents n (Array.mem_toList_iff.mpr (Array.mem_of_getElem? hn))
  have hcomment := (separators_from_comments standardOver_default ht hr).1
  refine ⟨standardOver_default, t, _, hload, ht, hr, hrender, hfunctions, ?_⟩
  have hmem := List.mem_cons_of_mem (c.program Names.standard).render (hfunctions ▸ List.mem_singleton_self _)
  exact hcomment _ hmem '\u2029' (by decide) (by decide)

end Environment

end TemplateCompiler
