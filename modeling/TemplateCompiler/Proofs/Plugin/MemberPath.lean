import TemplateCompiler.Proofs.Plugin.Target
import TemplateCompiler.Proofs.Text.Balanced

/-!
# Member paths

A two-way binding assigns to a path: a name, or a member of a path, by a name or by an index between brackets.
The scan of an index knows square brackets and quotes, but neither other brackets nor backslashes. In an index that
is balanced and has no backslashes, it is in step with a reader that knows them all (`Follows`), so these paths are
split at their last access, and what is assigned to them is balanced.
-/

namespace TemplateCompiler.ModelPath

open Text

/-- A name in a path. -/
structure IsName (s : String) : Prop where
  ne_nil : s.toList ≠ []
  inert : Inert s.toList
  pointless : '.' ∉ s.toList
  unblank : ∀ c ∈ s.toList, isBlank c = false

instance : DecidablePred IsName := fun s =>
  have := List.decidableBAll (isBlank · = false) s.toList
  decidable_of_iff (s.toList ≠ [] ∧ Inert s.toList ∧ '.' ∉ s.toList ∧ ∀ c ∈ s.toList, isBlank c = false)
    ⟨fun ⟨hne, hinert, hpoint, hblank⟩ => ⟨hne, hinert, hpoint, hblank⟩,
      fun h => ⟨h.ne_nil, h.inert, h.pointless, h.unblank⟩⟩

inductive MemberPath : String → Prop
  | name {x : String} (hx : IsName x) : MemberPath x
  | point {p x : String} (hp : MemberPath p) (hx : IsName x) : MemberPath (p ++ "." ++ x)
  | index {p k : String} (hp : MemberPath p) (hk : Balanced k) (hb : '\\' ∉ k.toList) :
      MemberPath (p ++ "[" ++ k ++ "]")

/-! ## Balanced indices -/

/-- How many brackets the scan counts for a reader between the brackets of an index. -/
def depthOf (q : Reader) : Nat :=
  q.opened.count .square + 1

/-- The scan stands where the reader does. -/
def Follows (q : Reader) (place : Place) : Prop :=
  match q.mode with
  | .code => place = .inside (depthOf q)
  | .quoted mark => place = .quotedInside (depthOf q) mark.char
  | .escaped _ => False

theorem isPlain_of_token {c : Char} (h : token c = .other) : isPlain c = true := by
  have hne (d : Char) (hd : token d ≠ .other) : c ≠ d := by
    rintro rfl
    exact hd h
  simp [isPlain, isQuote, hne _ (show token '"' ≠ .other by decide), hne _ (show token '\'' ≠ .other by decide),
    hne _ (show token '[' ≠ .other by decide), hne _ (show token ']' ≠ .other by decide)]

theorem isQuote_char (mark : Quote) : isQuote mark.char = true := by
  cases mark <;> rfl

/-- Outside of string literals. -/
theorem follows_code {q' : Reader} {c : Char} {opened : List Bracket} (hc : c ≠ '\\')
    (hq : Reader.step ⟨.code, opened⟩ c = some q') :
    ∃ n : Nesting, Follows q' n.place ∧ Nesting.step ⟨opened.count .square, none⟩ c = some n := by
  unfold Reader.step at hq
  cases ht : token c with
  | quote mark =>
    obtain rfl := eq_of_token_quote ht
    simp only [ht, Option.some.injEq] at hq
    subst hq
    exact ⟨⟨opened.count Bracket.square, some mark.char⟩, rfl, by simp [Nesting.step, isQuote_char]⟩
  | opening b =>
    obtain rfl := eq_of_token_opening ht
    simp only [ht, Option.some.injEq] at hq
    subst hq
    refine ⟨⟨(b :: opened).count Bracket.square, none⟩, rfl, ?_⟩
    cases b <;> simp [Nesting.step, Bracket.opener, isQuote]
  | closing b =>
    obtain rfl := eq_of_token_closing ht
    simp only [ht] at hq
    split at hq
    · next hb =>
      obtain ⟨rest, rfl⟩ := List.head?_eq_some_iff.mp hb
      cases hq
      refine ⟨⟨rest.count Bracket.square, none⟩, rfl, ?_⟩
      cases b <;> simp [Nesting.step, Bracket.closer, isQuote]
    · cases hq
  | backslash => exact absurd (eq_of_token_backslash ht) hc
  | other =>
    simp only [ht, Option.some.injEq] at hq
    subst hq
    exact ⟨⟨opened.count Bracket.square, none⟩, rfl, Nesting.step_plain (isPlain_of_token ht) _⟩

/-- In a string literal. -/
theorem follows_quoted {q' : Reader} {c : Char} {mark : Quote} {opened : List Bracket} (hc : c ≠ '\\')
    (hq : Reader.step ⟨.quoted mark, opened⟩ c = some q') :
    ∃ n : Nesting, Follows q' n.place ∧ Nesting.step ⟨opened.count .square, some mark.char⟩ c = some n := by
  by_cases hmark : c = mark.char
  · subst hmark
    have hq' : q' = ⟨.code, opened⟩ := by
      cases mark <;> exact (Option.some.inj hq).symm
    subst hq'
    exact ⟨⟨opened.count Bracket.square, none⟩, rfl, by simp [Nesting.step]⟩
  · have hstay : q' = ⟨.quoted mark, opened⟩ := by
      unfold Reader.step at hq
      cases ht : token c with
      | quote mark' =>
        have hne : mark' ≠ mark := fun h => hmark (h ▸ eq_of_token_quote ht)
        simp only [ht, if_neg hne, Option.some.injEq] at hq
        exact hq.symm
      | backslash => exact absurd (eq_of_token_backslash ht) hc
      | opening | closing | other =>
        simp only [ht, Option.some.injEq] at hq
        exact hq.symm
    subst hstay
    exact ⟨⟨opened.count Bracket.square, some mark.char⟩, rfl, by simp [Nesting.step, hmark]⟩

theorem follows_step {q q' : Reader} {n : Nesting} {c : Char} (h : Follows q n.place) (hc : c ≠ '\\')
    (hq : q.step c = some q') : ∃ n' : Nesting, Follows q' n'.place ∧ n.step c = some n' := by
  obtain ⟨mode, opened⟩ := q
  cases mode with
  | code =>
    obtain rfl : n = ⟨opened.count .square, none⟩ := Nesting.place_injective h
    exact follows_code hc hq
  | quoted mark =>
    obtain rfl : n = ⟨opened.count .square, some mark.char⟩ := Nesting.place_injective h
    exact follows_quoted hc hq
  | escaped mark => exact h.elim

theorem follows_run {q q' : Reader} {n : Nesting} {cs : List Char} (h : Follows q n.place) (hc : '\\' ∉ cs)
    (hq : q.read cs = some q') : ∃ n' : Nesting, Follows q' n'.place ∧ n.run cs = some n' := by
  induction cs generalizing q n with
  | nil =>
    cases hq
    exact ⟨n, h, rfl⟩
  | cons c cs ih =>
    obtain ⟨m, hm, hq⟩ := Option.bind_eq_some_iff.mp hq
    rw [List.mem_cons, not_or] at hc
    obtain ⟨n', hn', hstep⟩ := follows_step h (Ne.symm hc.1) hm
    rw [Nesting.run_cons, hstep]
    exact ih hn' hc.2 hq

theorem isIndex_of_balanced {k : String} (hk : Balanced k) (hb : '\\' ∉ k.toList) : IsIndex k.toList := by
  obtain ⟨n, hn, hrun⟩ := follows_run (q := {}) (n := {}) rfl hb hk
  obtain rfl : n = {} := Nesting.place_injective hn
  exact isIndex_iff.mpr hrun

theorem IsName.isIdent {x : String} (hx : IsName x) : IsIdent x := by
  refine ⟨hx.ne_nil, List.all_eq_true.mpr fun c hc => ?_⟩
  have hplain := isPlain_of_token (hx.inert c hc)
  have hpoint : c ≠ '.' := fun h => hx.pointless (h ▸ hc)
  simp only [isPlain] at hplain
  simp [isIdentChar, hplain, hpoint, hx.unblank c hc]

theorem MemberPath.isPath {p : String} (h : MemberPath p) : IsPath p := by
  induction h with
  | name hx => exact .ident hx.isIdent
  | point _ hx ih => exact .point ih hx.isIdent
  | index _ hk hb ih => exact .index ih (isIndex_of_balanced hk hb)

/-! ## Assignments -/

theorem IsName.quotable {x : String} (hx : IsName x) : Quotable x := by
  intro c hc
  rw [isQuotable, hx.inert c hc]

theorem MemberPath.balanced {p : String} (h : MemberPath p) : Balanced p := by
  induction h with
  | name hx => exact hx.inert.balanced
  | point _ hx ih => exact ih |>.fixed "." rfl |>.code hx.inert.balanced
  | index _ hk _ ih => exact ih |>.fixed "[" rfl |>.code hk |>.fixed "]" rfl

/-- The code that assigns to a path, or to nothing. -/
theorem balanced_assignment {names : Names} (hnames : Balanced (names .set)) {target value : String}
    (ht : target = "" ∨ MemberPath target) (hv : Balanced value) :
    Balanced (assignment names target value) := by
  unfold assignment
  rcases ht with rfl | ht
  · exact Reads.start "=" rfl |>.code hv
  cases ht with
  | name hx =>
    rw [parse_ident hx.isIdent]
    exact hx.inert.balanced |>.fixed "=" rfl |>.code hv
  | point hp hx =>
    rw [parse_point hp.isPath hx.isIdent]
    exact hnames |>.fixed "(" rfl |>.code hp.balanced |>.fixed ", " rfl
      |>.code (Reads.start "\"" rfl |>.quoted hx.quotable |>.fixed "\"" rfl) |>.fixed ", " rfl
      |>.code hv |>.fixed ")" rfl
  | index hp hk hb =>
    rw [parse_index hp.isPath (isIndex_of_balanced hk hb)]
    exact hnames |>.fixed "(" rfl |>.code hp.balanced |>.fixed ", " rfl |>.code hk |>.fixed ", " rfl
      |>.code hv |>.fixed ")" rfl

end TemplateCompiler.ModelPath
