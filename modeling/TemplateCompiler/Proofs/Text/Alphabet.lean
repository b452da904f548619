import TemplateCompiler.Helper
import TemplateCompiler.Text.Blank
import TemplateCompiler.Text.Capital

/-!
# Texts over an alphabet

`Over P s` says that every character of `s` has `P`. What generated code adds to the texts of a template is printable
ASCII, except for the capital letters in camel case names. `Alphabet P` says that `P` allows for both.
-/

namespace TemplateCompiler.Text

/-- The ASCII characters from the space to the tilde. -/
def isPrintable (c : Char) : Bool :=
  32 ≤ c.toNat && c.toNat < 127

/-- Every character has `P`. -/
def Over (P : Char → Prop) (s : String) : Prop :=
  ∀ c ∈ s.toList, P c

structure Alphabet (P : Char → Prop) : Prop where
  printable : ∀ c, isPrintable c = true → P c
  capital : ∀ c, P c → isWord c = true → ∀ d ∈ capital c, P d

variable {P : Char → Prop} {s t : String}

instance [DecidablePred P] : Decidable (Over P s) :=
  List.decidableBAll P s.toList

theorem over_empty : Over P "" :=
  List.forall_mem_nil P

@[simp] theorem over_append : Over P (s ++ t) ↔ Over P s ∧ Over P t := by
  rw [Over, String.toList_append, List.forall_mem_append]
  rfl

@[simp] theorem over_ofList {cs : List Char} : Over P (String.ofList cs) ↔ ∀ c ∈ cs, P c := by
  rw [Over, String.toList_ofList]

theorem Over.of_subset (h : Over P s) {cs : List Char} (hcs : cs ⊆ s.toList) : Over P (String.ofList cs) :=
  over_ofList.mpr fun c hc => h c (hcs hc)

theorem over_intercalate {separator : String} (hseparator : Over P separator) {ss : List String}
    (h : ∀ s ∈ ss, Over P s) : Over P (String.intercalate separator ss) := by
  induction ss with
  | nil => exact over_empty
  | cons s ss ih =>
    obtain ⟨hs, hss⟩ := List.forall_mem_cons.mp h
    cases ss with
    | nil => rwa [String.intercalate_singleton]
    | cons t ts =>
      rw [String.intercalate_cons_cons, over_append, over_append]
      exact ⟨⟨hs, hseparator⟩, ih hss⟩

theorem Over.trim (h : Over P s) : Over P (trim s) := by
  refine h.of_subset fun c hc => ?_
  rw [trimChars, List.mem_reverse] at hc
  exact (List.dropWhile_subset _) (List.mem_reverse.mp ((List.dropWhile_subset _) hc))

theorem Over.mono {Q : Char → Prop} (h : Over P s) (hPQ : ∀ c, P c → Q c) : Over Q s :=
  fun c hc => hPQ c (h c hc)

/-- What stands in the capital form of a character. -/
theorem mem_capital {c d : Char} (hd : d ∈ capital c) :
    c.toNat < 128 ∧ d = c.toUpper ∨ (∃ p ∈ longCapitals, ∃ n ∈ p.2, d = Char.ofNat n) ∨
      (∃ r ∈ capitalRuns, r.covers c.toNat = true ∧ d = Char.ofNat (c.toNat + r.offset).toNat) ∨ d = c := by
  unfold capital at hd
  split at hd
  · next hc => exact .inl ⟨hc, List.mem_singleton.mp hd⟩
  split at hd
  · next points hp =>
    obtain ⟨l, l', hl, -⟩ := List.lookup_eq_some_iff.mp hp
    obtain ⟨n, hn, rfl⟩ := List.mem_map.mp hd
    exact .inr (.inl ⟨(c.toNat, points), by rw [hl]; simp, n, hn, rfl⟩)
  split at hd
  · next r hr =>
    have hcovers : r.covers c.toNat = true := by simpa using List.find?_some hr
    exact .inr (.inr (.inl ⟨r, List.mem_of_find?_eq_some hr, hcovers, List.mem_singleton.mp hd⟩))
  · exact .inr (.inr (.inr (List.mem_singleton.mp hd)))

namespace Alphabet

variable (hP : Alphabet P)

include hP

/-- A piece of text that the compiler writes. -/
theorem fixed (h : s.toList.all isPrintable = true) : Over P s :=
  fun c hc => hP.printable c (List.all_eq_true.mp h c hc)

theorem camelize (h : Over P s) : Over P (camelize s) := by
  have hchars (cs : List Char) (h : ∀ c ∈ cs, P c) : ∀ c ∈ camelChars cs, P c := by
    induction cs using camelChars.induct with
    | case1 c rest hc ih =>
      simp only [List.forall_mem_cons] at h
      rw [camelChars, if_pos hc, List.forall_mem_append]
      exact ⟨hP.capital c h.2.1 hc, ih h.2.2⟩
    | case2 c rest hc ih =>
      rw [camelChars, if_neg hc, List.forall_mem_cons]
      rw [List.forall_mem_cons] at h
      exact ⟨h.1, ih h.2⟩
    | case3 c rest hc ih =>
      rw [List.forall_mem_cons] at h
      rw [camelChars]
      · exact List.forall_mem_cons.mpr ⟨h.1, ih h.2⟩
      · exact hc
    | case4 => exact List.forall_mem_nil P
  exact over_ofList.mpr (hchars _ h)

end Alphabet

end TemplateCompiler.Text

/-- Every helper has a name over `P`. -/
def TemplateCompiler.Names.Over (P : Char → Prop) (names : Names) : Prop :=
  ∀ h, Text.Over P (names h)
