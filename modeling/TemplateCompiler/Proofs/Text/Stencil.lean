import Mathlib.Data.Fintype.OfMap
import Mathlib.Data.List.DropRight
import TemplateCompiler.Helper
import TemplateCompiler.Json.Inspect
import TemplateCompiler.Listener.Grammar
import TemplateCompiler.Text.Capital

/-!
# Texts with holes for names

A `Naming` gives every helper an identifier. A `Stencil` is a text with holes: its parts are texts of the
compiler's own, texts that the template offers, and holes for the names of helpers. A family of texts, one for each
naming, is `Drawn` if one stencil gives all of them.

A text of the compiler's own may not name a helper, whatever stands next to it: no word of it begins the way in
which one of the standard names does (`OwnChars`). What a template offers are the values that it holds, as code
writes them, and parts of these (`Offered`).
-/

theorem List.rdropWhile_append {α : Type} (p : α → Bool) (xs ys : List α) : (xs ++ ys).rdropWhile p =
    if (ys.rdropWhile p).isEmpty then xs.rdropWhile p else xs ++ ys.rdropWhile p := by
  simp only [List.rdropWhile, List.reverse_append, List.dropWhile_append, List.isEmpty_reverse]
  split <;> simp

namespace TemplateCompiler

open Listener

/-! ## Namings -/

/-- Whether a text is a letter, an underscore or a dollar sign, followed by any of these and digits. -/
def isIdentifier (s : String) : Bool :=
  match s.toList with
  | [] => false
  | c :: cs => isNameStart c && cs.all fun d => d.isAlphanum || d == '_' || d == '$'

/-- Names of helpers that code can call. -/
structure Naming where
  names : Names
  identifier : ∀ h, isIdentifier (names h) = true
  notFunction : ∀ h, names h ≠ "function"

instance : CoeFun Naming fun _ => Helper → String := ⟨Naming.names⟩

instance : Inhabited Naming where
  default :=
    { names := Names.standard
      identifier := fun h => by cases h <;> decide
      notFunction := fun h => by cases h <;> decide }

instance : Fintype Helper :=
  .ofList [.create, .text, .empty, .toText, .toNumber, .renderList, .renderStatic, .markOnce, .renderSlot,
    .resolveScopedSlots, .bindDynamicKeys, .bindObjectProps, .bindObjectListeners, .prependModifier, .checkKeyCodes,
    .looseEqual, .looseIndexOf, .set, .forceUpdate] fun h => by cases h <;> decide

/-- The same for every naming. -/
def Steady {α : Type} (f : Naming → α) : Prop :=
  ∀ I J, f I = f J

theorem Text.isNameChar_of_isBlank {c : Char} (h : Text.isBlank c = true) : isNameChar c = false := by
  have hpoints : ∀ n ∈ Text.blankPoints, isNameChar (Char.ofNat n) = false := by decide +kernel
  have hc := hpoints c.toNat (by simpa [Text.isBlank] using h)
  rwa [Char.ofNat_toNat] at hc

namespace Naming

variable (I : Naming) (h : Helper)

theorem chars_eq : ∃ c cs, (I h).toList = c :: cs ∧ isNameStart c = true ∧
    ∀ d ∈ cs, (d.isAlphanum || d == '_' || d == '$') = true := by
  have hid := I.identifier h
  unfold isIdentifier at hid
  split at hid
  · cases hid
  · next c cs hcs =>
    rw [Bool.and_eq_true, List.all_eq_true] at hid
    exact ⟨c, cs, hcs, hid⟩

theorem ne_nil : (I h).toList ≠ [] := by
  obtain ⟨c, cs, hcs, -⟩ := I.chars_eq h
  exact hcs ▸ List.cons_ne_nil c cs

variable {I h}

theorem alphanum_of_mem {c : Char} (hc : c ∈ (I h).toList) : (c.isAlphanum || c == '_' || c == '$') = true := by
  obtain ⟨d, ds, hds, hstart, hrest⟩ := I.chars_eq h
  rcases List.mem_cons.mp (hds ▸ hc) with rfl | hmem
  · simp only [isNameStart, Char.isAlphanum, Bool.or_eq_true] at hstart ⊢
    exact hstart.imp_left (Or.imp_left Or.inl)
  · exact hrest c hmem

theorem ascii {c : Char} (hc : c ∈ (I h).toList) : c.toNat < 128 := by
  have hname := alphanum_of_mem hc
  rw [Char.isAlphanum] at hname
  delta Char.isAlpha Char.isUpper Char.isLower Char.isDigit at hname
  simp only [Bool.or_eq_true, Bool.and_eq_true, decide_eq_true_eq, beq_iff_eq, UInt32.le_iff_toNat_le] at hname
  rcases hname with ((((hrange | hrange) | hrange) | rfl) | rfl)
  all_goals first | decide | exact Nat.lt_of_le_of_lt hrange.2 (by decide)

theorem isNameChar_of_mem {c : Char} (hc : c ∈ (I h).toList) : isNameChar c = true := by
  rw [isNameChar, Text.isWord, if_pos (ascii hc)]
  exact alphanum_of_mem hc

/-- No mark is in a name. -/
theorem ne_of_mem {c m : Char} (hc : c ∈ (I h).toList) (hm : isNameChar m = false) : c ≠ m := by
  rintro rfl
  rw [isNameChar_of_mem hc] at hm
  cases hm

theorem not_isBlank_of_mem {c : Char} (hc : c ∈ (I h).toList) : Text.isBlank c = false := by
  by_contra hblank
  have hname := isNameChar_of_mem hc
  rw [Text.isNameChar_of_isBlank (Bool.eq_true_of_not_eq_false hblank)] at hname
  cases hname

end Naming

/-! ## Stencils -/

/-- A part of a text: the compiler's own, offered by the template, or the place of a name. -/
inductive Part where
  | own (s : String)
  | given (s : String)
  | hole (h : Helper)
  deriving DecidableEq, Repr

abbrev Stencil := List Part

def Part.fill (names : Names) : Part → String
  | own s => s
  | given s => s
  | hole h => names h

/-- The text of a stencil under given names. -/
def Stencil.fill (names : Names) : Stencil → String
  | [] => ""
  | p :: ps => p.fill names ++ fill names ps

/-- Characters none of whose words begins the way in which a standard name does. -/
structure OwnChars (cs : List Char) : Prop where
  ascii : ∀ c ∈ cs, c.toNat < 128
  words : ∀ w ∈ cs.splitOnP fun c => !isNameChar c, w ≠ [] → ∀ h : Helper, ¬w <+: (Names.standard h).toList

/-- The texts that a template with the values `V` offers: its values as code writes them, and parts of these. -/
inductive Offered (V : Json → Prop) : String → Prop
  | shown {v : Json} (h : V v) : Offered V v.shown
  | compact {v : Json} (h : V v) : Offered V v.compact
  | spaced {v : Json} (h : V v) : Offered V v.spaced
  | quote {s : String} (h : Offered V s) : Offered V (Json.quote s)
  | escapeSeparators {s : String} (h : Offered V s) : Offered V (Json.escapeSeparators s)
  | camelize {s : String} (h : Offered V s) : Offered V (Text.camelize s)
  | part {s : String} {cs : List Char} (h : Offered V s) (hcs : cs <:+: s.toList) : Offered V (String.ofList cs)

def Part.Sound (V : Json → Prop) : Part → Prop
  | own s => OwnChars s.toList
  | given s => Offered V s
  | hole _ => True

def Stencil.Sound (V : Json → Prop) (st : Stencil) : Prop :=
  ∀ p ∈ st, p.Sound V

namespace Stencil

@[simp] theorem fill_nil (names : Names) : fill names [] = "" := rfl

@[simp] theorem fill_cons (names : Names) (p : Part) (ps : Stencil) :
    fill names (p :: ps) = p.fill names ++ fill names ps := rfl

@[simp] theorem fill_append (names : Names) (a b : Stencil) : fill names (a ++ b) = fill names a ++ fill names b := by
  induction a with
  | nil => simp
  | cons p ps ih => rw [List.cons_append, fill_cons, fill_cons, ih, String.append_assoc]

theorem Sound.append {V : Json → Prop} {a b : Stencil} (ha : a.Sound V) (hb : b.Sound V) : (a ++ b).Sound V :=
  List.forall_mem_append.mpr ⟨ha, hb⟩

end Stencil

/-! ## Texts of the compiler's own -/

theorem Names.head?_standard (h : Helper) :
    (Names.standard h).toList.head? = some '_' ∨ (Names.standard h).toList.head? = some '$' := by
  cases h <;> decide

/-- A standard name begins with an underscore or a dollar sign, so few words have to be compared with all names. -/
theorem word_iff (w : List Char) : (w ≠ [] → ∀ h : Helper, ¬w <+: (Names.standard h).toList) ↔
    (w.head? = some '_' ∨ w.head? = some '$' → ∀ h : Helper, ¬w <+: (Names.standard h).toList) := by
  cases w with
  | nil => simp
  | cons c w =>
    refine ⟨fun hall _ => hall (List.cons_ne_nil c w), fun hall _ h hpre => hall ?_ h hpre⟩
    obtain ⟨rest, hrest⟩ := hpre
    have hhead := Names.head?_standard h
    rwa [← hrest] at hhead

instance (cs : List Char) : Decidable (OwnChars cs) :=
  haveI := List.decidableBAll (fun c : Char => c.toNat < 128) cs
  decidable_of_iff ((∀ c ∈ cs, c.toNat < 128) ∧ ∀ w ∈ cs.splitOnP fun c => !isNameChar c,
      w.head? = some '_' ∨ w.head? = some '$' → ∀ h : Helper, ¬w <+: (Names.standard h).toList)
    ⟨fun h => ⟨h.1, fun w hw => (word_iff w).mpr (h.2 w hw)⟩, fun h => ⟨h.1, fun w hw => (word_iff w).mp (h.2 w hw)⟩⟩

namespace OwnChars

variable {a b cs : List Char}

theorem mem_of_mem_word {w : List Char} {c : Char} (hw : w ∈ cs.splitOnP fun c => !isNameChar c) (hc : c ∈ w) :
    c ∈ cs := by
  induction cs generalizing w with
  | nil =>
    rw [List.splitOnP_nil, List.mem_singleton] at hw
    exact hw ▸ hc
  | cons d cs ih =>
    rw [List.splitOnP_cons_eq_if_modifyHead] at hw
    split at hw
    · rcases List.mem_cons.mp hw with rfl | hw
      · cases hc
      · exact List.mem_cons_of_mem _ (ih hw hc)
    · rcases hsplit : cs.splitOnP fun c => !isNameChar c with _ | ⟨v, vs⟩ <;> rw [hsplit] at hw ih
      · cases hw
      · rcases List.mem_cons.mp hw with rfl | hw
        · rcases List.mem_cons.mp hc with rfl | hc
          · exact List.mem_cons_self ..
          · exact List.mem_cons_of_mem _ (ih (List.mem_cons_self ..) hc)
        · exact List.mem_cons_of_mem _ (ih (List.mem_cons_of_mem _ hw) hc)

/-- A text without underscores and dollar signs names nothing. -/
theorem of_plain (h : ∀ c ∈ cs, c.toNat < 128 ∧ c ≠ '_' ∧ c ≠ '$') : OwnChars cs where
  ascii c hc := (h c hc).1
  words w hw hne k hpre := by
    have hhead := Names.head?_standard k
    obtain ⟨c, w, rfl⟩ := List.exists_cons_of_ne_nil hne
    obtain ⟨rest, hrest⟩ := hpre
    rw [← hrest] at hhead
    have hc := h c (mem_of_mem_word hw (List.mem_cons_self ..))
    exact hhead.elim (fun h => hc.2.1 (Option.some.inj h)) fun h => hc.2.2 (Option.some.inj h)

theorem plain_of_mem_toString {n : Nat} {c : Char} (hc : c ∈ (toString n).toList) :
    c.toNat < 128 ∧ c ≠ '_' ∧ c ≠ '$' := by
  rw [show toString n = n.repr from rfl, Nat.toList_repr] at hc
  have hdigit : c.isDigit = true := Nat.isDigit_of_mem_toDigits (by decide) (by decide) hc
  simp only [Char.isDigit, Bool.and_eq_true, decide_eq_true_eq, UInt32.le_iff_toNat_le] at hdigit
  refine ⟨Nat.lt_of_le_of_lt hdigit.2 (by decide), ?_, ?_⟩
  · rintro rfl
    exact absurd hdigit.2 (by decide)
  · rintro rfl
    exact absurd hdigit.1 (by decide)

theorem toString_nat (n : Nat) : OwnChars (toString n).toList :=
  of_plain fun _ => plain_of_mem_toString

theorem toString_int (n : Int) : OwnChars (toString n).toList := by
  cases n with
  | ofNat n => exact toString_nat n
  | negSucc n =>
    refine of_plain fun c hc => ?_
    rw [show toString (Int.negSucc n) = "-" ++ toString (n + 1) from rfl, String.toList_append] at hc
    rcases List.mem_append.mp hc with hc | hc
    · rw [show "-".toList = ['-'] from rfl, List.mem_singleton] at hc
      exact hc ▸ by decide
    · exact plain_of_mem_toString hc

/-- Both sides of a character that is in no word. -/
theorem split {c : Char} (h : OwnChars (a ++ c :: b)) (hc : isNameChar c = false) : OwnChars a ∧ OwnChars b := by
  have hwords := h.words
  rw [List.splitOnP_append_cons _ _ (by rw [hc]; rfl)] at hwords
  have hascii := List.forall_mem_append.mp h.ascii
  exact ⟨⟨hascii.1, fun w hw => hwords w (List.mem_append_left _ hw)⟩,
    ⟨fun d hd => hascii.2 d (List.mem_cons_of_mem _ hd), fun w hw => hwords w (List.mem_append_right _ hw)⟩⟩

theorem dropBlanks (h : OwnChars cs) : OwnChars (cs.dropWhile Text.isBlank) := by
  induction cs with
  | nil => exact h
  | cons c cs ih =>
    rw [List.dropWhile_cons]
    split
    · next hc => exact ih (split (a := []) h (Text.isNameChar_of_isBlank hc)).2
    · exact h

theorem dropBlanksEnd (h : OwnChars cs) : OwnChars (cs.rdropWhile Text.isBlank) := by
  induction cs using List.reverseRecOn with
  | nil => exact h
  | append_singleton cs c ih =>
    rw [List.rdropWhile_concat]
    split
    · next hc => exact ih (split (b := []) h (Text.isNameChar_of_isBlank hc)).1
    · exact h

end OwnChars

/-! ## Texts under every naming -/

/-- One stencil gives the text for every naming. -/
def Text.Drawn (V : Json → Prop) (s : Naming → String) : Prop :=
  ∃ st : Stencil, st.Sound V ∧ ∀ I, s I = st.fill I.names

namespace Text.Drawn

variable {V : Json → Prop} {s s' : Naming → String}

theorem own (lit : String) (h : OwnChars lit.toList) : Drawn V fun _ => lit :=
  ⟨[.own lit], List.forall_mem_singleton.mpr h, fun _ => String.append_empty.symm⟩

theorem given {text : String} (h : Offered V text) : Drawn V fun _ => text :=
  ⟨[.given text], List.forall_mem_singleton.mpr h, fun _ => String.append_empty.symm⟩

theorem hole (h : Helper) : Drawn V fun I => I h :=
  ⟨[.hole h], List.forall_mem_singleton.mpr trivial, fun _ => String.append_empty.symm⟩

theorem text (h : Drawn V s) (h' : Drawn V s') : Drawn V fun I => s I ++ s' I := by
  obtain ⟨a, ha, hs⟩ := h
  obtain ⟨b, hb, hs'⟩ := h'
  exact ⟨a ++ b, ha.append hb, fun I => by simp only [hs, hs', Stencil.fill_append]⟩

theorem fixed (h : Drawn V s) (lit : String) (hlit : OwnChars lit.toList) : Drawn V fun I => s I ++ lit :=
  h.text (own lit hlit)

theorem offered (h : Drawn V s) {text : String} (ht : Offered V text) : Drawn V fun I => s I ++ text :=
  h.text (given ht)

theorem name (h : Drawn V s) (k : Helper) : Drawn V fun I => s I ++ I k :=
  h.text (hole k)

theorem intercalate {sep : String} (hsep : OwnChars sep.toList) {texts : List (Naming → String)}
    (h : ∀ t ∈ texts, Drawn V t) : Drawn V fun I => String.intercalate sep (texts.map (· I)) := by
  induction texts with
  | nil => exact ⟨[], List.forall_mem_nil _, fun _ => rfl⟩
  | cons t texts ih =>
    obtain ⟨ht, htexts⟩ := List.forall_mem_cons.mp h
    cases texts with
    | nil => simpa only [List.map_cons, List.map_nil, String.intercalate_singleton] using ht
    | cons t' texts =>
      simp only [List.map_cons, String.intercalate_cons_cons]
      exact (ht.fixed sep hsep).text (ih htexts)

/-- The separators stand in texts that the template offers, if anywhere. -/
theorem escapeSeparators (h : Drawn V s) : Drawn V fun I => Json.escapeSeparators (s I) := by
  have hascii {t : String} (ht : ∀ c ∈ t.toList, c.toNat < 128) : Json.escapeSeparators t = t := by
    have hchars : ∀ c ∈ t.toList, Json.separatorChars c = [c] := by
      intro c hc
      have hsmall := ht c hc
      rw [Json.separatorChars, if_neg (by rintro rfl; revert hsmall; decide),
        if_neg (by rintro rfl; revert hsmall; decide)]
    rw [Json.escapeSeparators, List.flatMap_congr hchars, List.flatMap_singleton', String.ofList_toList]
  obtain ⟨st, hst, hs⟩ := h
  simp only [hs]
  clear hs
  induction st with
  | nil => exact ⟨[], List.forall_mem_nil _, fun _ => rfl⟩
  | cons p ps ih =>
    obtain ⟨hp, hps⟩ := List.forall_mem_cons.mp hst
    have hsplit (a b : String) :
        Json.escapeSeparators (a ++ b) = Json.escapeSeparators a ++ Json.escapeSeparators b := by
      simp [Json.escapeSeparators]
    simp only [Stencil.fill_cons, hsplit]
    refine text ?_ (ih hps)
    cases p with
    | own t =>
      show Drawn V fun _ => Json.escapeSeparators t
      rw [hascii hp.ascii]
      exact own _ hp
    | given t => exact given (.escapeSeparators hp)
    | hole k =>
      have hname (I : Naming) : Json.escapeSeparators (I k) = I k := hascii fun _ => Naming.ascii
      simp only [Part.fill, hname]
      exact hole k

theorem dropBlanks (h : Drawn V s) : Drawn V fun I => String.ofList ((s I).toList.dropWhile isBlank) := by
  obtain ⟨st, hst, hs⟩ := h
  simp only [hs]
  clear hs
  induction st with
  | nil => exact ⟨[], List.forall_mem_nil _, fun _ => rfl⟩
  | cons p ps ih =>
    obtain ⟨hp, hps⟩ := List.forall_mem_cons.mp hst
    have hconst {t : String} (ht : Drawn V fun _ => String.ofList (t.toList.dropWhile isBlank)) :
        Drawn V fun I => String.ofList ((t ++ Stencil.fill I.names ps).toList.dropWhile isBlank) := by
      simp only [String.toList_append, List.dropWhile_append]
      split
      · exact ih hps
      · simp only [String.ofList_append, String.ofList_toList]
        exact ht.text ⟨ps, hps, fun _ => rfl⟩
    cases p with
    | own t => exact hconst (own _ (by simpa using hp.dropBlanks))
    | given t => exact hconst (given (.part hp (List.dropWhile_suffix _).isInfix))
    | hole k =>
      have hname (I : Naming) : (I k).toList.dropWhile isBlank = (I k).toList := by
        obtain ⟨c, cs, hcs, -⟩ := I.chars_eq k
        have hc : isBlank c = false := Naming.not_isBlank_of_mem (hcs ▸ List.mem_cons_self ..)
        rw [hcs, List.dropWhile_cons_of_neg (by rw [hc]; decide)]
      have hne (I : Naming) : (I k).toList.isEmpty = false := by simpa using I.ne_nil k
      simp only [Stencil.fill_cons, Part.fill, String.toList_append, List.dropWhile_append, hname, hne,
        Bool.false_eq_true, if_false, String.ofList_append, String.ofList_toList]
      exact (hole k).text ⟨ps, hps, fun _ => rfl⟩

theorem dropBlanksEnd (h : Drawn V s) : Drawn V fun I => String.ofList ((s I).toList.rdropWhile isBlank) := by
  obtain ⟨st, hst, hs⟩ := h
  simp only [hs]
  clear hs
  induction st using List.reverseRecOn with
  | nil => exact ⟨[], List.forall_mem_nil _, fun _ => rfl⟩
  | append_singleton ps p ih =>
    obtain ⟨hps, hp⟩ := List.forall_mem_append.mp hst
    replace hp := List.forall_mem_singleton.mp hp
    simp only [Stencil.fill_append, Stencil.fill_cons, Stencil.fill_nil, String.append_empty, String.toList_append,
      List.rdropWhile_append]
    have hconst {t : String} (ht : Drawn V fun _ => String.ofList (t.toList.rdropWhile isBlank)) :
        Drawn V fun I => String.ofList (if (t.toList.rdropWhile isBlank).isEmpty then
          (Stencil.fill I.names ps).toList.rdropWhile isBlank
          else (Stencil.fill I.names ps).toList ++ t.toList.rdropWhile isBlank) := by
      split
      · exact ih hps
      · simp only [String.ofList_append, String.ofList_toList]
        exact text ⟨ps, hps, fun _ => rfl⟩ ht
    cases p with
    | own t => exact hconst (own _ (by simpa using hp.dropBlanksEnd))
    | given t => exact hconst (given (.part hp ( List.rdropWhile_prefix _ _).isInfix))
    | hole k =>
      have hname (I : Naming) : (I k).toList.rdropWhile isBlank = (I k).toList := by
        rw [List.rdropWhile_eq_self_iff]
        intro hne hblank
        rw [Naming.not_isBlank_of_mem (List.getLast_mem hne)] at hblank
        cases hblank
      have hne (I : Naming) : (I k).toList.isEmpty = false := by simpa using I.ne_nil k
      simp only [Part.fill, hname, hne, Bool.false_eq_true, if_false, String.ofList_append, String.ofList_toList]
      exact text ⟨ps, hps, fun _ => rfl⟩ (hole k)

/-- What is trimmed are blanks, and names have none. -/
theorem trim (h : Drawn V s) : Drawn V fun I => Text.trim (s I) := by
  have htrim := h.dropBlanks.dropBlanksEnd
  simp only [String.toList_ofList] at htrim
  exact htrim

end Text.Drawn

end TemplateCompiler
