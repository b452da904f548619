import Mathlib.Data.List.Forall2
import TemplateCompiler.Diagnostic.Basic
import TemplateCompiler.Proofs.Text.Alphabet
import TemplateCompiler.Proofs.Text.Lines

/-!
# Colours are presentation

Diagnostics are written with or without colours. `Strips a b` says that removing the escape sequences of `a` leaves `b`,
whatever stands behind `a`: no sequence is left open at the end that what follows could become part of. So it passes
from pieces of text to texts made of them, up to a whole diagnostic (`strip_format`).
-/

namespace TemplateCompiler

open Text

namespace Style

/-- Text without an escape character. -/
abbrev Plain (s : String) : Prop :=
  Over (· ≠ '\x1b') s

/-- Removing the escape sequences of `a` leaves `b`, whatever follows. -/
def Strips (a b : String) : Prop :=
  ∀ rest, stripChars 0 (a.toList ++ rest) = b.toList ++ stripChars 0 rest

variable {a b a' b' s : String}

theorem Strips.strip_eq (h : Strips a b) : strip a = b := by
  have hstrip := h []
  rw [List.append_nil, stripChars, List.append_nil] at hstrip
  rw [strip, hstrip, String.ofList_toList]

theorem Strips.append (h : Strips a b) (h' : Strips a' b') : Strips (a ++ a') (b ++ b') := by
  intro rest
  rw [String.toList_append, String.toList_append, List.append_assoc, List.append_assoc, h, h']

theorem stripChars_append {cs : List Char} (h : ∀ c ∈ cs, c ≠ '\x1b') (rest : List Char) :
    stripChars 0 (cs ++ rest) = cs ++ stripChars 0 rest := by
  induction cs with
  | nil => rfl
  | cons c cs ih =>
    obtain ⟨hc, hcs⟩ := List.forall_mem_cons.mp h
    rw [List.cons_append, stripChars, if_neg hc, ih hcs, List.cons_append]

theorem Strips.of_plain (h : Plain s) : Strips s s :=
  stripChars_append h

/-- A sequence ends with its letter. -/
theorem strips_sequence (style : Style) : Strips style.sequence "" := by
  intro rest
  cases style <;> rfl

theorem strips_join_sequence (styles : List Style) : Strips (String.join (styles.map sequence)) "" := by
  induction styles with
  | nil => exact .of_plain over_empty
  | cons style styles ih =>
    rw [List.map_cons, String.join_cons]
    exact (strips_sequence style).append ih

theorem strips_paint (styles : List Style) (h : Plain s) : Strips (paint true styles s) (paint false styles s) := by
  have hoff : paint false styles s = s := rfl
  rw [hoff, paint]
  split
  · have hpainted := ((strips_join_sequence styles).append (.of_plain h)).append (strips_sequence .reset)
    rwa [String.empty_append, String.append_empty] at hpainted
  · exact .of_plain h

theorem Strips.intercalate {separator : String} (hseparator : Plain separator) {as bs : List String}
    (h : List.Forall₂ Strips as bs) : Strips (String.intercalate separator as) (String.intercalate separator bs) := by
  induction h with
  | nil => exact .of_plain over_empty
  | cons h hs ih =>
    cases hs with
    | nil => rwa [String.intercalate_singleton, String.intercalate_singleton]
    | cons h' hs =>
      rw [String.intercalate_cons_cons, String.intercalate_cons_cons]
      exact (h.append (.of_plain hseparator)).append ih

end Style

namespace Snippet

open Style

variable {s : Snippet} {source content : String}

theorem plain_lineNumber (n : Nat) : Plain (lineNumber n) := by
  have hspaces : ∀ c ∈ List.replicate (3 - (toString (n : Int)).length) ' ', c ≠ '\x1b' := by
    intro c hc
    rw [List.eq_of_mem_replicate hc]
    decide
  have hdigits : ∀ c ∈ Nat.toDigits 10 n, c ≠ '\x1b' := by
    rintro c hc rfl
    exact absurd (Nat.isDigit_of_mem_toDigits (by decide) (by decide) hc) (by decide)
  have hshown : (toString (n : Int)).toList = Nat.toDigits 10 n := Nat.toList_repr
  refine over_append.mpr ⟨over_ofList.mpr hspaces, ?_⟩
  rwa [← hshown] at hdigits

theorem strips_sourceRow (n : Nat) (h : Plain content) (isError : Bool) :
    Strips (sourceRow true n content isError) (sourceRow false n content isError) := by
  have hmarker : Plain (if isError then ">" else " ") := by
    cases isError <;> decide
  have hnumber : Plain ((if isError then ">" else " ") ++ lineNumber n) :=
    over_append.mpr ⟨hmarker, plain_lineNumber n⟩
  exact ((strips_paint _ hnumber).append (.of_plain (by decide))).append (strips_paint _ h)

theorem strips_caretRow (column width : Int) :
    Strips (caretRow true column width) (caretRow false column width) := by
  have hcarets : Plain (String.ofList
      (List.replicate column.toNat ' ' ++ List.replicate (max width 1).toNat '^')) := by
    refine over_ofList.mpr (List.forall_mem_append.mpr ⟨?_, ?_⟩) <;>
    · intro c hc
      rw [List.eq_of_mem_replicate hc]
      decide
  exact ((strips_paint _ (by decide)).append (.of_plain (by decide))).append (strips_paint _ hcarets)

theorem strips_rule : Strips (rule true) (rule false) :=
  strips_paint _ (by decide)

theorem strips_lineRows (s : Snippet) {line : Nat × String} (h : Plain line.2) :
    List.Forall₂ Strips (s.lineRows true line) (s.lineRows false line) := by
  unfold lineRows
  split
  · exact .cons (strips_sourceRow _ h true) (.cons (strips_caretRow s.column s.width) .nil)
  · exact .cons (strips_sourceRow _ h false) .nil

theorem strips_rows (s : Snippet) {lines : List (Nat × String)} (h : ∀ line ∈ lines, Plain line.2) :
    List.Forall₂ Strips (lines.flatMap (s.lineRows true)) (lines.flatMap (s.lineRows false)) := by
  induction lines with
  | nil => exact .nil
  | cons line lines ih =>
    obtain ⟨hline, hlines⟩ := List.forall_mem_cons.mp h
    exact List.rel_append (strips_lineRows s hline) (ih hlines)

theorem strips_format (h : ∀ line ∈ s.lines, Plain line.2) : Strips (s.format true) (s.format false) := by
  have hrule : List.Forall₂ Strips [rule true] [rule false] := .cons strips_rule .nil
  exact .intercalate (by decide) (List.rel_append (List.rel_append hrule (strips_rows s h)) hrule)

/-- The lines of a snippet are lines of the source. -/
theorem plain_lines_around (h : Plain source) (start : Int) (stop : Option Int) (context : Int) :
    ∀ line ∈ (around source start stop context).lines, Plain line.2 := by
  intro line hline
  obtain ⟨⟨text, n⟩, hnumbered, rfl⟩ := List.mem_map.mp hline
  obtain ⟨chars, hchars, rfl⟩ := List.mem_map.mp (List.fst_mem_of_mem_zipIdx (List.mem_filter.mp hnumbered).1)
  exact h.of_subset (subset_of_mem_linesFrom hchars)

end Snippet

/-- Both ends of a span are offsets or unknown. -/
def Span.Placed (span : Span) : Prop :=
  (span.start.isNull = true ∨ span.start.offset?.isSome = true) ∧
    (span.stop.isNull = true ∨ span.stop.offset?.isSome = true)

namespace Diagnostic

open Style

variable {d : Diagnostic} {source name : Option String}

/-- The snippet that is written below the message, if there is one. There is no text at all for a place that cannot
be found. -/
def excerpt (d : Diagnostic) (source : Option String) : Option (Option Snippet) :=
  if source.getD "" = "" || d.span.start.isNull then some none
  else (snippet? d.span (source.getD "")).map some

/-- The row with the name of the file. -/
def fileRows (color : Bool) (name : Option String) : List String :=
  match name with
  | some n => if n = "" then [] else ["  --> " ++ Style.paint color [.cyan] n]
  | none => []

/-- What is written depends on colours only in how the rows are written. -/
theorem format_eq (d : Diagnostic) (color : Bool) (source name : Option String) :
    d.format color source name = (d.excerpt source).map fun excerpt => String.intercalate "\n"
      ([heading color d.code.text d.tip ++ ": " ++ d.message] ++ fileRows color name ++
        (excerpt.map (Snippet.format · color)).toList) := by
  unfold format excerpt
  by_cases h : (decide (source.getD "" = "") || d.span.start.isNull) = true
  · simp only [if_pos h]
    rfl
  · simp only [if_neg h]
    cases snippet? d.span (source.getD "") <;> rfl

theorem plain_text (code : ProblemCode) : Plain code.text := by
  cases code <;> decide

theorem strips_fileRows (h : ∀ n ∈ name, Plain n) :
    List.Forall₂ Strips (fileRows true name) (fileRows false name) := by
  unfold fileRows
  split
  · next n =>
    split
    · exact .nil
    · exact .cons ((Strips.of_plain (by decide)).append (strips_paint _ (h n rfl))) .nil
  · exact .nil

theorem eq_around_of_snippet? {span : Span} {text : String} {s : Snippet} (h : snippet? span text = some s) :
    ∃ start stop, s = Snippet.around text start stop 2 := by
  obtain ⟨start, -, h⟩ := Option.bind_eq_some_iff.mp h
  dsimp only at h
  split at h
  · exact ⟨start, none, (Option.some.inj h).symm⟩
  · obtain ⟨stop, -, h⟩ := Option.bind_eq_some_iff.mp h
    exact ⟨start, stop, (Option.some.inj h).symm⟩

/-- An excerpt is made of lines of the source. -/
theorem plain_lines_excerpt (h : ∀ t ∈ source, Plain t) {s : Snippet} (hs : d.excerpt source = some (some s)) :
    ∀ line ∈ s.lines, Plain line.2 := by
  have hplain : Plain (source.getD "") := by
    cases source with
    | none => exact over_empty
    | some t => exact h t rfl
  unfold excerpt at hs
  split at hs
  · cases hs
  · obtain ⟨s', hs', heq⟩ := Option.map_eq_some_iff.mp hs
    obtain rfl := Option.some.inj heq
    obtain ⟨start, stop, rfl⟩ := eq_around_of_snippet? hs'
    exact Snippet.plain_lines_around hplain start stop 2

/-- A place that is given by offsets can be found. -/
theorem isSome_excerpt (h : d.span.Placed) (source : Option String) : (d.excerpt source).isSome = true := by
  unfold excerpt
  split
  · rfl
  · next hsnippet =>
    obtain ⟨start, hstart⟩ := Option.isSome_iff_exists.mp (h.1.resolve_left (by simp_all))
    unfold snippet?
    rw [Option.isSome_map, hstart, Option.bind_eq_bind, Option.bind_some]
    split
    · rfl
    · next hstop =>
      obtain ⟨stop, hstop⟩ := Option.isSome_iff_exists.mp (h.2.resolve_left hstop)
      rw [hstop]
      rfl

/-- A diagnostic without escape characters that is written with colours and stripped is the diagnostic written
without colours. There is a text of both if the place of the diagnostic is given by offsets. -/
theorem strip_format (hmessage : Plain d.message) (hsource : ∀ t ∈ source, Plain t) (hname : ∀ n ∈ name, Plain n) :
    (d.format true source name).map Style.strip = d.format false source name ∧
      (d.span.Placed → ∀ color, ∃ text, d.format color source name = some text) := by
  have hhead : Strips (heading true d.code.text d.tip ++ ": " ++ d.message)
      (heading false d.code.text d.tip ++ ": " ++ d.message) :=
    ((strips_paint _ (plain_text d.code)).append (.of_plain (by decide))).append (.of_plain hmessage)
  constructor
  · rw [format_eq, format_eq, Option.map_map]
    refine Option.map_congr fun excerpt hexcerpt => Strips.strip_eq (.intercalate (by decide) ?_)
    refine List.rel_append (List.rel_append (.cons hhead .nil) (strips_fileRows hname)) ?_
    cases excerpt with
    | none => exact .nil
    | some s => exact .cons (Snippet.strips_format (plain_lines_excerpt hsource hexcerpt)) .nil
  · intro hplaced color
    obtain ⟨excerpt, hexcerpt⟩ := Option.isSome_iff_exists.mp (isSome_excerpt hplaced source)
    exact ⟨_, by rw [format_eq, hexcerpt, Option.map_some]⟩

/-- A tip with a place on the second line. -/
def unkeyed : Diagnostic :=
  { message := "v-once can only be used inside v-for that is keyed.", code := .onceWithoutKey, span := ⟨.int 8, .int 14⟩,
    tip := true }

theorem strip_format_unkeyed : ∃ colored text,
    unkeyed.format true (some "<ul>\n<b v-once>x</b>\n</ul>") (some "app.vue") = some colored ∧
      unkeyed.format false (some "<ul>\n<b v-once>x</b>\n</ul>") (some "app.vue") = some text ∧
      colored ≠ text ∧ Style.strip colored = text := by
  have hsource : ∀ t ∈ some "<ul>\n<b v-once>x</b>\n</ul>", Plain t := by
    intro t ht
    obtain rfl := Option.mem_some_iff.mp ht
    decide
  have hname : ∀ n ∈ some "app.vue", Plain n := by
    intro n hn
    obtain rfl := Option.mem_some_iff.mp hn
    decide
  obtain ⟨hstrip, htext⟩ := strip_format (d := unkeyed) (by decide) hsource hname
  have hplaced : unkeyed.span.Placed := ⟨.inr rfl, .inr rfl⟩
  obtain ⟨colored, hcolored⟩ := htext hplaced true
  obtain ⟨text, hplain⟩ := htext hplaced false
  refine ⟨colored, text, hcolored, hplain, ?_, ?_⟩
  · rintro rfl
    have hne : unkeyed.format true (some "<ul>\n<b v-once>x</b>\n</ul>") (some "app.vue") ≠
        unkeyed.format false (some "<ul>\n<b v-once>x</b>\n</ul>") (some "app.vue") := by
      decide +kernel
    exact hne (hcolored.trans hplain.symm)
  · rw [hcolored, hplain] at hstrip
    exact Option.some.inj hstrip

end Diagnostic

end TemplateCompiler
