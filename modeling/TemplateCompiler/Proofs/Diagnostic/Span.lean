import Mathlib.Data.List.DropRight
import TemplateCompiler.Diagnostic.Snippet
import TemplateCompiler.Proofs.Text.Lines

/-!
# What a snippet points at

A snippet marks the line at an offset, a column of this line and a width. The line is found by its line feeds, but the
lines that are shown end at other characters, too. `shows_span` says what comes of it: one line is marked, and its
text has the span in the marked place exactly if no line end stands before the end of the span in the line, as long
as there is none in the text above that goes with no line feed. The carets are under the marked place as long as the
number of the line has at most three digits.
-/

namespace TemplateCompiler.Snippet

open Text

variable {α : Type} {cs : List Char} {start : Nat}

/-! ## The line at an offset -/

/-- The lines above the one at an offset, with their line feeds. -/
def above (cs : List Char) (start : Nat) : List Char :=
  (cs.take start).rdropWhile (· ≠ '\n')

/-- The line at an offset, up to the offset. -/
def lead (cs : List Char) (start : Nat) : List Char :=
  (cs.take start).rtakeWhile (· ≠ '\n')

theorem above_append_lead : above cs start ++ lead cs start = cs.take start :=
  List.rdropWhile_append_rtakeWhile

theorem feed_notMem_lead : '\n' ∉ lead cs start := by
  intro h
  simpa using List.mem_rtakeWhile_imp h

theorem fed_above : Fed (above cs start) := by
  intro c hc
  obtain ⟨hne, rfl⟩ := List.mem_getLast?_eq_getLast hc
  have hlast : ¬decide ((above cs start).getLast hne ≠ '\n') = true := List.rdropWhile_last_not _ _ hne
  simpa using hlast

theorem count_above : (above cs start).count '\n' = (cs.take start).count '\n' := by
  rw [← above_append_lead, List.count_append, List.count_eq_zero_of_not_mem feed_notMem_lead, Nat.add_zero]

section

variable (hstart : start ≤ cs.length)

include hstart

theorem length_above : (above cs start).length + (lead cs start).length = start := by
  rw [← List.length_append, above_append_lead, List.length_take, Nat.min_eq_left hstart]

theorem take_above : cs.take (start - (lead cs start).length) = above cs start := by
  have hlength := length_above hstart
  have htake : (above cs start ++ lead cs start).take (above cs start).length = above cs start := List.take_left
  rw [above_append_lead, List.take_take] at htake
  rw [← htake]
  congr 1
  omega

theorem drop_above : (cs.drop (start - (lead cs start).length)).drop (lead cs start).length = cs.drop start := by
  have hlength := length_above hstart
  rw [List.drop_drop]
  congr 1
  omega

/-- The lines of a text are those above an offset, the one at the offset and those below. -/
theorem exists_linesFrom_eq (hline : cs.drop (start - (lead cs start).length) ≠ []) :
    ∃ below, linesFrom [] cs = linesFrom [] (above cs start) ++
      (cs.drop (start - (lead cs start).length)).takeWhile (fun c => !isLineEnd c) :: below := by
  obtain ⟨below, hbelow⟩ : ∃ below, linesFrom [] (cs.drop (start - (lead cs start).length)) = _ :: below :=
    exists_linesFrom_eq_cons (.inr hline)
  refine ⟨below, ?_⟩
  have hsplit := List.take_append_drop (start - (lead cs start).length) cs
  rw [take_above hstart] at hsplit
  rw [List.reverse_nil, List.nil_append] at hbelow
  rw [← hbelow, ← linesFrom_append fed_above fun _ => rfl, hsplit]

end

/-! ## The numbered line -/

/-- An entry of a numbered list is the only one with its number. -/
theorem filter_zipIdx (xs : List α) (n k : Nat) :
    (xs.zipIdx n).filter (fun e => e.2 = n + k) = (xs[k]?.map fun x => (x, n + k)).toList := by
  induction xs generalizing n k with
  | nil => rfl
  | cons x xs ih =>
    rw [List.zipIdx_cons]
    cases k with
    | zero =>
      have hrest : (xs.zipIdx (n + 1)).filter (fun e => e.2 = n + 0) = [] := by
        refine List.filter_eq_nil_iff.mpr fun e he => ?_
        have hnumber := List.le_snd_of_mem_zipIdx he
        simp only [decide_eq_true_eq]
        omega
      rw [List.filter_cons_of_pos (by simp), hrest]
      rfl
    | succ k =>
      rw [List.filter_cons_of_neg (by simp), show n + (k + 1) = n + 1 + k by omega, ih, List.getElem?_cons_succ]

theorem filter_numbered (xs : List α) (shown : Nat → Bool) {n : Nat} (hn : shown (n + 1) = true) :
    (((xs.zipIdx 1).filter fun e => shown e.2).map fun e => (e.2, e.1)).filter (fun l => l.1 = n + 1) =
      (xs[n]?.map fun x => (n + 1, x)).toList := by
  have hfilter : (xs.zipIdx 1).filter (fun e => decide (e.2 = n + 1) && shown e.2) =
      (xs.zipIdx 1).filter fun e => e.2 = 1 + n := by
    refine List.filter_congr fun e _ => ?_
    by_cases he : e.2 = n + 1 <;> simp [he, hn, Nat.add_comm]
  rw [List.filter_map, List.filter_filter]
  show ((xs.zipIdx 1).filter fun e => decide (e.2 = n + 1) && shown e.2).map (fun e => (e.2, e.1)) = _
  rw [hfilter, filter_zipIdx]
  cases xs[n]? with
  | none => rfl
  | some x => simp [Nat.add_comm]

/-- The line at the offset is shown under its number, if there are so many lines. -/
theorem filter_lines_around (source : String) (start : Int) (stop : Option Int) (context : Nat) :
    let s := around source start stop context
    s.lines.filter (fun l => l.1 = s.errorLine) =
      ((Text.lines source)[s.errorLine - 1]?.map fun text => (s.errorLine, text)).toList := by
  intro s
  refine filter_numbered (Text.lines source)
    (fun n => s.errorLine - (context : Int) ≤ n && n ≤ s.errorLine + (context : Int)) ?_
  show (decide _ && decide _) = true
  simp only [Bool.and_eq_true, decide_eq_true_eq]
  show (s.errorLine : Int) - context ≤ s.errorLine ∧ (s.errorLine : Int) ≤ s.errorLine + context
  omega

/-! ## The marked place -/

theorem caretWidth_pos (start : Nat) (stop : Option Int) (lineRest : Nat) : 0 < caretWidth start stop lineRest := by
  unfold caretWidth
  split <;> omega

theorem caretWidth_le {lineRest : Nat} (h : 0 < lineRest) (start : Nat) (stop : Option Int) :
    caretWidth start stop lineRest ≤ lineRest := by
  unfold caretWidth
  split <;> omega

/-- A place in a text is the same in a beginning of the text exactly if the beginning holds it. -/
theorem take_drop_takeWhile_iff {p : α → Bool} {xs : List α} {n k : Nat} (hk : 0 < k) (hxs : n + k ≤ xs.length) :
    ((xs.takeWhile p).drop n).take k = (xs.drop n).take k ↔ ∀ x ∈ xs.take (n + k), p x = true := by
  constructor
  · intro h
    have hlength := congrArg List.length h
    simp only [List.length_take, List.length_drop] at hlength
    have htake : xs.take (n + k) = (xs.takeWhile p).take (n + k) := by
      conv_rhs => rw [List.prefix_iff_eq_take.mp (List.takeWhile_prefix p), List.take_take]
      congr 1
      omega
    intro x hx
    rw [htake] at hx
    exact List.mem_takeWhile_imp (List.mem_of_mem_take hx)
  · intro h
    have htake : (xs.takeWhile p).take (n + k) = xs.take (n + k) := by
      conv_lhs => rw [← List.take_append_drop (n + k) xs, List.takeWhile_append_of_pos h]
      exact List.take_left' (by simp; omega)
    rw [List.take_drop, List.take_drop, htake]

/-- The characters of a row that stand above carets. -/
def marked (row carets : String) : List Char :=
  ((row.toList.zip carets.toList).filter fun p => p.2 = '^').map Prod.fst

theorem zip_carets (row : List Char) {gutter : List Char} (hgutter : '^' ∉ gutter) (width : Nat) :
    ((row.zip (gutter ++ List.replicate width '^')).filter fun p => p.2 = '^').map Prod.fst =
      (row.drop gutter.length).take width := by
  induction gutter generalizing row with
  | nil =>
    induction width generalizing row with
    | zero => simp
    | succ width ih =>
      cases row with
      | nil => simp
      | cons c row => simpa [List.replicate_succ] using ih row
  | cons d gutter ih =>
    obtain ⟨hd, hgutter⟩ := not_or.mp (List.mem_cons.not.mp hgutter)
    cases row with
    | nil => simp
    | cons c row => simpa [Ne.symm hd] using ih row hgutter

theorem length_lineNumber {n : Nat} (hn : n < 1000) : (lineNumber n).toList.length = 3 := by
  have hdigits : (Nat.toDigits 10 n).length ≤ 3 := (Nat.length_toDigits_le_iff (by decide) (by decide)).mpr hn
  have hshown : (toString (n : Int)).toList = Nat.toDigits 10 n := Nat.toList_repr
  rw [lineNumber, String.toList_append, String.toList_ofList, List.length_append, List.length_replicate,
    ← String.length_toList, hshown]
  omega

/-- The carets stand under the marked place if the number of the line has at most three digits. -/
theorem marked_rows {n : Nat} (hn : n < 1000) (text : String) (column : Nat) {width : Nat} (hwidth : 0 < width) :
    marked (sourceRow false n text true) (caretRow false column width) = (text.toList.drop column).take width := by
  have hrow : (sourceRow false n text true).toList = (">" ++ lineNumber n ++ " | ").toList ++ text.toList := by
    rw [← String.toList_append]
    rfl
  have hgutter : (">" ++ lineNumber n ++ " | ").toList.length = 7 := by
    simp [length_lineNumber hn]
  have hcarets : (caretRow false column width).toList =
      ("     | ".toList ++ List.replicate column ' ') ++ List.replicate width '^' := by
    have hmax : (max (width : Int) 1).toNat = width := by omega
    rw [caretRow, hmax, Int.toNat_natCast]
    simp [Style.paint]
  have hspaces : '^' ∉ "     | ".toList ++ List.replicate column ' ' := by
    simp
  rw [marked, hrow, hcarets, zip_carets _ hspaces, List.length_append, List.length_replicate]
  show (List.drop (7 + column) _).take width = _
  rw [← List.drop_drop, List.drop_left' hgutter]

/-! ## The span -/

/-- The rows of the line at the offset are written one after the other. -/
theorem exists_format_eq {s : Snippet} {text : String} (h : (s.errorLine, text) ∈ s.lines) (color : Bool) :
    ∃ upper lower, s.format color = String.intercalate "\n"
      (upper ++ [sourceRow color s.errorLine text true, caretRow color s.column s.width] ++ lower) := by
  obtain ⟨lines, lines', hlines⟩ := List.append_of_mem h
  refine ⟨[rule color] ++ lines.flatMap (s.lineRows color), lines'.flatMap (s.lineRows color) ++ [rule color], ?_⟩
  have hrows : s.lineRows color (s.errorLine, text) =
      [sourceRow color s.errorLine text true, caretRow color s.column s.width] := if_pos rfl
  rw [format, hlines, List.flatMap_append, List.flatMap_cons, hrows]
  simp only [List.append_assoc]

theorem clamp_of_lt {n : Nat} (h : start < n) : clamp start n = start := by
  unfold clamp
  omega

section

variable {source : String} (hstart : start < source.toList.length) (stop : Option Int) (context : Nat)

include hstart

theorem errorLine_around :
    (around source start stop context).errorLine = (above source.toList start).count '\n' + 1 := by
  rw [count_above, around, clamp_of_lt hstart]

theorem column_around : (around source start stop context).column = (lead source.toList start).length := by
  rw [lead, List.rtakeWhile, List.length_reverse, around, clamp_of_lt hstart]

theorem width_around : (around source start stop context).width =
    caretWidth start stop ((source.toList.drop start).takeWhile (· ≠ '\n')).length := by
  rw [around, clamp_of_lt hstart]

end

/-- The line that has the number of the line at an offset. With no stray line end above it is the line at the offset, up
to the first line end; otherwise it is a line above. -/
theorem exists_getElem?_lines {source : String} (hstart : start < source.toList.length) :
    ∃ text, (Text.lines source)[(above source.toList start).count '\n']? = some text ∧
      (strayEnds (above source.toList start) = 0 → text.toList =
        (source.toList.drop (start - (lead source.toList start).length)).takeWhile fun c => !isLineEnd c) ∧
      (strayEnds (above source.toList start) ≠ 0 →
        (Text.lines (String.ofList (above source.toList start)))[(above source.toList start).count '\n']? =
          some text) := by
  have hlength : (linesFrom [] (above source.toList start)).length =
      (above source.toList start).count '\n' + strayEnds (above source.toList start) :=
    length_linesFrom fed_above fun _ => rfl
  have hline : source.toList.drop (start - (lead source.toList start).length) ≠ [] := by
    rw [Ne, List.drop_eq_nil_iff]
    omega
  obtain ⟨below, hlines⟩ := exists_linesFrom_eq (Nat.le_of_lt hstart) hline
  rw [Text.lines, hlines, List.getElem?_map]
  by_cases hstray : strayEnds (above source.toList start) = 0
  · -- as many lines above as line feeds
    rw [List.getElem?_append_right (by omega), show (above source.toList start).count '\n' -
      (linesFrom [] (above source.toList start)).length = 0 by omega]
    exact ⟨_, rfl, fun _ => String.toList_ofList, fun h => absurd hstray h⟩
  · have hlt : (above source.toList start).count '\n' < (linesFrom [] (above source.toList start)).length := by
      omega
    rw [List.getElem?_append_left hlt, List.getElem?_eq_getElem hlt]
    refine ⟨_, rfl, fun h => absurd h hstray, fun _ => ?_⟩
    rw [Text.lines, String.toList_ofList, List.getElem?_map, List.getElem?_eq_getElem hlt, Option.map_some]

/-- The span has the width of the carets and stays in the line. -/
theorem length_take_width {c : Char} (hstart : cs[start]? = some c) (hc : c ≠ '\n') {stop : Option Int} {width : Nat}
    (hwidth : width = caretWidth start stop ((cs.drop start).takeWhile (· ≠ '\n')).length) :
    ((cs.drop start).take width).length = width ∧ '\n' ∉ (cs.drop start).take width := by
  obtain ⟨hlt, hget⟩ := List.getElem?_eq_some_iff.mp hstart
  have hpos : 0 < ((cs.drop start).takeWhile (· ≠ '\n')).length := by
    rw [List.drop_eq_getElem_cons hlt, hget, List.takeWhile_cons_of_pos (by simpa using hc)]
    exact Nat.succ_pos _
  have hle : width ≤ ((cs.drop start).takeWhile (· ≠ '\n')).length := hwidth ▸ caretWidth_le hpos start stop
  have hprefix := List.takeWhile_prefix (l := cs.drop start) (· ≠ '\n')
  have hrest := hprefix.length_le
  constructor
  · rw [List.length_take]
    omega
  · intro hmem
    have htake : (cs.drop start).take width = ((cs.drop start).takeWhile (· ≠ '\n')).take width := by
      conv_rhs => rw [List.prefix_iff_eq_take.mp hprefix, List.take_take, Nat.min_eq_left hle]
    rw [htake] at hmem
    simpa using List.mem_takeWhile_imp (List.mem_of_mem_take hmem)

/-- How a snippet shows the span of its width at `start`, with `text` for the line at `start`. -/
structure Shows (source : String) (start : Nat) (s : Snippet) (text : String) : Prop where
  width_pos : 0 < s.width
  /-- The span is as wide as the snippet says, and stays in the line. -/
  length_span : ((source.toList.drop start).take s.width).length = s.width
  feed_notMem_span : '\n' ∉ (source.toList.drop start).take s.width
  /-- One line has the number of the line at `start`. -/
  numbered : s.lines.filter (fun l => l.1 = s.errorLine) = [(s.errorLine, text)]
  /-- The carets are in the row below it. -/
  rows : ∃ upper lower, s.format false = String.intercalate "\n"
    (upper ++ [sourceRow false s.errorLine text true, caretRow false s.column s.width] ++ lower)
  /-- They stand under the marked place as long as the number of the line has no more than three digits. -/
  marks : s.errorLine < 1000 → marked (sourceRow false s.errorLine text true) (caretRow false s.column s.width) =
    (text.toList.drop s.column).take s.width
  /-- With no stray line end above, the span is marked exactly if no line end stands in the line up to its end. -/
  marks_span_iff : strayEnds (source.toList.take (start - s.column)) = 0 →
    ((text.toList.drop s.column).take s.width = (source.toList.drop start).take s.width ↔
      ∀ c ∈ (source.toList.drop (start - s.column)).take (s.column + s.width), isLineEnd c = false)
  /-- With a stray line end above, the number is that of a line further up. -/
  line_above : strayEnds (source.toList.take (start - s.column)) ≠ 0 →
    (Text.lines (String.ofList (source.toList.take (start - s.column))))[s.errorLine - 1]? = some text

/-- A snippet at an offset where there is no line feed shows the span there. -/
theorem shows_span {source : String} {c : Char} (hstart : source.toList[start]? = some c) (hc : c ≠ '\n')
    (stop : Option Int) (context : Nat) : ∃ text, Shows source start (around source start stop context) text := by
  obtain ⟨hlt, -⟩ := List.getElem?_eq_some_iff.mp hstart
  obtain ⟨text, htext, hunstrayed, hstrayed⟩ := exists_getElem?_lines hlt
  have hcolumn := column_around hlt stop context
  have hwidth := width_around hlt stop context
  have hnumber := errorLine_around hlt stop context
  have hfilter := filter_lines_around source start stop context
  dsimp only at hfilter
  generalize around source start stop context = s at hcolumn hwidth hnumber hfilter ⊢
  have habove : source.toList.take (start - s.column) = above source.toList start := by
    rw [hcolumn, take_above (Nat.le_of_lt hlt)]
  have hspan : ((source.toList.drop (start - s.column)).drop s.column).take s.width =
      (source.toList.drop start).take s.width := by
    rw [hcolumn, drop_above (Nat.le_of_lt hlt)]
  have hpos : 0 < s.width := hwidth ▸ caretWidth_pos ..
  obtain ⟨hlength, hfeed⟩ := length_take_width hstart hc hwidth
  rw [show (above source.toList start).count '\n' = s.errorLine - 1 by omega] at htext hstrayed
  rw [htext, Option.map_some, Option.toList_some] at hfilter
  have hmem : (s.errorLine, text) ∈ s.lines :=
    (List.mem_filter.mp (hfilter ▸ List.mem_singleton_self (s.errorLine, text))).1
  refine ⟨text, hpos, hlength, hfeed, hfilter, exists_format_eq hmem false,
    fun hn => marked_rows hn text s.column hpos, fun hstray => ?_, habove ▸ hstrayed⟩
  have hend : s.column + s.width ≤ (source.toList.drop (start - s.column)).length := by
    rw [← hspan, List.length_take, List.length_drop] at hlength
    omega
  rw [hunstrayed (habove ▸ hstray), ← hcolumn, ← hspan, take_drop_takeWhile_iff hpos hend]
  simp only [Bool.not_eq_true']

/-- The carriage return that ends the first line goes with a line feed. -/
theorem shows_span_returns :
    let s := around "<p>\r\n  <b v-once>\n</p>" (10 : Nat) (some 16) (2 : Nat)
    ∃ text, s.lines.filter (fun l => l.1 = s.errorLine) = [(s.errorLine, text)] ∧
      (text.toList.drop s.column).take s.width = "v-once".toList ∧
      marked (sourceRow false s.errorLine text true) (caretRow false s.column s.width) = "v-once".toList := by
  intro s
  obtain ⟨text, hshows⟩ := shows_span
    (show "<p>\r\n  <b v-once>\n</p>".toList[10]? = some 'v' by decide +kernel) (by decide) (some 16) 2
  have hends : ((("<p>\r\n  <b v-once>\n</p>".toList.drop (10 - s.column)).take (s.column + s.width)).all
      fun c => !isLineEnd c) = true := by
    decide +kernel
  have htext := (hshows.marks_span_iff (by decide +kernel)).mpr fun c hc => by simpa using List.all_eq_true.mp hends c hc
  have hword : ("<p>\r\n  <b v-once>\n</p>".toList.drop 10).take s.width = "v-once".toList := by decide +kernel
  exact ⟨text, hshows.numbered, htext.trans hword, (hshows.marks (by decide +kernel)).trans (htext.trans hword)⟩

-- A carriage return before a line feed is in the span, but not in the line.
example : around "a\r\nb" 0 none 0 = ⟨[(1, "a")], 1, 0, 2⟩ := by
  decide +kernel

end TemplateCompiler.Snippet
