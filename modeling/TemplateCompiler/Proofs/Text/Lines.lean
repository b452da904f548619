import TemplateCompiler.Text.Lines

/-!
# Lines and line feeds

Other characters than line feeds end lines, too. Where every line end above a place goes with a line feed, counting
line feeds gives the number of the line at that place; each stray line end moves it on by one (`length_linesFrom`).
After a line feed lines start anew (`linesFrom_append`), and the first line goes up to the first line end
(`exists_linesFrom_eq_cons`).
-/

namespace TemplateCompiler.Text

variable {line cs rest : List Char} {c : Char}

/-- How many line ends go with no line feed: they are none, and are not carriage returns in front of one. -/
def strayEnds : List Char → Nat
  | [] => 0
  | c :: cs =>
    strayEnds cs + if isLineEnd c = true ∧ c ≠ '\n' ∧ (c = '\r' → cs.head? ≠ some '\n') then 1 else 0

/-- What is empty or ends with a line feed. -/
def Fed (cs : List Char) : Prop :=
  ∀ c ∈ cs.getLast?, c = '\n'

theorem Fed.tail (h : Fed (c :: cs)) : Fed cs := by
  cases cs with
  | nil => simp [Fed]
  | cons d cs => rwa [Fed, List.getLast?_cons_cons] at h

theorem Fed.eq_feed (h : Fed [c]) : c = '\n' :=
  h c rfl

/-! ## Steps -/

theorem linesFrom_cons (hc : isLineEnd c = false) : linesFrom line (c :: cs) = linesFrom (c :: line) cs := by
  rw [linesFrom, if_neg (by simp [hc])]
  rintro rest rfl
  simp [isLineEnd] at hc

theorem linesFrom_cons_end (hc : isLineEnd c = true) (hcs : c = '\r' → cs.head? ≠ some '\n') :
    linesFrom line (c :: cs) = line.reverse :: linesFrom [] cs := by
  rw [linesFrom, if_pos hc]
  rintro rest rfl rfl
  exact hcs rfl rfl

/-- A carriage return keeps the line feed after it. -/
theorem head?_ne_of_not_pair (h : ∀ rest, c = '\r' → cs = '\n' :: rest → False) : c = '\r' → cs.head? ≠ some '\n' := by
  intro hc hcs
  obtain ⟨rest, rfl⟩ := List.head?_eq_some_iff.mp hcs
  exact h rest hc rfl

/-- The characters of the lines are those of the text. -/
theorem subset_of_mem_linesFrom {l : List Char} (hl : l ∈ linesFrom line cs) : l ⊆ line ++ cs := by
  induction line, cs using linesFrom.induct with
  | case1 line hline => simp [linesFrom, hline] at hl
  | case2 line hline =>
    simp only [linesFrom, hline, Bool.false_eq_true, if_false, List.mem_singleton] at hl
    simp [hl]
  | case3 line cs ih =>
    rw [linesFrom] at hl
    rcases List.mem_cons.mp hl with rfl | hl
    · simp
    · exact List.subset_append_of_subset_right _ fun c hc => by simpa using .inr (.inr (ih hl hc))
  | case4 line c cs hpair hc ih =>
    rw [linesFrom_cons_end hc (head?_ne_of_not_pair hpair)] at hl
    rcases List.mem_cons.mp hl with rfl | hl
    · simp
    · exact List.subset_append_of_subset_right _ fun c hc => by simpa using .inr (ih hl hc)
  | case5 line c cs hpair hc ih =>
    rw [linesFrom_cons (by simpa using hc)] at hl
    intro d hd
    have hmem := ih hl hd
    simp only [List.mem_append, List.mem_cons] at hmem ⊢
    grind

/-! ## After a line feed -/

theorem linesFrom_append (hcs : Fed cs) (hline : cs = [] → line = []) :
    linesFrom line (cs ++ rest) = linesFrom line cs ++ linesFrom [] rest := by
  induction line, cs using linesFrom.induct with
  | case1 line hnil =>
    rw [hline rfl]
    rfl
  | case2 line hnil =>
    rw [hline rfl]
    rfl
  | case3 line cs ih =>
    rw [List.cons_append, List.cons_append, linesFrom, linesFrom, ih hcs.tail.tail fun _ => rfl, List.cons_append]
  | case4 line c cs hpair hc ih =>
    have hhead : c = '\r' → (cs ++ rest).head? ≠ some '\n' := by
      intro hreturn
      cases cs with
      | nil => exact absurd (hcs.eq_feed.symm.trans hreturn) (by decide)
      | cons d cs =>
        have hhead := head?_ne_of_not_pair hpair hreturn
        rwa [List.head?_cons] at hhead
    rw [List.cons_append, linesFrom_cons_end hc hhead, linesFrom_cons_end hc (head?_ne_of_not_pair hpair),
      ih hcs.tail fun _ => rfl, List.cons_append]
  | case5 line c cs hpair hc ih =>
    have hc : isLineEnd c = false := by simpa using hc
    have hne : cs ≠ [] := by
      rintro rfl
      rw [hcs.eq_feed] at hc
      exact absurd hc (by decide)
    rw [List.cons_append, linesFrom_cons hc, linesFrom_cons hc, ih hcs.tail fun h => absurd h hne]

/-- A text that ends with a line feed has a line for each line feed and for each stray line end. -/
theorem length_linesFrom (hcs : Fed cs) (hline : cs = [] → line = []) :
    (linesFrom line cs).length = cs.count '\n' + strayEnds cs := by
  induction line, cs using linesFrom.induct with
  | case1 line hnil =>
    rw [hline rfl]
    rfl
  | case2 line hnil =>
    rw [hline rfl]
    rfl
  | case3 line cs ih =>
    rw [linesFrom, List.length_cons, ih hcs.tail.tail fun _ => rfl]
    simp [strayEnds]
    omega
  | case4 line c cs hpair hc ih =>
    have hhead := head?_ne_of_not_pair hpair
    rw [linesFrom_cons_end hc hhead, List.length_cons, ih hcs.tail fun _ => rfl, strayEnds]
    by_cases hfeed : c = '\n'
    · rw [hfeed, List.count_cons_self, if_neg fun h => h.2.1 rfl]
      omega
    · rw [List.count_cons_of_ne hfeed, if_pos ⟨hc, hfeed, hhead⟩]
      omega
  | case5 line c cs hpair hc ih =>
    have hc : isLineEnd c = false := by simpa using hc
    have hfeed : c ≠ '\n' := by
      rintro rfl
      exact absurd hc (by decide)
    have hne : cs ≠ [] := by
      rintro rfl
      exact hfeed hcs.eq_feed
    rw [linesFrom_cons hc, ih hcs.tail fun h => absurd h hne, strayEnds, List.count_cons_of_ne hfeed]
    simp [hc]

/-! ## The first line -/

/-- The first line of what is not empty goes up to the first line end. -/
theorem exists_linesFrom_eq_cons (h : line ≠ [] ∨ cs ≠ []) :
    ∃ ls, linesFrom line cs = (line.reverse ++ cs.takeWhile fun c => !isLineEnd c) :: ls := by
  induction cs generalizing line with
  | nil =>
    have hline : line.isEmpty = false := by simpa using h
    exact ⟨[], by simp [linesFrom, hline]⟩
  | cons c cs ih =>
    by_cases hc : isLineEnd c = true
    · rw [List.takeWhile_cons_of_neg (by simp [hc]), List.append_nil]
      by_cases hpair : c = '\r' ∧ cs.head? = some '\n'
      · obtain ⟨rfl, hcs⟩ := hpair
        obtain ⟨rest, rfl⟩ := List.head?_eq_some_iff.mp hcs
        exact ⟨_, linesFrom.eq_2 ..⟩
      · exact ⟨_, linesFrom_cons_end hc fun hreturn hhead => hpair ⟨hreturn, hhead⟩⟩
    · have hc : isLineEnd c = false := by simpa using hc
      obtain ⟨ls, hls⟩ := ih (.inl (List.cons_ne_nil c line))
      refine ⟨ls, ?_⟩
      rw [linesFrom_cons hc, hls, List.takeWhile_cons_of_pos (by simp [hc])]
      simp

end TemplateCompiler.Text
