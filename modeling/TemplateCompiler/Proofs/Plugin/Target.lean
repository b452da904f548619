import Mathlib.Data.List.TakeDrop
import Mathlib.Data.List.TakeWhile
import TemplateCompiler.Proofs.Plugin.Index

/-!
# Targets and their last access

A target is a path: a name, or a member of a path, by a name as in `p.x` or by an index as in `p[k]`. From an opening
bracket on, the scan of a target goes along with a reader of the index (`Scan.step_of_some`, `Scan.step_of_none`). So a
path is split at its last access (`parse_ident`, `parse_point`), and `p[k]` is split into `p` and `k` exactly if `k` is
an index (`parse_index_iff`).
-/

namespace TemplateCompiler.ModelPath

open Text

/-! ## Paths -/

/-- A character of the names in a path. -/
def isIdentChar (c : Char) : Bool :=
  !isQuote c && c != '[' && c != ']' && c != '.' && !isBlank c

/-- A name in a path. -/
structure IsIdent (s : String) : Prop where
  ne_nil : s.toList ≠ []
  chars : s.toList.all isIdentChar = true

instance : DecidablePred IsIdent := fun s =>
  decidable_of_iff (s.toList ≠ [] ∧ s.toList.all isIdentChar = true)
    ⟨fun h => ⟨h.1, h.2⟩, fun h => ⟨h.ne_nil, h.chars⟩⟩

inductive IsPath : String → Prop
  | ident {x : String} (hx : IsIdent x) : IsPath x
  | point {p x : String} (hp : IsPath p) (hx : IsIdent x) : IsPath (p ++ "." ++ x)
  | index {p k : String} (hp : IsPath p) (hk : IsIndex k.toList) : IsPath (p ++ "[" ++ k ++ "]")

/-! ## The scan -/

/-- The place of the scan for a reader of an index. -/
def Nesting.place : Nesting → Place
  | ⟨d, none⟩ => .inside (d + 1)
  | ⟨d, some mark⟩ => .quotedInside (d + 1) mark

theorem Nesting.place_injective : Function.Injective Nesting.place := by
  rintro ⟨d, _ | mark⟩ ⟨e, _ | mark'⟩ h <;> cases h <;> rfl

def Place.isOutside : Place → Bool
  | .outside | .quotedOutside _ => true
  | .inside _ | .quotedInside _ _ => false

namespace Scan

variable {s : Scan} {n n' : Nesting} {c : Char} {cs : List Char}

/-- The scan goes along with the reader. -/
theorem step_of_some (hs : s.place = n.place) (h : n.step c = some n') :
    s.step c = { s with place := n'.place, offset := s.offset + 1 } := by
  obtain ⟨d, _ | mark⟩ := n
  · rw [Nesting.place] at hs
    simp only [step, hs]
    rcases Nesting.step_cases h with ⟨hc, rfl⟩ | ⟨rfl, rfl⟩ | ⟨rfl, e, rfl, rfl⟩ | ⟨hc, rfl⟩
    · simp [hc, Nesting.place]
    · simp [isQuote, Nesting.place]
    · simp [isQuote, Nesting.place]
    · simp only [isPlain, Bool.and_eq_true, Bool.not_eq_true', bne_iff_ne] at hc
      simp [hc, Nesting.place]
  · rw [Nesting.place] at hs
    simp only [step, hs]
    rw [← Option.some.inj h]
    split <;> simp_all [Nesting.place]

/-- The bracket at which the reader fails closes the index. -/
theorem step_of_none (hs : s.place = n.place) (h : n.step c = none) :
    s.step c = { s with place := .outside, offset := s.offset + 1, closing := s.offset } := by
  obtain ⟨rfl, rfl⟩ := Nesting.eq_of_step_none h
  simp [step, hs, Nesting.place, isQuote]

/-- What a step may do to the offsets. -/
theorem step_offsets (s : Scan) (c : Char) : (s.step c).offset = s.offset + 1 ∧
    ((s.step c).opening = s.opening ∨ (s.step c).opening = s.offset) ∧
    ((s.step c).closing = s.closing ∨ (s.step c).closing = s.offset) := by
  unfold step
  split
  all_goals (repeat' split) <;> simp

theorem foldl_of_run (hs : s.place = n.place) (h : n.run cs = some n') :
    cs.foldl step s = { s with place := n'.place, offset := s.offset + cs.length } := by
  induction cs generalizing s n with
  | nil =>
    cases h
    rw [← hs]
    rfl
  | cons c cs ih =>
    rw [Nesting.run_cons, Option.bind_eq_some_iff] at h
    obtain ⟨m, hstep, h⟩ := h
    rw [List.foldl_cons, step_of_some hs hstep, ih rfl h]
    simp only [List.length_cons, Nat.add_assoc, Nat.add_comm 1]

/-- The last opening bracket is never before one that was seen. -/
theorem opening_le_foldl (h : s.opening ≤ s.offset) (cs : List Char) : s.opening ≤ (cs.foldl step s).opening := by
  induction cs generalizing s with
  | nil => exact Nat.le_refl _
  | cons c cs ih =>
    obtain ⟨hoffset, hopening, -⟩ := s.step_offsets c
    rw [List.foldl_cons]
    exact Nat.le_trans (by omega) (ih (by omega))

theorem closing_le_foldl (h : s.closing ≤ s.offset) (cs : List Char) :
    (cs.foldl step s).closing ≤ (cs.foldl step s).offset := by
  induction cs generalizing s with
  | nil => exact h
  | cons c cs ih =>
    obtain ⟨hoffset, -, hclosing⟩ := s.step_offsets c
    exact ih (by omega)

theorem step_of_isOutside (hs : s.place.isOutside = true) (c : Char) :
    (s.step c).opening = s.offset ∨
      (s.step c).place.isOutside = true ∧ (s.step c).opening = s.opening ∧ (s.step c).closing = s.closing := by
  cases hplace : s.place with
  | outside =>
    simp only [step, hplace]
    split
    · exact .inr ⟨rfl, rfl, rfl⟩
    split
    · exact .inl rfl
    · exact .inr ⟨rfl, rfl, rfl⟩
  | quotedOutside mark =>
    simp only [step, hplace]
    split <;> exact .inr ⟨rfl, rfl, rfl⟩
  | inside | quotedInside =>
    rw [hplace] at hs
    cases hs

/-- Nothing is closed after an index, unless another one is opened. -/
theorem closing_of_isOutside (hplace : s.place.isOutside = true) (hs : s.opening < s.offset)
    (h : (cs.foldl step s).opening = s.opening) : (cs.foldl step s).closing = s.closing := by
  induction cs generalizing s with
  | nil => rfl
  | cons c cs ih =>
    obtain ⟨hoffset, -⟩ := s.step_offsets c
    rw [List.foldl_cons] at h ⊢
    rcases s.step_of_isOutside hplace c with hopen | ⟨hout, hopening, hclosing⟩
    · have hle := opening_le_foldl (s := s.step c) (by omega) cs
      omega
    · rw [ih hout (by omega) (h.trans hopening.symm), hclosing]

/-- If something is open in an index before its bracket, or the index is closed before, then that bracket does not
close the index. -/
theorem closing_of_run_ne (hs : s.place = n.place) (hopening : s.opening < s.offset) (hclosing : s.closing < s.offset)
    (h : n.run cs ≠ some {}) (hsame : ((cs ++ [']']).foldl step s).opening = s.opening) :
    ((cs ++ [']']).foldl step s).closing ≠ s.offset + cs.length := by
  induction cs generalizing s n with
  | nil =>
    -- The bracket is read in quotes or closes an inner one.
    obtain ⟨n', hstep⟩ : ∃ n', n.step ']' = some n' := by
      rw [← Option.ne_none_iff_exists']
      intro hnone
      exact h (congrArg some (Nesting.eq_of_step_none hnone).1)
    rw [List.nil_append, List.foldl_cons, List.foldl_nil, step_of_some hs hstep]
    exact Nat.ne_of_lt hclosing
  | cons c cs ih =>
    rw [List.cons_append, List.foldl_cons] at hsame ⊢
    cases hstep : n.step c with
    | some n' =>
      rw [step_of_some hs hstep] at hsame ⊢
      rw [Nesting.run_cons, hstep] at h
      have hrest := ih (s := { s with place := n'.place, offset := s.offset + 1 }) rfl (Nat.lt_succ_of_lt hopening)
        (Nat.lt_succ_of_lt hclosing) h hsame
      rwa [List.length_cons, Nat.add_comm cs.length, ← Nat.add_assoc]
    | none =>
      -- The index is closed here, too early, and to close another one the scan would have to open it.
      rw [step_of_none hs hstep] at hsame ⊢
      rw [closing_of_isOutside rfl (Nat.lt_succ_of_lt hopening) hsame, List.length_cons]
      simp only
      omega

theorem offset_foldl (s : Scan) (cs : List Char) : (cs.foldl step s).offset = s.offset + cs.length := by
  induction cs generalizing s with
  | nil => rfl
  | cons c cs ih =>
    rw [List.foldl_cons, ih, (s.step_offsets c).1, List.length_cons, Nat.add_assoc, Nat.add_comm 1]

theorem step_opening (hs : s.place = .outside) :
    s.step '[' = { s with place := .inside 1, offset := s.offset + 1, opening := s.offset } := by
  simp [step, hs, isQuote]

/-- An index from its opening to its closing bracket. -/
theorem foldl_index (hs : s.place = .outside) (h : IsIndex cs) : ('[' :: cs ++ [']']).foldl step s =
    { place := .outside, offset := s.offset + cs.length + 2, opening := s.offset,
      closing := s.offset + cs.length + 1 } := by
  rw [List.cons_append, List.foldl_cons, step_opening hs, List.foldl_append,
    foldl_of_run (n := {}) rfl (isIndex_iff.mp h), List.foldl_cons, List.foldl_nil, step_of_none (n := {}) rfl rfl]
  simp only [mk.injEq, true_and]
  omega

/-- The last bracket of what is no index does not close the first one. -/
theorem closing_of_not_isIndex (hs : s.place = .outside) (hclosing : s.closing ≤ s.offset) (h : ¬ IsIndex cs)
    (hsame : (('[' :: cs ++ [']']).foldl step s).opening = s.offset) :
    (('[' :: cs ++ [']']).foldl step s).closing ≠ s.offset + 1 + cs.length := by
  rw [List.cons_append, List.foldl_cons, step_opening hs] at hsame ⊢
  exact closing_of_run_ne (s := { s with place := .inside 1, offset := s.offset + 1, opening := s.offset }) (n := {})
    rfl (Nat.lt_succ_self _) (Nat.lt_succ_of_le hclosing) (mt isIndex_iff.mpr h) hsame

/-- The scan passes by what opens nothing. -/
theorem foldl_of_forall (hs : s.place = .outside) (h : ∀ c ∈ cs, isQuote c = false ∧ c ≠ '[') :
    (cs.foldl step s).place = .outside := by
  induction cs generalizing s with
  | nil => exact hs
  | cons c cs ih =>
    obtain ⟨⟨hquote, hopen⟩, h⟩ := List.forall_mem_cons.mp h
    exact ih (by simp [step, hs, hquote, hopen]) h

end Scan

/-! ## Splitting a path -/

/-- The parts of `isIdentChar`. -/
theorem of_isIdentChar {c : Char} (h : isIdentChar c = true) :
    (isQuote c = false ∧ c ≠ '[') ∧ c ≠ ']' ∧ c ≠ '.' ∧ isBlank c = false := by
  simp only [isIdentChar, Bool.and_eq_true, Bool.not_eq_true', bne_iff_ne] at h
  exact ⟨h.1.1.1, h.1.1.2, h.1.2, h.2⟩

theorem IsIdent.of_mem {x : String} (hx : IsIdent x) {c : Char} (hc : c ∈ x.toList) :
    (isQuote c = false ∧ c ≠ '[') ∧ c ≠ ']' ∧ c ≠ '.' ∧ isBlank c = false :=
  of_isIdentChar (List.all_eq_true.mp hx.chars c hc)

/-- The last character of a text that ends in a name. -/
theorem IsIdent.getLast? {x : String} (hx : IsIdent x) (cs : List Char) :
    ∃ c ∈ x.toList, (cs ++ x.toList).getLast? = some c := by
  obtain ⟨ys, c, hys⟩ := (List.eq_nil_or_concat x.toList).resolve_left hx.ne_nil
  exact ⟨c, by rw [hys]; simp, by rw [hys]; simp⟩

theorem toList_point (p x : String) : (p ++ "." ++ x).toList = p.toList ++ '.' :: x.toList := by
  simp

theorem toList_index (p k : String) :
    (p ++ "[" ++ k ++ "]").toList = p.toList ++ ('[' :: k.toList ++ [']']) := by
  simp

namespace IsPath

variable {p x k : String}

/-- The scan of a path ends outside of brackets. -/
theorem place_foldl (h : IsPath p) : (p.toList.foldl Scan.step {}).place = .outside := by
  induction h with
  | ident hx => exact Scan.foldl_of_forall rfl fun c hc => (hx.of_mem hc).1
  | @point p x _ hx ih =>
    rw [toList_point, List.foldl_append]
    exact Scan.foldl_of_forall ih (List.forall_mem_cons.mpr ⟨by decide, fun c hc => (hx.of_mem hc).1⟩)
  | index _ hk ih => rw [toList_index, List.foldl_append, Scan.foldl_index ih hk]

/-- A path begins with a character of a name. -/
theorem exists_cons (h : IsPath p) : ∃ c cs, p.toList = c :: cs ∧ isIdentChar c = true := by
  induction h with
  | ident hx =>
    obtain ⟨c, cs, hcs⟩ := List.exists_cons_of_ne_nil hx.ne_nil
    exact ⟨c, cs, hcs, List.all_eq_true.mp hx.chars c (hcs ▸ List.mem_cons_self ..)⟩
  | point _ _ ih =>
    obtain ⟨c, cs, hcs, hc⟩ := ih
    exact ⟨c, _, by rw [toList_point, hcs]; rfl, hc⟩
  | index _ _ ih =>
    obtain ⟨c, cs, hcs, hc⟩ := ih
    exact ⟨c, _, by rw [toList_index, hcs]; rfl, hc⟩

/-- Hence it makes no difference that the first character of a target opens nothing. -/
theorem scan_append (h : IsPath p) (cs : List Char) :
    scan (p.toList ++ cs) = (p.toList ++ cs).foldl Scan.step {} := by
  obtain ⟨c, ds, hds, hc⟩ := h.exists_cons
  obtain ⟨⟨hquote, hopen⟩, -⟩ := of_isIdentChar hc
  have hstep : Scan.step {} c = { offset := 1 } := by simp [Scan.step, hquote, hopen]
  rw [hds, List.cons_append, List.foldl_cons, hstep]
  rfl

end IsPath

theorem trimChars_eq {cs : List Char} (hfirst : ∀ c ∈ cs.head?, isBlank c = false)
    (hlast : ∀ c ∈ cs.getLast?, isBlank c = false) : trimChars cs = cs := by
  have hdrop (ds : List Char) (h : ∀ c ∈ ds.head?, isBlank c = false) : ds.dropWhile isBlank = ds := by
    cases ds with
    | nil => rfl
    | cons d ds => rw [List.dropWhile_cons, if_neg (by rw [h d rfl]; decide)]
  rw [trimChars, hdrop cs hfirst, hdrop _ (by rw [List.head?_reverse]; exact hlast), List.reverse_reverse]

/-- What begins with a path and does not end in a blank. -/
theorem IsPath.trimChars_append {p : String} (h : IsPath p) {cs : List Char}
    (hlast : ∀ c ∈ (p.toList ++ cs).getLast?, isBlank c = false) : trimChars (p.toList ++ cs) = p.toList ++ cs := by
  refine trimChars_eq (fun c hc => ?_) hlast
  obtain ⟨d, ds, hds, hd⟩ := h.exists_cons
  rw [hds] at hc
  obtain rfl : d = c := Option.some.inj hc
  exact (of_isIdentChar hd).2.2.2

/-- A text is split before its first point. -/
theorem span_point {x rest : List Char} (hx : '.' ∉ x) (hrest : ∀ c ∈ rest.head?, c = '.') :
    (x ++ rest).span (· != '.') = (x, rest) := by
  have hall : ∀ c ∈ x, (c != '.') = true := by
    intro c hc
    rw [bne_iff_ne]
    rintro rfl
    exact hx hc
  rw [List.span_eq_takeWhile_dropWhile, List.takeWhile_append_of_pos hall, List.dropWhile_append_of_pos hall]
  cases rest with
  | nil => simp
  | cons c rest => simp [hrest c rfl]

theorem splitAtPoint_name {x : List Char} (hx : '.' ∉ x) : splitAtPoint x = ⟨String.ofList x, none⟩ := by
  have hspan : (x.reverse ++ []).span (· != '.') = (x.reverse, []) :=
    span_point (by rwa [List.mem_reverse]) (by simp)
  rw [List.append_nil] at hspan
  rw [splitAtPoint, hspan]

theorem splitAtPoint_point {p x : List Char} (hx : '.' ∉ x) : splitAtPoint (p ++ '.' :: x) =
    ⟨String.ofList p, some (String.ofList ('"' :: x ++ ['"']))⟩ := by
  have hspan : (p ++ '.' :: x).reverse.span (· != '.') = (x.reverse, '.' :: p.reverse) := by
    rw [List.reverse_append, List.reverse_cons, List.append_assoc, List.singleton_append]
    exact span_point (by rwa [List.mem_reverse]) fun c hc => (Option.some.inj hc).symm
  rw [splitAtPoint, hspan]
  simp

theorem parse_ident {x : String} (hx : IsIdent x) : parse x = ⟨x, none⟩ := by
  have htrim : trimChars x.toList = x.toList := by
    have hall {c : Char} (hc : c ∈ x.toList) : isBlank c = false := (hx.of_mem hc).2.2.2
    exact trimChars_eq (fun c hc => hall (List.mem_of_head? hc)) fun c hc => hall (List.mem_of_getLast? hc)
  have hbracket : x.toList.contains '[' = false := by
    rw [List.contains_eq_mem, decide_eq_false_iff_not]
    exact fun h => (hx.of_mem h).1.2 rfl
  unfold parse
  rw [htrim]
  simp only [hbracket, Bool.false_and, Bool.false_eq_true, if_false]
  rw [splitAtPoint_name fun h => (hx.of_mem h).2.2.1 rfl, String.ofList_toList]

theorem parse_point {p x : String} (hp : IsPath p) (hx : IsIdent x) :
    parse (p ++ "." ++ x) = ⟨p, some ("\"" ++ x ++ "\"")⟩ := by
  obtain ⟨d, hd, hlast⟩ := hx.getLast? (p.toList ++ ['.'])
  rw [← List.append_cons] at hlast
  have htrim : trimChars (p.toList ++ '.' :: x.toList) = p.toList ++ '.' :: x.toList :=
    hp.trimChars_append fun c hc => by
      rw [hlast] at hc
      exact Option.some.inj hc ▸ (hx.of_mem hd).2.2.2
  have hbracket : (p.toList ++ '.' :: x.toList).getLast? ≠ some ']' := by
    rw [hlast, Ne, Option.some.injEq]
    exact (hx.of_mem hd).2.1
  unfold parse
  rw [toList_point, htrim]
  simp only [beq_eq_false_iff_ne.mpr hbracket, Bool.and_false, Bool.false_eq_true, if_false]
  rw [splitAtPoint_point fun h => (hx.of_mem h).2.2.1 rfl, String.ofList_toList]
  simp [← String.toList_inj]

/-- A path that is followed by brackets is split where the scan says. -/
theorem parse_brackets {p : String} (hp : IsPath p) {k : String} {cs : List Char} {s : Scan}
    (hcs : cs = p.toList ++ ('[' :: k.toList ++ [']'])) (hs : s = cs.foldl Scan.step {}) :
    parse (p ++ "[" ++ k ++ "]") =
      ⟨String.ofList (cs.take s.opening), some (String.ofList ((cs.take s.closing).drop (s.opening + 1)))⟩ := by
  have hlast : cs.getLast? = some ']' := by
    rw [hcs, ← List.append_assoc, List.getLast?_concat]
  have hcontains : cs.contains '[' = true := by simp [hcs]
  have hscan : scan cs = s := by rw [hs, hcs, hp.scan_append]
  have htrim : trimChars cs = cs := by
    subst hcs
    refine hp.trimChars_append fun c hc => ?_
    rw [hlast] at hc
    obtain rfl : ']' = c := Option.some.inj hc
    decide
  unfold parse
  rw [toList_index, ← hcs, htrim]
  simp only [hcontains, hlast, BEq.rfl, Bool.and_self, if_true, hscan]

/-- An index is split off. -/
theorem parse_index {p k : String} (hp : IsPath p) (hk : IsIndex k.toList) :
    parse (p ++ "[" ++ k ++ "]") = ⟨p, some k⟩ := by
  have hscan := Scan.foldl_index hp.place_foldl hk
  rw [Scan.offset_foldl, ← List.foldl_append, Nat.zero_add] at hscan
  rw [parse_brackets hp rfl hscan.symm]
  have hobject : (p.toList ++ ('[' :: k.toList ++ [']'])).take p.toList.length = p.toList := List.take_left
  have hkey : ((p.toList ++ ('[' :: k.toList ++ [']'])).take (p.toList.length + k.toList.length + 1)).drop
      (p.toList.length + 1) = k.toList := by
    rw [List.drop_take]
    simp
  rw [hobject, hkey, String.ofList_toList, String.ofList_toList]

/-- Nothing else is split off as it stands. -/
theorem isIndex_of_parse {p k : String} (hp : IsPath p) (h : parse (p ++ "[" ++ k ++ "]") = ⟨p, some k⟩) :
    IsIndex k.toList := by
  obtain ⟨cs, hcs⟩ : ∃ cs, cs = p.toList ++ ('[' :: k.toList ++ [']']) := ⟨_, rfl⟩
  obtain ⟨s, hs⟩ : ∃ s, s = cs.foldl Scan.step {} := ⟨_, rfl⟩
  have hlength : cs.length = p.toList.length + k.toList.length + 2 := by
    rw [hcs]
    simp
    omega
  rw [parse_brackets hp hcs hs, mk.injEq, Option.some.injEq, ← String.toList_inj, ← String.toList_inj,
    String.toList_ofList, String.toList_ofList] at h
  obtain ⟨hobject, hkey⟩ := h
  have hopening : s.opening = p.toList.length := by
    have := congrArg List.length hobject
    rw [List.length_take] at this
    omega
  by_contra hindex
  -- An empty key would leave the closing bracket open, but it is an index.
  have hclosing : s.closing = p.toList.length + 1 + k.toList.length := by
    have hpos : 0 < k.toList.length := List.length_pos_iff.mpr fun hnil => hindex (hnil ▸ .nil)
    have := congrArg List.length hkey
    rw [List.length_drop, List.length_take] at this
    omega
  rw [hs, hcs, List.foldl_append] at hopening hclosing
  have hoffset : (p.toList.foldl Scan.step {}).offset = p.toList.length := by rw [Scan.offset_foldl, Nat.zero_add]
  refine Scan.closing_of_not_isIndex hp.place_foldl (Scan.closing_le_foldl (Nat.le_refl 0) _) hindex ?_ ?_
  · rw [hopening, hoffset]
  · rw [hclosing, hoffset]

theorem parse_index_iff {p : String} (hp : IsPath p) (k : String) :
    parse (p ++ "[" ++ k ++ "]") = ⟨p, some k⟩ ↔ IsIndex k.toList :=
  ⟨isIndex_of_parse hp, parse_index hp⟩

/-! ## Blanks around a target -/

theorem trimChars_append_blank {cs after : List Char} (h : after.all isBlank = true) :
    trimChars (cs ++ after) = trimChars cs := by
  have hreverse : ∀ c ∈ after.reverse, isBlank c = true := fun c hc =>
    List.all_eq_true.mp h c (List.mem_reverse.mp hc)
  unfold trimChars
  rw [List.dropWhile_append]
  split
  · next hempty =>
    rw [List.isEmpty_iff.mp hempty, List.dropWhile_eq_nil_iff.mpr (List.all_eq_true.mp h)]
  · rw [List.reverse_append, List.dropWhile_append_of_pos hreverse]

theorem parse_surrounded {before after : String} (hbefore : before.toList.all isBlank = true)
    (hafter : after.toList.all isBlank = true) (target : String) :
    parse (before ++ target ++ after) = parse target := by
  have htrim : trimChars (before ++ target ++ after).toList = trimChars target.toList := by
    rw [String.toList_append, trimChars_append_blank hafter, String.toList_append, trimChars,
      List.dropWhile_append_of_pos (List.all_eq_true.mp hbefore)]
    rfl
  unfold parse
  rw [htrim]

theorem assignment_of_parse {target p key : String} (h : parse target = ⟨p, some key⟩) (names : Names)
    (value : String) :
    assignment names target value = names .set ++ "(" ++ p ++ ", " ++ key ++ ", " ++ value ++ ")" := by
  rw [assignment, h]

/-! ## Main results -/

/-- Every path, with blanks around it or without, is split at its last access, and an assignment to a member sets what
was split off. -/
theorem splits_at_last_access (before after : String) (hbefore : before.toList.all isBlank = true)
    (hafter : after.toList.all isBlank = true) :
    (∀ x, IsIdent x → parse (before ++ x ++ after) = ⟨x, none⟩) ∧
      (∀ p x, IsPath p → IsIdent x → parse (before ++ (p ++ "." ++ x) ++ after) = ⟨p, some ("\"" ++ x ++ "\"")⟩ ∧
        ∀ (names : Names) (value : String), assignment names (before ++ (p ++ "." ++ x) ++ after) value =
          names .set ++ "(" ++ p ++ ", " ++ ("\"" ++ x ++ "\"") ++ ", " ++ value ++ ")") ∧
      ∀ p k, IsPath p → IsIndex k.toList → parse (before ++ (p ++ "[" ++ k ++ "]") ++ after) = ⟨p, some k⟩ ∧
        ∀ (names : Names) (value : String), assignment names (before ++ (p ++ "[" ++ k ++ "]") ++ after) value =
          names .set ++ "(" ++ p ++ ", " ++ k ++ ", " ++ value ++ ")" := by
  have hparse := parse_surrounded hbefore hafter
  refine ⟨fun x hx => ?_, fun p x hp hx => ?_, fun p k hp hk => ?_⟩
  · rw [hparse, parse_ident hx]
  · have hsplit := (hparse _).trans (parse_point hp hx)
    exact ⟨hsplit, assignment_of_parse hsplit⟩
  · have hsplit := (hparse _).trans (parse_index hp hk)
    exact ⟨hsplit, assignment_of_parse hsplit⟩

/-- A row of a table, a cell of it by a key with a bracket in quotes, and a name in the cell. -/
theorem splits_at_last_access_cell :
    IsPath "rows[at[0]]" ∧ IsPath "rows[at[0]][cells['x]y']]" ∧
      parse " rows[at[0]][cells['x]y']]\t" = ⟨"rows[at[0]]", some "cells['x]y']"⟩ ∧
      assignment .standard " rows[at[0]][cells['x]y']].name\t" "$$v" =
        "$set(rows[at[0]][cells['x]y']], \"name\", $$v)" := by
  have hrow : IsPath "rows[at[0]]" := by
    simpa using IsPath.index (p := "rows") (k := "at[0]") (.ident (by decide)) (by decide)
  have hcell : IsPath "rows[at[0]][cells['x]y']]" := by
    simpa using IsPath.index (k := "cells['x]y']") hrow (by decide)
  obtain ⟨-, hpoint, hindex⟩ := splits_at_last_access " " "\t" (by decide) (by decide)
  refine ⟨hrow, hcell, ?_, ?_⟩
  · simpa using (hindex _ "cells['x]y']" hrow (by decide)).1
  · simpa [Names.standard] using (hpoint _ "name" hcell (by decide)).2 .standard "$$v"

/-- A key as a literal is split off as it stands exactly if the key would be an index between quotes without escapes,
since the scan knows none. A key without double quotes always is. -/
theorem quoted_key_iff {x : String} (hx : IsIdent x) (s : String) :
    (parse (x ++ "[" ++ Json.quote s ++ "]") = ⟨x, some (Json.quote s)⟩ ↔ IsIndex ("\"" ++ s ++ "\"").toList) ∧
      ('"' ∉ s.toList → parse (x ++ "[" ++ Json.quote s ++ "]") = ⟨x, some (Json.quote s)⟩) := by
  have hiff : parse (x ++ "[" ++ Json.quote s ++ "]") = ⟨x, some (Json.quote s)⟩ ↔
      IsIndex ("\"" ++ s ++ "\"").toList := by
    rw [parse_index_iff (.ident hx), Json.quote, String.toList_ofList, isIndex_quoteChars]
    simp
  refine ⟨hiff, fun hs => hiff.mpr ?_⟩
  have hquoted : IsIndex ('"' :: s.toList ++ ['"']) := .quoted rfl hs .nil
  simpa using hquoted

/-- One quote is not enough and two are, with brackets that match between them. -/
theorem quoted_key_iff_form : IsIdent "form" ∧
    parse ("form" ++ "[" ++ Json.quote "it's a ] \\" ++ "]") = ⟨"form", some (Json.quote "it's a ] \\")⟩ ∧
    parse ("form" ++ "[" ++ Json.quote "a\"[0]\"" ++ "]") = ⟨"form", some (Json.quote "a\"[0]\"")⟩ ∧
    parse ("form" ++ "[" ++ Json.quote "\"" ++ "]") ≠ ⟨"form", some (Json.quote "\"")⟩ := by
  have hx : IsIdent "form" := by decide
  exact ⟨hx, (quoted_key_iff hx _).2 (by decide), (quoted_key_iff hx _).1.mpr (by decide),
    mt (quoted_key_iff hx _).1.mp (by decide)⟩

end TemplateCompiler.ModelPath
