import Mathlib.Data.List.Perm.Basic
import TemplateCompiler.Proofs.Code.Marked

/-!
# Calls and once marks of a program

Code as it is generated holds no calls and no numbered marks; lifting makes one call for every
function and one number for every once mark. `Accounts` is what holds of a piece of lifted code and
the functions that were lifted with it. It composes in the order of lifting, and the order in which
the pieces stand does not matter, so the data and the children of a dynamic component may change
places. `exact_marked` is the result for a whole program, and `exactUnit_lift` for the inline templates
in it.
-/

namespace TemplateCompiler

namespace Code

/-- Whether a predicate holds of code and of all code in it. -/
def Everywhere (p : Code → Prop) : Code → Prop
  | text s => p (text s)
  | helper h => p (helper h)
  | append a b => p (append a b) ∧ a.Everywhere p ∧ b.Everywhere p
  | create i dynamic target data children =>
    p (create i dynamic target data children) ∧ data.Everywhere p ∧ children.Everywhere p
  | loop i source params body => p (loop i source params body) ∧ body.Everywhere p
  | branch i test yes no => p (branch i test yes no) ∧ yes.Everywhere p ∧ no.Everywhere p
  | fragment i body => p (fragment i body) ∧ body.Everywhere p
  | outlet i arguments => p (outlet i arguments) ∧ arguments.Everywhere p
  | slots i descriptors hint => p (slots i descriptors hint) ∧ descriptors.Everywhere p
  | hoist i inLoop body => p (hoist i inLoop body) ∧ body.Everywhere p
  | once i key body => p (once i key body) ∧ body.Everywhere p
  | call index inLoop => p (call index inLoop)
  | memo id key body => p (memo id key body) ∧ body.Everywhere p
  | inline body => p (inline body) ∧ body.Everywhere p
  | unit body => p (unit body) ∧ body.Everywhere p
  | rewritten f body => p (rewritten f body) ∧ body.Everywhere p

instance decidableEverywhere (p : Code → Prop) [DecidablePred p] : DecidablePred (Everywhere p)
  | append a b | create _ _ _ a b | branch _ _ a b =>
    have := decidableEverywhere p a
    have := decidableEverywhere p b
    inferInstanceAs (Decidable (p _ ∧ a.Everywhere p ∧ b.Everywhere p))
  | loop _ _ _ body | fragment _ body | outlet _ body | slots _ body _ | hoist _ _ body | once _ _ body
  | memo _ _ body | inline body | unit body | rewritten _ body =>
    have := decidableEverywhere p body
    inferInstanceAs (Decidable (p _ ∧ body.Everywhere p))
  | text _ | helper _ | call _ _ => inferInstanceAs (Decidable (p _))

theorem everywhere_of_forall {p : Code → Prop} (h : ∀ c, p c) (c : Code) : c.Everywhere p := by
  induction c with
  | append _ _ iha ihb | create _ _ _ _ _ iha ihb | branch _ _ _ _ iha ihb => exact ⟨h _, iha, ihb⟩
  | loop _ _ _ _ ih | fragment _ _ ih | outlet _ _ ih | slots _ _ _ ih | hoist _ _ _ ih
  | once _ _ _ ih | memo _ _ _ ih | inline _ ih | unit _ ih | rewritten _ _ ih => exact ⟨h _, ih⟩
  | text | helper | call => exact h _

theorem Everywhere.mono {p q : Code → Prop} {c : Code} (hc : c.Everywhere p) (h : ∀ d, p d → q d) :
    c.Everywhere q := by
  induction c with
  | append _ _ iha ihb | create _ _ _ _ _ iha ihb | branch _ _ _ _ iha ihb =>
    exact ⟨h _ hc.1, iha hc.2.1, ihb hc.2.2⟩
  | loop _ _ _ _ ih | fragment _ _ ih | outlet _ _ ih | slots _ _ _ ih | hoist _ _ _ ih
  | once _ _ _ ih | memo _ _ _ ih | inline _ ih | unit _ ih | rewritten _ _ ih => exact ⟨h _ hc.1, ih hc.2⟩
  | text | helper | call => exact h _ hc

/-- Whether code is a result of lifting, or rewritten by a module. -/
def isProcessed : Code → Bool
  | call _ _ | memo _ _ _ | unit _ | rewritten _ _ => true
  | _ => false

/-- Code as the emitters write it. -/
def Raw (c : Code) : Prop :=
  c.Everywhere fun d => d.isProcessed = false

theorem Everywhere.join {p : Code → Prop} (htext : ∀ s, p (text s)) (happend : ∀ a b, p (append a b))
    {separator : String} {cs : List Code} (h : ∀ c ∈ cs, c.Everywhere p) : (join separator cs).Everywhere p := by
  induction cs with
  | nil => exact htext ""
  | cons c rest ih =>
    obtain ⟨hc, hrest⟩ := List.forall_mem_cons.mp h
    cases rest with
    | nil => exact hc
    | cons c' rest => exact ⟨happend _ _, ⟨happend _ _, hc, htext separator⟩, ih hrest⟩

/-- All code of a lifted inline template is code of its functions, or text around it. -/
theorem Everywhere.inlineEntry {p : Code → Prop} (htext : ∀ s, p (text s)) (happend : ∀ a b, p (append a b))
    {main : Code} {functions : List Code} (hmain : main.Everywhere p) (hf : ∀ f ∈ functions, f.Everywhere p) :
    (inlineEntry main functions).Everywhere p := by
  have henclosed {c : Code} (hc : c.Everywhere p) : (enclosed c).Everywhere p :=
    ⟨happend _ _, ⟨happend _ _, htext _, hc⟩, htext _⟩
  have hjoin : (Code.join "," (functions.map fun f =>
      text "function()\x7b" ++ enclosed f ++ text "\x7d")).Everywhere p := by
    refine Everywhere.join htext happend fun c hc => ?_
    obtain ⟨f, hmem, rfl⟩ := List.mem_map.mp hc
    exact ⟨happend _ _, ⟨happend _ _, htext _, henclosed (hf f hmem)⟩, htext _⟩
  exact ⟨happend _ _, ⟨happend _ _, ⟨happend _ _, ⟨happend _ _, htext _, henclosed hmain⟩, htext _⟩, hjoin⟩, htext _⟩

end Code

/-- The numbers of the functions that pieces call. -/
def Piece.calls (ps : List Piece) : List Nat :=
  ps.filterMap Piece.call?

/-- The numbers of the once marks among pieces. -/
def Piece.marks (ps : List Piece) : List Nat :=
  ps.filterMap Piece.mark?

namespace Piece

@[simp] theorem calls_nil : calls [] = [] := rfl
@[simp] theorem calls_append (ps qs : List Piece) : calls (ps ++ qs) = calls ps ++ calls qs := by
  simp [calls]
@[simp] theorem calls_text (s : String) (ps : List Piece) : calls (text s :: ps) = calls ps := rfl
@[simp] theorem calls_mark (id : Nat) (ps : List Piece) : calls (mark id :: ps) = calls ps := rfl
@[simp] theorem calls_call (k : Nat) (b : Bool) (ps : List Piece) :
    calls (call k b :: ps) = k :: calls ps := rfl
@[simp] theorem marks_nil : marks [] = [] := rfl
@[simp] theorem marks_append (ps qs : List Piece) : marks (ps ++ qs) = marks ps ++ marks qs := by
  simp [marks]
@[simp] theorem marks_text (s : String) (ps : List Piece) : marks (text s :: ps) = marks ps := rfl
@[simp] theorem marks_call (k : Nat) (b : Bool) (ps : List Piece) :
    marks (call k b :: ps) = marks ps := rfl
@[simp] theorem marks_mark (id : Nat) (ps : List Piece) :
    marks (mark id :: ps) = id :: marks ps := rfl

end Piece

open Piece (calls marks)

/-- What holds of the pieces of lifted code and of the functions that were lifted with it, from `s` to
`s'`: each function is called once, by a later function or by the code, and each once mark has a number
of its own. -/
structure Accounts (names : Names) (s : Lifted) (ps : List Piece) (s' : Lifted)
    (fs : List (List Piece)) : Prop where
  functions : s'.functions.map (Code.pieces names) = s.functions.map (Code.pieces names) ++ fs
  marks_le : s.marks ≤ s'.marks
  calls_perm : (calls (ps ++ fs.flatten)).Perm (List.range' s.functions.length fs.length)
  marks_perm : (marks (ps ++ fs.flatten)).Perm (List.range' s.marks (s'.marks - s.marks))
  calls_lt : ∀ j f, fs[j]? = some f → ∀ k ∈ calls f, k < s.functions.length + j

namespace Accounts

variable {names : Names} {s s₁ s₂ : Lifted} {ps qs : List Piece} {fs gs : List (List Piece)}

theorem length_functions (h : Accounts names s ps s₁ fs) :
    s₁.functions.length = s.functions.length + fs.length := by
  simpa using congrArg List.length h.functions

/-- Code without calls and marks. -/
theorem of_nil (hc : calls ps = []) (hm : marks ps = []) : Accounts names s ps s [] where
  functions := by simp
  marks_le := Nat.le_refl _
  calls_perm := by simp [hc]
  marks_perm := by simp [hm]
  calls_lt := by simp

/-- Where the pieces stand does not matter. -/
theorem perm (h : Accounts names s ps s₁ fs) (hc : (calls qs).Perm (calls ps))
    (hm : (marks qs).Perm (marks ps)) : Accounts names s qs s₁ fs where
  functions := h.functions
  marks_le := h.marks_le
  calls_perm := by
    have := h.calls_perm
    simp only [Piece.calls_append] at this ⊢
    exact (hc.append_right _).trans this
  marks_perm := by
    have := h.marks_perm
    simp only [Piece.marks_append] at this ⊢
    exact (hm.append_right _).trans this
  calls_lt := h.calls_lt

theorem perm_interchange {α : Type} (a b c d : List α) :
    ((a ++ b) ++ (c ++ d)).Perm ((a ++ c) ++ (b ++ d)) := by
  rw [List.append_assoc, List.append_assoc]
  exact (List.perm_append_comm_assoc b c d).append_left a

/-- One piece of code lifted after another. -/
theorem append (h : Accounts names s ps s₁ fs) (h' : Accounts names s₁ qs s₂ gs) :
    Accounts names s (ps ++ qs) s₂ (fs ++ gs) where
  functions := by rw [h'.functions, h.functions, List.append_assoc]
  marks_le := Nat.le_trans h.marks_le h'.marks_le
  calls_perm := by
    have hc := h.calls_perm.append h'.calls_perm
    simp only [Piece.calls_append, List.flatten_append] at hc ⊢
    refine (perm_interchange _ _ _ _).trans (hc.trans ?_)
    rw [h.length_functions, List.length_append]
    simp
  marks_perm := by
    have hm := h.marks_perm.append h'.marks_perm
    simp only [Piece.marks_append, List.flatten_append] at hm ⊢
    refine (perm_interchange _ _ _ _).trans (hm.trans ?_)
    have h₁ := h.marks_le
    have h₂ := h'.marks_le
    obtain ⟨m, hm⟩ := Nat.exists_eq_add_of_le h₁
    obtain ⟨n, hn⟩ := Nat.exists_eq_add_of_le h₂
    rw [hn, hm, Nat.add_sub_cancel_left, Nat.add_sub_cancel_left, Nat.add_assoc,
      Nat.add_sub_cancel_left]
    simp
  calls_lt := by
    intro j f hf k hk
    rcases Nat.lt_or_ge j fs.length with hj | hj
    · rw [List.getElem?_append_left hj] at hf
      exact h.calls_lt j f hf k hk
    · rw [List.getElem?_append_right hj] at hf
      have := h'.calls_lt _ f hf k hk
      rw [h.length_functions] at this
      omega

/-- A body becomes a function, and one call of it. -/
theorem hoist {body : Code} (inLoop : Bool) (h : Accounts names s (body.pieces names) s₁ fs) :
    Accounts names s [.call s₁.functions.length inLoop]
      { s₁ with functions := s₁.functions ++ [body] } (fs ++ [body.pieces names]) where
  functions := by simp [h.functions]
  marks_le := h.marks_le
  calls_perm := by
    have hc := h.calls_perm
    simp only [Piece.calls_append] at hc
    rw [h.length_functions, List.length_append, List.length_singleton, List.range'_concat]
    simp only [Piece.calls_append, Piece.calls_call, List.flatten_append, List.flatten_singleton,
      List.singleton_append, Nat.one_mul]
    refine (List.perm_append_singleton _ _).symm.trans (List.Perm.append_right _ ?_)
    exact List.perm_append_comm.trans hc
  marks_perm := by
    have hm := h.marks_perm
    simp only [Piece.marks_append, Piece.marks_call, Piece.marks_nil, List.flatten_append,
      List.flatten_singleton, List.nil_append] at hm ⊢
    exact List.perm_append_comm.trans hm
  calls_lt := by
    intro j f hf k hk
    rcases Nat.lt_or_ge j fs.length with hj | hj
    · rw [List.getElem?_append_left hj] at hf
      exact h.calls_lt j f hf k hk
    · rw [List.getElem?_append_right hj] at hf
      -- The new function calls only functions before it.
      obtain rfl : f = body.pieces names := by
        rcases hn : j - fs.length with _ | n <;> simp_all
      have hmem : k ∈ calls (body.pieces names ++ fs.flatten) := by simp [hk]
      have := h.calls_perm.subset hmem
      simp only [List.mem_range'_1] at this
      omega

/-- A once mark takes the next number. -/
theorem mark (before after : List Piece) (h : Accounts names s ps s₁ fs)
    (hb : calls before = [] ∧ marks before = []) (ha : calls after = [] ∧ marks after = []) :
    Accounts names s (before ++ ps ++ .mark s₁.marks :: after) { s₁ with marks := s₁.marks + 1 } fs where
  functions := h.functions
  marks_le := Nat.le_succ_of_le h.marks_le
  calls_perm := by
    have hc := h.calls_perm
    simp only [Piece.calls_append] at hc ⊢
    simpa [hb.1, ha.1] using hc
  marks_perm := by
    have hm := h.marks_perm
    have hle := h.marks_le
    simp only [Piece.marks_append, Piece.marks_mark, hb.2, ha.2, List.nil_append,
      List.append_assoc, List.singleton_append] at hm ⊢
    rw [Nat.sub_add_comm hle, List.range'_concat, Nat.one_mul, Nat.add_sub_cancel' hle]
    refine List.perm_middle.trans ((List.perm_append_singleton _ _).symm.trans ?_)
    exact hm.append_right _
  calls_lt := h.calls_lt

end Accounts

/-- Lifting code accounts for every function and every once mark. -/
theorem accounts_lift (names : Names) {c : Code} (hc : c.Raw) (s : Lifted) :
    ∃ fs, Accounts names s ((c.lift s).1.pieces names) (c.lift s).2 fs := by
  induction c generalizing s with
  | text | helper => exact ⟨[], .of_nil rfl rfl⟩
  | append a b iha ihb =>
    obtain ⟨fs, hfs⟩ := iha hc.2.1 s
    obtain ⟨gs, hgs⟩ := ihb hc.2.2 (a.lift s).2
    exact ⟨_, hfs.append hgs⟩
  | create owner dynamic target data children ihd ihc =>
    cases dynamic with
    | false =>
      obtain ⟨fs, hfs⟩ := ihd hc.2.1 s
      obtain ⟨gs, hgs⟩ := ihc hc.2.2 (data.lift s).2
      exact ⟨_, (hfs.append hgs).perm (by simp [Code.lift, Code.pieces]) (by simp [Code.lift, Code.pieces])⟩
    | true =>
      obtain ⟨fs, hfs⟩ := ihc hc.2.2 s
      obtain ⟨gs, hgs⟩ := ihd hc.2.1 (children.lift s).2
      refine ⟨_, (hfs.append hgs).perm ?_ ?_⟩
      · simpa [Code.lift, Code.pieces] using List.perm_append_comm
      · simpa [Code.lift, Code.pieces] using List.perm_append_comm
  | branch owner test yes no ihy ihn =>
    obtain ⟨fs, hfs⟩ := ihy hc.2.1 s
    obtain ⟨gs, hgs⟩ := ihn hc.2.2 (yes.lift s).2
    exact ⟨_, (hfs.append hgs).perm (by simp [Code.lift, Code.pieces]) (by simp [Code.lift, Code.pieces])⟩
  | loop _ _ _ _ ih | fragment _ _ ih | outlet _ _ ih | slots _ _ _ ih =>
    obtain ⟨fs, hfs⟩ := ih hc.2 s
    exact ⟨_, hfs.perm (by simp [Code.lift, Code.pieces]) (by simp [Code.lift, Code.pieces])⟩
  | hoist owner inLoop body ih =>
    obtain ⟨fs, hfs⟩ := ih hc.2 s
    exact ⟨_, hfs.hoist inLoop⟩
  | once owner key body ih =>
    obtain ⟨fs, hfs⟩ := ih hc.2 s
    have := hfs.mark [.text (names .markOnce ++ "(")] [.text ("," ++ key ++ ")")] ⟨rfl, rfl⟩ ⟨rfl, rfl⟩
    exact ⟨_, this.perm (by simp [Code.lift, Code.pieces]) (by simp [Code.lift, Code.pieces])⟩
  | inline body ih => exact ⟨[], .of_nil rfl rfl⟩
  | call | memo | unit | rewritten => simp [Code.Raw, Code.Everywhere, Code.isProcessed] at hc

/-- In a program, each function is called exactly once, a function calls only functions before it, and
the once marks are numbered from zero, each with a number of its own. -/
structure MarkedProgram.Exact (m : MarkedProgram) : Prop where
  calls_perm : (calls m.pieces).Perm (List.range m.functions.length)
  calls_lt : ∀ j f, m.functions[j]? = some f → ∀ k ∈ calls f, k < j
  marks_perm : ∃ n, (marks m.pieces).Perm (List.range n)

theorem exact_marked (names : Names) {c : Code} (hc : c.Raw) : (c.marked names).Exact := by
  obtain ⟨fs, h⟩ := accounts_lift names hc {}
  have hf : (c.marked names).functions = fs := by simpa [Code.marked, MarkedProgram.ofLifted] using h.functions
  refine ⟨?_, ?_, (c.lift {}).2.marks, ?_⟩
  · rw [MarkedProgram.pieces, hf, List.range_eq_range']
    exact h.calls_perm
  · intro j f hj k hk
    rw [hf] at hj
    simpa using h.calls_lt j f hj k hk
  · rw [MarkedProgram.pieces, hf, List.range_eq_range']
    exact h.marks_perm

/-! ## Inline templates -/

/-- If code is a lifted inline template, the calls and the once marks of its own functions are exact. -/
def Code.ExactUnit (names : Names) : Code → Prop
  | unit body => ∃ main functions, body = inlineEntry main functions ∧
    (MarkedProgram.ofLifted names main functions).Exact
  | _ => True

/-- Inline templates are exact wherever they stand in lifted code. -/
theorem exactUnit_lift (names : Names) {c : Code} (hc : c.Raw) {s : Lifted}
    (hs : ∀ f ∈ s.functions, f.Everywhere (Code.ExactUnit names)) :
    ∀ f ∈ (c.lift s).1 :: (c.lift s).2.functions, f.Everywhere (Code.ExactUnit names) := by
  simp only [List.forall_mem_cons]
  induction c generalizing s with
  | text | helper => exact ⟨trivial, hs⟩
  | append a b iha ihb =>
    obtain ⟨ha, hs₁⟩ := iha hc.2.1 hs
    obtain ⟨hb, hs₂⟩ := ihb hc.2.2 hs₁
    exact ⟨⟨trivial, ha, hb⟩, hs₂⟩
  | create owner dynamic target data children ihd ihc =>
    cases dynamic with
    | false =>
      obtain ⟨hd, hs₁⟩ := ihd hc.2.1 hs
      obtain ⟨hch, hs₂⟩ := ihc hc.2.2 hs₁
      exact ⟨⟨trivial, hd, hch⟩, hs₂⟩
    | true =>
      obtain ⟨hch, hs₁⟩ := ihc hc.2.2 hs
      obtain ⟨hd, hs₂⟩ := ihd hc.2.1 hs₁
      exact ⟨⟨trivial, hd, hch⟩, hs₂⟩
  | branch owner test yes no ihy ihn =>
    obtain ⟨hy, hs₁⟩ := ihy hc.2.1 hs
    obtain ⟨hn, hs₂⟩ := ihn hc.2.2 hs₁
    exact ⟨⟨trivial, hy, hn⟩, hs₂⟩
  | loop _ _ _ _ ih | fragment _ _ ih | outlet _ _ ih | slots _ _ _ ih | once _ _ _ ih =>
    obtain ⟨hbody, hs₁⟩ := ih hc.2 hs
    exact ⟨⟨trivial, hbody⟩, hs₁⟩
  | hoist owner inLoop body ih =>
    obtain ⟨hbody, hs₁⟩ := ih hc.2 hs
    refine ⟨trivial, fun f hf => ?_⟩
    rcases List.mem_append.mp hf with hf | hf
    · exact hs₁ f hf
    · exact List.mem_singleton.mp hf ▸ hbody
  | inline body ih =>
    obtain ⟨hbody, hown⟩ := ih (s := {}) hc.2 (List.forall_mem_nil _)
    exact ⟨⟨⟨_, _, rfl, exact_marked names hc.2⟩,
      .inlineEntry (fun _ => trivial) (fun _ _ => trivial) hbody hown⟩, hs⟩
  | call | memo | unit | rewritten => simp [Code.Raw, Code.Everywhere, Code.isProcessed] at hc

end TemplateCompiler
