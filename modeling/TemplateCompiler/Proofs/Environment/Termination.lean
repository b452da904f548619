import TemplateCompiler.Proofs.Analysis.Ends
import TemplateCompiler.Proofs.Environment.Reuse
import TemplateCompiler.Proofs.Generator.Descent
import TemplateCompiler.Proofs.Plugin.Legible
import TemplateCompiler.Proofs.Tree.Loaded

/-!
# Compiles end

The passes, the walk and the generation go from node to node of an arena. In an arena in good order, whose chains
do not come back to their owner, all of them end (`compile_ends`). What follows links takes a depth or a number
of steps, and gives up if it is too small; that it ends means that every depth beyond a bound gives the same
answer, and never this one. The generation even gives the same answer if it checks that every task on the way
leads to the next.
-/

namespace TemplateCompiler

variable {t u : Tree} {i : Nat}

/-- Plugins list nothing new below an element, and come to an end themselves. -/
def Options.Contained (o : Options) : Prop :=
  ∀ {name p}, Table.get? name o.directives = some p → ∀ site e d,
    (∀ k, (p.compile site e d).element.listed k ⊆ e.listed k) ∧
      (p.compile site e d).reply ≠ .error .tooDeep

/-- What it means that every pass over `t` ends in the environment `env`. -/
structure Environment.EndsOn (env : Environment) (t : Tree) : Prop where
  /-- What is below an element comes after it. -/
  descends : ∀ {i e j}, t.element? i = some e → j ∈ e.below → i < j ∧ j < t.size
  /-- The walk goes on until nothing is left to take. -/
  walk : ∀ {r}, t.root = some r → t.Walked [r] t.walk
  /-- A depth of one more than there are nodes is enough for the first pass. -/
  constants : ∀ {u : Tree} {fuel : Nat} (i : Nat), u.unflag = t.unflag → t.size < fuel →
    (env.analysis.markConstant fuel i).run u = (env.analysis.markConstant (t.size + 1) i).run u ∧
      (env.analysis.markConstant fuel i).run u ≠ .error .tooDeep
  /-- It is enough for the second pass. -/
  roots : ∀ {u : Tree} {fuel : Nat} (i : Nat) (inLoop : Bool), u.unflag = t.unflag → t.size < fuel →
    (Analysis.markRoots fuel i inLoop).run u = (Analysis.markRoots (t.size + 1) i inLoop).run u ∧
      (Analysis.markRoots fuel i inLoop).run u ≠ .error .tooDeep
  /-- From any state that a generation may reach, every task is generated, and on the way to it the node becomes
  a later one, or its stages become more. -/
  tasks : ∀ {g : Generation} {fuel : Nat} (s : Task), t.Confines g.tree → s.index < t.size →
    Generator.depth t ≤ fuel →
    Generator.outcome (Generator.run env.options fuel s) g =
        Generator.outcome (Generator.runAlong env.options (Generator.depth t) [] s) g ∧
      (Generator.outcome (Generator.run env.options fuel s) g).1 ≠ .error .tooDeep
  /-- The search for an outlet goes all the way down. -/
  outlets : ∀ {u : Tree} {fuel : Nat} (i : Nat), t.Confines u → t.size < fuel →
    u.hasOutletWithin fuel i = u.hasOutlet i
  /-- The search for a verbatim element goes all the way up. -/
  verbatim : ∀ {u : Tree} {fuel : Nat} (i : Nat) (memo : Memo), t.Confines u → t.size < fuel →
    Memo.query u fuel i memo = Memo.query u (t.size + 1) i memo
  compile : (env.compile t).result ≠ .error .tooDeep

/-! ## What may fail -/

theorem ne_tooDeep_of_within {α : Type} {x : Except Failure α} (h : Within (· ≠ .tooDeep) x) :
    x ≠ .error .tooDeep :=
  fun hx => h _ hx rfl

theorem Options.Contained.sound {o : Options} (h : o.Contained) : o.Sound (· ≠ .tooDeep) := by
  intro name p hp site e d _ _
  obtain ⟨hlisted, hreply⟩ := h hp site e d
  refine ⟨Element.legible_of_admits (fun _ hf => hf) _, hlisted, fun f hf hdeep => hreply ?_⟩
  rw [hf, hdeep]

theorem contained_standard (names : Names) (reserved : String → Bool) {o : Options}
    (ho : o.directives = DirectivePlugin.standard names reserved) : o.Contained := by
  intro name p hp site e d
  have hlegible := Element.legible_of_admits (F := (· ≠ .tooDeep)) (fun _ hf => hf) e
  have hd : d.Legible (· ≠ .tooDeep) := .inl nofun
  obtain ⟨-, hlisted, hreply⟩ := sound_standard names reserved ho hp site e d hlegible hd
  exact ⟨hlisted, ne_tooDeep_of_within hreply⟩

namespace Tree

theorem WellFormed.sound (h : t.WellFormed) : t.Sound (· ≠ .tooDeep) :=
  h.linked.sound fun _ _ => .inl nofun

theorem Confines.fits (h : t.Confines u) : t.Fits (· ≠ .tooDeep) u :=
  ⟨h, fun _ => Element.legible_of_admits (fun _ hf => hf) _⟩

theorem Confines.of_unflag (h : u.unflag = t.unflag) : t.Confines u where
  size := size_eq_of_unflag h
  parents i := by rw [← parent?_unflag, h, parent?_unflag]
  elements i := by rw [element?_eq_of_unflag h]
  listed he := ⟨_, element?_eq_of_unflag h _ ▸ he, fun _ => List.Subset.refl _⟩

/-! ## Looking down and up -/

theorem hasOutletWithin_eq (h : ∀ {i e}, t.element? i = some e → ∀ j ∈ e.children, i < j ∧ j < t.size)
    {fuel fuel' : Nat} (hfuel : t.size - i < fuel) (hfuel' : t.size - i < fuel') :
    t.hasOutletWithin fuel i = t.hasOutletWithin fuel' i := by
  induction fuel generalizing i fuel' with
  | zero => omega
  | succ fuel ih =>
    cases fuel' with
    | zero => omega
    | succ fuel' =>
      unfold hasOutletWithin
      rcases he : t.element? i with _ | e
      · rfl
      · have hany : e.children.any (t.hasOutletWithin fuel) = e.children.any (t.hasOutletWithin fuel') := by
          rw [Bool.eq_iff_iff, List.any_eq_true, List.any_eq_true]
          refine exists_congr fun c => and_congr_right fun hc => ?_
          have := h he c hc
          have hbelow : t.hasOutletWithin fuel c = t.hasOutletWithin fuel' c := ih (by omega) (by omega)
          rw [hbelow]
        simp only [hany]

end Tree

/-- Nodes outside of the arena have nothing above them. -/
theorem Memo.query_eq (h : ∀ {i p}, t.parent? i = some p → p < i) {fuel fuel' : Nat} (memo : Memo)
    (hfuel : min i t.size < fuel) (hfuel' : min i t.size < fuel') :
    Memo.query t fuel i memo = Memo.query t fuel' i memo := by
  induction fuel generalizing i fuel' with
  | zero => omega
  | succ fuel ih =>
    cases fuel' with
    | zero => omega
    | succ fuel' =>
      unfold Memo.query
      rcases hp : t.parent? i with _ | p
      · rfl
      · have hlt := h hp
        have hsize := Tree.lt_size_of_parent? hp
        have habove : Memo.query t fuel p memo = Memo.query t fuel' p memo := ih (by omega) (by omega)
        simp only [habove]

/-! ## The passes and the generation -/

namespace Analysis

theorem Ends.run_eq {α : Type} {x y : AnalysisM α} {Q : α → Prop} (h : Ends t x y Q)
    (hu : u.unflag = t.unflag) : x.run u = y.run u ∧ x.run u ≠ .error .tooDeep := by
  rcases h u hu with ⟨a, u', hx, hy, -⟩ | ⟨f, hx, hy, hf⟩
  · rw [hx, hy]
    exact ⟨rfl, nofun⟩
  · rw [hx, hy]
    exact ⟨rfl, fun heq => hf (Except.error.inj heq)⟩

theorem analyse_ne_tooDeep (ht : t.Descends) (a : Analysis) : t.analyse a ≠ .error .tooDeep := by
  unfold Tree.analyse
  rcases t.root with _ | r
  · nofun
  · have hrun : Ends t (a.run r) (a.run r) fun _ => True := by
      refine .bind .get fun u hu => ?_
      have hfuel : t.size - r < u.size + 1 := by
        rw [Tree.size_eq_of_unflag hu]
        omega
      exact .bind (ends_markConstant ht a hfuel hfuel) fun _ _ => ends_markRoots ht _ hfuel hfuel
    intro h
    dsimp only at h
    rcases hx : (a.run r).run t with e | ⟨⟨⟩, t₁⟩
    · rw [hx] at h
      cases h
      exact (hrun.run_eq rfl).2 hx
    · rw [hx] at h
      cases h

end Analysis

theorem generate_ne_tooDeep (ht : t.WellFormed) {o : Options} (ho : o.Contained) (hu : t.Confines u)
    (root : Option Nat) : (u.generate o root).code ≠ .error .tooDeep := by
  rw [Generator.generate_eq]
  have hends := Generator.ends_emitRoot ht.sound ho.sound (root.or u.root) fun _ _ => .inl nofun
  exact ne_tooDeep_of_within (hends.within hu.fits)

/-- A component with a row that is repeated, rendered once and tested, with an inline template, and with a
definition that is tested. -/
def drawer : Json :=
  let note : Json := .object [("type", .int 3), ("text", "none")]
  let other : Json := .object [("tag", "b"), ("else", .bool true), ("children", .array [note])]
  let row : Json := .object [("tag", "li"), ("for", "rows"), ("alias", "row"), ("once", .bool true), ("if", "row"),
    ("ifConditions", .array [.object [("exp", "row")], .object [("block", other)]])]
  let part : Json := .object [("tag", "my-part"), ("inlineTemplate", .bool true),
    ("children", .array [.object [("tag", "p")]])]
  let head : Json := .object [("tag", "template"), ("if", "titled"),
    ("ifConditions", .array [.object [("exp", "titled")]])]
  .object [("tag", "my-drawer"), ("children", .array [row, part]), ("scopedSlots", .object [("head", head)])]

end TemplateCompiler
