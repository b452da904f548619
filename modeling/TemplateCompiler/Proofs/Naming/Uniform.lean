import TemplateCompiler.Failure
import TemplateCompiler.Proofs.Text.Stencil

/-!
# Running under every naming at once

An action that is given names is a family of actions. `Uniform S x Q` runs `x` under every naming, from states
that together have `S`. The states it leaves have `S` again. Either it fails, in the same way under every naming, or
it returns under every naming, and the results together have `Q`. The rules follow the way in which actions are built.
-/

namespace TemplateCompiler

variable {α β γ σ : Type}

theorem Steady.exists_eq {f : Naming → α} (h : Steady f) : ∃ a, f = fun _ => a :=
  ⟨f default, funext fun I => h I default⟩

theorem Steady.of_eq {f : Naming → α} {a : α} (h : ∀ I, f I = a) : Steady f :=
  fun I J => (h I).trans (h J).symm

/-! ## Lists -/

/-- Lists of the same length, whose members have `Q` place by place. -/
def Each (Q : (Naming → α) → Prop) (l : Naming → List α) : Prop :=
  ∃ fs : List (Naming → α), (∀ f ∈ fs, Q f) ∧ l = fun I => fs.map (· I)

namespace Each

variable {Q : (Naming → α) → Prop} {R : (Naming → β) → Prop} {l l' : Naming → List α}

theorem nil : Each Q fun _ => [] :=
  ⟨[], List.forall_mem_nil _, rfl⟩

theorem cons {f : Naming → α} (hf : Q f) (h : Each Q l) : Each Q fun I => f I :: l I := by
  obtain ⟨fs, hfs, rfl⟩ := h
  exact ⟨f :: fs, List.forall_mem_cons.mpr ⟨hf, hfs⟩, rfl⟩

theorem singleton {f : Naming → α} (hf : Q f) : Each Q fun I => [f I] :=
  nil.cons hf

theorem append (h : Each Q l) (h' : Each Q l') : Each Q fun I => l I ++ l' I := by
  obtain ⟨fs, hfs, rfl⟩ := h
  obtain ⟨gs, hgs, rfl⟩ := h'
  exact ⟨fs ++ gs, List.forall_mem_append.mpr ⟨hfs, hgs⟩, funext fun I => List.map_append.symm⟩

/-- A list that does not depend on names. -/
theorem const {xs : List α} (h : ∀ x ∈ xs, Q fun _ => x) : Each Q fun _ => xs := by
  refine ⟨xs.map fun x _ => x, List.forall_mem_map.mpr h, funext fun _ => ?_⟩
  rw [List.map_map]
  exact (List.map_id xs).symm

theorem map {g : Naming → α → β} (h : Each Q l) (hg : ∀ f, Q f → R fun I => g I (f I)) :
    Each R fun I => (l I).map (g I) := by
  obtain ⟨fs, hfs, rfl⟩ := h
  refine ⟨fs.map fun f I => g I (f I), List.forall_mem_map.mpr fun f hf => hg f (hfs f hf), funext fun I => ?_⟩
  rw [List.map_map, List.map_map]
  rfl

/-- A test of members that does not depend on names, asked of all of them. -/
theorem any {p : α → Bool} (h : Each Q l) (hp : ∀ f, Q f → Steady fun I => p (f I)) : Steady fun I => (l I).any p := by
  obtain ⟨fs, hfs, rfl⟩ := h
  intro I J
  rw [Bool.eq_iff_iff]
  simp only [List.any_map, Function.comp_def, List.any_eq_true]
  exact exists_congr fun f => and_congr_right fun hf => Bool.eq_iff_iff.mp (hp f (hfs f hf) I J)

theorem isEmpty (h : Each Q l) : Steady fun I => (l I).isEmpty := by
  obtain ⟨fs, -, rfl⟩ := h
  intro I J
  simp only [List.isEmpty_map]

theorem intercalate {V : Json → Prop} {sep : String} (hsep : OwnChars sep.toList) {texts : Naming → List String}
    (h : Each (Text.Drawn V) texts) : Text.Drawn V fun I => String.intercalate sep (texts I) := by
  obtain ⟨fs, hfs, rfl⟩ := h
  exact .intercalate hsep hfs

end Each

/-- A value under every naming or under none. -/
def Maybe (Q : (Naming → α) → Prop) (o : Naming → Option α) : Prop :=
  (o = fun _ => none) ∨ ∃ f, Q f ∧ o = fun I => some (f I)

/-! ## Results -/

/-- The same failure under every naming, or results with `Q`. -/
def Agree (Q : (Naming → α) → Prop) (r : Naming → Except Failure α) : Prop :=
  (∃ f, r = fun _ => .error f) ∨ ∃ a, Q a ∧ r = fun I => .ok (a I)

namespace Agree

variable {Q : (Naming → α) → Prop} {R : (Naming → β) → Prop} {x : Naming → Except Failure α}

theorem pure {a : Naming → α} (h : Q a) : Agree Q fun I => .ok (a I) :=
  .inr ⟨a, h, rfl⟩

theorem error (f : Failure) : Agree Q fun _ => .error f :=
  .inl ⟨f, rfl⟩

theorem mono {Q' : (Naming → α) → Prop} (hx : Agree Q x) (h : ∀ a, Q a → Q' a) : Agree Q' x :=
  hx.imp_right fun ⟨a, ha, hr⟩ => ⟨a, h a ha, hr⟩

theorem bind {f : Naming → α → Except Failure β} (hx : Agree Q x) (hf : ∀ a, Q a → Agree R fun I => f I (a I)) :
    Agree R fun I => x I >>= f I := by
  rcases hx with ⟨e, rfl⟩ | ⟨a, ha, rfl⟩
  · exact error e
  · exact hf a ha

/-- A result that does not depend on names. -/
theorem steady (r : Except Failure α) : Agree (fun a => ∃ c, r = .ok c ∧ a = fun _ => c) fun _ => r := by
  cases r with
  | error f => exact error f
  | ok a => exact pure ⟨a, rfl, rfl⟩

/-- Whether an action fails, if nothing else is known of it. -/
theorem steady_unit {r : Naming → Except Failure Unit} (h : Agree (fun _ => True) r) : Steady r := by
  rcases h with ⟨e, rfl⟩ | ⟨a, -, rfl⟩ <;> exact fun _ _ => rfl

theorem mapM {f : β → Except Failure α} {l : Naming → List β} (hl : Each R l)
    (hf : ∀ b, R b → Agree Q fun I => f (b I)) : Agree (Each Q) fun I => (l I).mapM f := by
  obtain ⟨bs, hbs, rfl⟩ := hl
  induction bs with
  | nil => exact pure .nil
  | cons b bs ih =>
    obtain ⟨hb, hbs⟩ := List.forall_mem_cons.mp hbs
    simp only [List.map_cons, List.mapM_cons]
    exact (hf b hb).bind fun a ha => (ih hbs).bind fun as has => pure (has.cons ha)

theorem foldlM {f : α → β → Except Failure α} {l : Naming → List β} (hl : Each R l) {a : Naming → α} (ha : Q a)
    (hf : ∀ b, R b → ∀ a, Q a → Agree Q fun I => f (a I) (b I)) : Agree Q fun I => (l I).foldlM f (a I) := by
  obtain ⟨bs, hbs, rfl⟩ := hl
  induction bs generalizing a with
  | nil => exact pure ha
  | cons b bs ih =>
    obtain ⟨hb, hbs⟩ := List.forall_mem_cons.mp hbs
    simp only [List.map_cons, List.foldlM_cons]
    exact (hf b hb a ha).bind fun a' ha' => ih ha' hbs

end Agree

/-! ## Actions -/

theorem run_bind_ok {x : ExceptT Failure (StateM σ) α} {f : α → ExceptT Failure (StateM σ) β} {s s' : σ} {a : α}
    (h : x.run.run s = (.ok a, s')) : (x >>= f).run.run s = (f a).run.run s' := by
  simp only [ExceptT.run_bind, StateT.run_bind, h]
  rfl

theorem run_bind_error {x : ExceptT Failure (StateM σ) α} {f : α → ExceptT Failure (StateM σ) β} {s s' : σ}
    {e : Failure} (h : x.run.run s = (.error e, s')) : (x >>= f).run.run s = (.error e, s') := by
  simp only [ExceptT.run_bind, StateT.run_bind, h]
  rfl

/-- From states with `S`, the action agrees under every naming on results with `Q`, and leaves states with `S`. -/
def Uniform (S : (Naming → σ) → Prop) (x : Naming → ExceptT Failure (StateM σ) α) (Q : (Naming → α) → Prop) : Prop :=
  ∀ s, S s → S (fun I => ((x I).run.run (s I)).2) ∧ Agree Q fun I => ((x I).run.run (s I)).1

namespace Uniform

variable {S : (Naming → σ) → Prop} {Q : (Naming → α) → Prop} {R : (Naming → β) → Prop}
variable {x : Naming → ExceptT Failure (StateM σ) α} {f : Naming → α → ExceptT Failure (StateM σ) β}

theorem pure {a : Naming → α} (h : Q a) : Uniform S (fun I => pure (a I)) Q :=
  fun _ hs => ⟨hs, .pure h⟩

theorem throw (e : Failure) : Uniform S (fun _ => throw e) Q :=
  fun _ hs => ⟨hs, .error e⟩

theorem get : Uniform S (fun _ => get) S :=
  fun _ hs => ⟨hs, .pure hs⟩

theorem modify {u : Naming → σ → σ} (h : ∀ s, S s → S fun I => u I (s I)) :
    Uniform S (fun I => modify (u I)) fun _ => True :=
  fun s hs => ⟨h s hs, .pure trivial⟩

theorem bind (hx : Uniform S x Q) (hf : ∀ a, Q a → Uniform S (fun I => f I (a I)) R) :
    Uniform S (fun I => x I >>= f I) R := by
  intro s hs
  obtain ⟨hstate, ⟨e, he⟩ | ⟨a, ha, hok⟩⟩ := hx s hs
  · have hrun (I : Naming) : (x I >>= f I).run.run (s I) = (.error e, ((x I).run.run (s I)).2) :=
      run_bind_error (Prod.ext (congrFun he I) rfl)
    simp only [hrun]
    exact ⟨hstate, .error e⟩
  · have hrun (I : Naming) : (x I >>= f I).run.run (s I) = (f I (a I)).run.run ((x I).run.run (s I)).2 :=
      run_bind_ok (Prod.ext (congrFun hok I) rfl)
    simp only [hrun]
    exact hf a ha _ hstate

/-- Both ways agree, and so does the choice between them. -/
theorem ite {c : Naming → Bool} (hc : Steady c) {y : Naming → ExceptT Failure (StateM σ) α} (hx : Uniform S x Q)
    (hy : Uniform S y Q) : Uniform S (fun I => if c I then x I else y I) Q := by
  obtain ⟨on, rfl⟩ := hc.exists_eq
  cases on with
  | true => exact hx
  | false => exact hy

theorem mapM {xs : List γ} {f : Naming → γ → ExceptT Failure (StateM σ) α}
    (hf : ∀ c ∈ xs, Uniform S (fun I => f I c) Q) : Uniform S (fun I => xs.mapM (f I)) (Each Q) := by
  induction xs with
  | nil => exact pure .nil
  | cons c xs ih =>
    obtain ⟨hc, hxs⟩ := List.forall_mem_cons.mp hf
    simp only [List.mapM_cons]
    exact hc.bind fun a ha => (ih hxs).bind fun as has => pure (has.cons ha)

/-- What is kept of a list does not depend on names if every answer does not. -/
theorem filterM {P : γ → Prop} {xs : List γ} (hxs : ∀ c ∈ xs, P c)
    {f : Naming → γ → ExceptT Failure (StateM σ) Bool}
    (hf : ∀ c ∈ xs, Uniform S (fun I => f I c) Steady) :
    Uniform S (fun I => xs.filterM (f I)) fun ys => ∃ kept, (∀ c ∈ kept, P c) ∧ ys = fun _ => kept := by
  have loop {kept : List γ} (hkept : ∀ c ∈ kept, P c) : Uniform S (fun I => List.filterAuxM (f I) xs kept)
      fun ys => ∃ kept, (∀ c ∈ kept, P c) ∧ ys = fun _ => kept := by
    induction xs generalizing kept with
    | nil => exact pure ⟨kept, hkept, rfl⟩
    | cons c xs ih =>
      obtain ⟨hc, hxs⟩ := List.forall_mem_cons.mp hxs
      obtain ⟨hfc, hf⟩ := List.forall_mem_cons.mp hf
      refine hfc.bind fun keep hkeep => ?_
      obtain ⟨keep, rfl⟩ := hkeep.exists_eq
      refine ih hxs hf ?_
      cases keep with
      | true => exact List.forall_mem_cons.mpr ⟨hc, hkept⟩
      | false => exact hkept
  refine (loop (List.forall_mem_nil _)).bind ?_
  rintro _ ⟨kept, hkept, rfl⟩
  exact pure ⟨kept.reverse, fun c hc => hkept c (List.mem_reverse.mp hc), rfl⟩

end Uniform

end TemplateCompiler
