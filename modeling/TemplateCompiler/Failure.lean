/-!
# Failures of a compile

A template problem is a warning. A compile stops only if a plugin gives up, if the tree refers to a
node that is not there or to itself, or if a value is of a kind that has no meaning where it stands.
-/

namespace TemplateCompiler

inductive Failure where
  | dangling (index : Nat)
  | tooDeep
  | unimplemented
  /-- A tag that is neither text nor a list or an object. -/
  | tagNotText
  /-- A tag that is a list or an object. -/
  | tagCompound
  | attrNameNotText
  | attrValueNotText
  | handlerNotText
  | targetNotText
  | keyNotText
  /-- A key that begins with a number which cannot be read. -/
  | unreadableKey
  deriving DecidableEq, Repr

/-! ## Steps that may fail -/

theorem bind_ok {ε α β : Type} {x : Except ε α} {f : α → Except ε β} {b : β} (h : x >>= f = .ok b) :
    ∃ a, x = .ok a ∧ f a = .ok b := by
  cases x with
  | error e => cases h
  | ok a => exact ⟨a, rfl, h⟩

/-- A step that keeps a property keeps it through a whole list. -/
theorem foldlM_ok {ε α β : Type} {p : β → Prop} {f : β → α → Except ε β} {xs : List α} {b c : β}
    (hf : ∀ b, ∀ x ∈ xs, ∀ c, p b → f b x = .ok c → p c) (hb : p b) (h : xs.foldlM f b = .ok c) :
    p c := by
  induction xs generalizing b with
  | nil => cases h; exact hb
  | cons x xs ih =>
    rw [List.foldlM_cons] at h
    obtain ⟨b', hx, h⟩ := bind_ok h
    have hb' := hf b x (List.mem_cons_self ..) b' hb hx
    exact ih (fun b x hx => hf b x (List.mem_cons_of_mem _ hx)) hb' h

theorem mapM_ok {ε α β : Type} {p : β → Prop} {f : α → Except ε β} {xs : List α} {ys : List β}
    (hf : ∀ x ∈ xs, ∀ y, f x = .ok y → p y) (h : xs.mapM f = .ok ys) : ∀ y ∈ ys, p y := by
  induction xs generalizing ys with
  | nil => cases h; simp
  | cons x xs ih =>
    rw [List.mapM_cons] at h
    obtain ⟨y, hy, h⟩ := bind_ok h
    obtain ⟨zs, hzs, h⟩ := bind_ok h
    cases h
    have hrest := ih (fun x hx => hf x (List.mem_cons_of_mem _ hx)) hzs
    exact List.forall_mem_cons.mpr ⟨hf x (List.mem_cons_self ..) y hy, hrest⟩

end TemplateCompiler
