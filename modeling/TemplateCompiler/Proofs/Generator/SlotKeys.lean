import TemplateCompiler.Proofs.Generator.UpdateHint
import TemplateCompiler.Proofs.Text.SlotHash

/-!
# Keys of slot sets

Components that stand under tests tell the slot sets of different branches apart by a key, the hash of the text of
their descriptors. `KeyedHost` is such a component together with the generation of its descriptors. The keys of two
hosts differ if their descriptors differ in a single code unit (`keys_differ`). Text that cannot be encoded has no
hash that could differ from another (`surrogates_without_hash`).
-/

namespace TemplateCompiler

namespace Text

/-- Equally many code units, all the same but one. -/
def OneUnitApart (us vs : List UInt16) : Prop :=
  us.length = vs.length ∧ differences us vs = 1

instance (us vs : List UInt16) : Decidable (OneUnitApart us vs) :=
  inferInstanceAs (Decidable (_ ∧ _))

theorem OneUnitApart.hashUnits_ne {us vs : List UInt16} (h : OneUnitApart us vs) : hashUnits us ≠ hashUnits vs :=
  Text.hashUnits_ne h.1 h.2

theorem toString_injective {m n : Nat} (h : toString m = toString n) : m = n := by
  have hdigits := congrArg (fun s => Nat.ofDigitChars 10 s.toList 0) h
  simpa [Nat.toString_eq_ofList_toDigits] using hdigits

end Text

namespace Generator

/-- A component below a test whose slot descriptors can be generated, where nothing forces updates. -/
structure KeyedHost where
  self : Emit
  index : Nat
  element : Element
  before : Generation
  after : Generation
  entries : List Code
  wellFormed : before.tree.WellFormed
  generated : outcome (element.scopedSlots.mapM fun s => self (.slotEntry s.2 {})) before = (.ok entries, after)
  unforced : ¬Forced before.tree index element
  keyed : Keyed before.tree index element

namespace KeyedHost

variable (a : KeyedHost)

/-- The text of the descriptors. -/
def list (names : Names) (s : Lifted) : String :=
  String.intercalate "," (Code.texts names a.entries s)

/-- The code of the host has the text of the descriptors and then `key`. -/
def Writes (names : Names) (s : Lifted) (key : String) : Prop :=
  ∃ c, outcome (emitScopedSlots a.self a.index a.element) a.before = (.ok c, a.after) ∧
    (c.lift s).1.render names = "scopedSlots:" ++ names .resolveScopedSlots ++ "([" ++ a.list names s ++
      "],null,false," ++ key ++ ")"

/-- The key of a host is the hash of its descriptors. -/
theorem writes_iff {names : Names} {s : Lifted} {key : String} :
    a.Writes names s key ↔ key = toString (Text.slotHash (a.list names s)).toNat := by
  have hhint : updateHint a.before.tree a.index a.element = .keyed :=
    (updateHint_eq_keyed_iff a.wellFormed).mpr ⟨a.unforced, a.keyed⟩
  have hemit := outcome_emitScopedSlots (i := a.index) a.generated
  rw [hhint] at hemit
  have htext : ((Code.text "scopedSlots:" ++ .slots a.index (Code.join "," a.entries) .keyed).lift s).1.render names =
      "scopedSlots:" ++ names .resolveScopedSlots ++ "([" ++ a.list names s ++ "],null,false," ++
        toString (Text.slotHash (a.list names s)).toNat ++ ")" := by
    rw [render_lift_slots]
    simp only [Code.hintText, list, String.append_assoc]
    rfl
  constructor
  · rintro ⟨c, hc, hkey⟩
    rw [hemit, Prod.mk.injEq, Except.ok.injEq] at hc
    rw [← hc.1, htext, String.append_left_inj, String.append_right_inj] at hkey
    exact hkey.symm
  · rintro rfl
    exact ⟨_, hemit, htext⟩

end KeyedHost

/-- Texts that can be encoded and differ in one code unit have different hashes. Hosts whose descriptors do write keys,
and never the same one. -/
theorem keys_differ :
    (∀ (ps qs : List Text.CodePoint) (us vs : List UInt16), Text.encode? ps = some us → Text.encode? qs = some vs →
      Text.OneUnitApart us vs → ∃ h k, Text.pointsHash? ps = some h ∧ Text.pointsHash? qs = some k ∧ h ≠ k) ∧
      ∀ (a b : KeyedHost) (names names' : Names) (s s' : Lifted),
        Text.OneUnitApart (Text.units (a.list names s)) (Text.units (b.list names' s')) →
          (∃ key, a.Writes names s key) ∧ (∃ key, b.Writes names' s' key) ∧
            ∀ key, a.Writes names s key → ¬b.Writes names' s' key := by
  refine ⟨fun ps qs us vs hps hqs h => ?_, fun a b names names' s s' h => ?_⟩
  · exact ⟨_, _, Text.pointsHash?_of_encode? hps, Text.pointsHash?_of_encode? hqs, h.hashUnits_ne⟩
  · refine ⟨⟨_, a.writes_iff.mpr rfl⟩, ⟨_, b.writes_iff.mpr rfl⟩, fun key ha hb => h.hashUnits_ne ?_⟩
    have hkeys := (a.writes_iff.mp ha).symm.trans (b.writes_iff.mp hb)
    exact UInt32.toNat_inj.mp (Text.toString_injective hkeys)

/-- Two texts that differ in one code unit and have no hashes. -/
theorem surrogates_without_hash : Text.OneUnitApart (Text.unitsOf [0xD800]) (Text.unitsOf [0xD801]) ∧
    Text.pointsHash? [0xD800] = none ∧ Text.pointsHash? [0xD801] = none := by
  decide

/-- Two lists under tests, with slots of the same name whose labels differ in one letter. -/
def twinsData : Json :=
  let host (test label : String) : Json :=
    let content : Json := .object [("type", .int 3), ("text", .string label)]
    let definition : Json := .object [("tag", "template"), ("slotTarget", "head"), ("children", .array [content])]
    .object [("tag", "my-list"), ("if", .string test), ("ifConditions", .array [.object [("exp", .string test)]]),
      ("scopedSlots", .object [("head", definition)])]
  .object [("tag", "div"), ("children", .array [host "open" "none", host "shut" "nine"])]

theorem keys_differ_twins : ∃ (t : Tree) (a b : KeyedHost), (Tree.load twinsData).1 = .ok t ∧ a.before.tree = t ∧
    b.before.tree = t ∧ a.index = 1 ∧ b.index = 4 ∧
      Text.OneUnitApart (Text.units (a.list .standard {})) (Text.units (b.list .standard {})) ∧
      (∃ key, a.Writes .standard {} key) ∧ (∃ key, b.Writes .standard {} key) ∧
      (∀ key, a.Writes .standard {} key → ¬b.Writes .standard {} key) ∧
      ∃ h k, Text.pointsHash? (Text.points "a😀") = some h ∧ Text.pointsHash? (Text.points "a😁") = some k ∧ h ≠ k := by
  have hfaces : Text.OneUnitApart (Text.units "a😀") (Text.units "a😁") := by decide +kernel
  have h : ((Tree.load twinsData).1.toOption.bind fun t => (t.element? 1).bind fun e => (t.element? 4).bind fun f =>
      (outcome (e.scopedSlots.mapM fun s => run {} 40 (.slotEntry s.2 {})) { tree := t }).1.toOption.bind fun es =>
        (outcome (f.scopedSlots.mapM fun s => run {} 40 (.slotEntry s.2 {})) { tree := t }).1.toOption.map fun fs =>
          decide (updateHint t 1 e = .keyed ∧ updateHint t 4 f = .keyed ∧
            Text.OneUnitApart (Text.units (String.intercalate "," (Code.texts .standard es {})))
              (Text.units (String.intercalate "," (Code.texts .standard fs {}))))) = some true := by
    decide +kernel
  obtain ⟨t, ht, h⟩ := Option.bind_eq_some_iff.mp h
  obtain ⟨e, -, h⟩ := Option.bind_eq_some_iff.mp h
  obtain ⟨f, -, h⟩ := Option.bind_eq_some_iff.mp h
  obtain ⟨es, hes, h⟩ := Option.bind_eq_some_iff.mp h
  obtain ⟨fs, hfs, h⟩ := Option.map_eq_some_iff.mp h
  obtain ⟨he, hf, hapart⟩ := of_decide_eq_true h
  have hw : t.WellFormed := Tree.wellFormed_load (ok_of_toOption ht)
  obtain ⟨hunforced, hkeyed⟩ := (updateHint_eq_keyed_iff hw).mp he
  obtain ⟨hunforced', hkeyed'⟩ := (updateHint_eq_keyed_iff hw).mp hf
  let a : KeyedHost := ⟨run {} 40, 1, e, { tree := t }, _, es, hw, Prod.ext (ok_of_toOption hes) rfl, hunforced, hkeyed⟩
  let b : KeyedHost :=
    ⟨run {} 40, 4, f, { tree := t }, _, fs, hw, Prod.ext (ok_of_toOption hfs) rfl, hunforced', hkeyed'⟩
  obtain ⟨hkey, hkey', hdiffer⟩ := keys_differ.2 a b .standard .standard {} {} hapart
  exact ⟨t, a, b, ok_of_toOption ht, rfl, rfl, rfl, rfl, hapart, hkey, hkey', hdiffer,
    keys_differ.1 _ _ _ _ (Text.encode?_map_charPoint _) (Text.encode?_map_charPoint _) hfaces⟩

end Generator

end TemplateCompiler
