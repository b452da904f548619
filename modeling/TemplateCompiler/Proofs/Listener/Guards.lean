import TemplateCompiler.Proofs.Code.Lift
import TemplateCompiler.Proofs.Generator.Legible
import TemplateCompiler.Proofs.Json.RoundTrip
import TemplateCompiler.Proofs.Text.Stencil

/-!
# The guards of listeners

A guard ends a listener if its condition holds. `Expression` is the grammar of conditions: operands with an operator
between any two of them. The key filter and the guards of the modifiers have such conditions, whatever the modifiers
are (`expression_of_keyFilter`, `expression_of_modifierStatement`). The guard for exact modifiers joins the tests of the
system keys that are not asked for (`expression_of_exactGuard`). With none left to join, it has no condition at all, and
this is the only way to an empty one (`guards_test_conditions`).
-/

namespace TemplateCompiler.Listener

/-! ## Conditions -/

/-- What an operator may be applied to: the event or a member of it, nothing at all, a value, a quoted word, a call, or
a negation. -/
inductive Operand (names : Names) : String → Prop
  | event {xs : List String} (hxs : ∀ x ∈ xs, isIdentifier x = true) :
      Operand names (".".intercalate ("$event" :: xs))
  | undefined : Operand names "undefined"
  | value {v : Json} (hv : v.isWhole = true) : Operand names v.compact
  | quoted {x : String} (hx : isIdentifier x = true) : Operand names ("'" ++ x ++ "'")
  | call {f : String} {args : List String} (hf : Operand names f) (hargs : ∀ a ∈ args, Operand names a) :
      Operand names (f ++ "(" ++ ",".intercalate args ++ ")")
  | helper (h : Helper) {args : List String} (hargs : ∀ a ∈ args, Operand names a) :
      Operand names (names h ++ "(" ++ ",".intercalate args ++ ")")
  | not {a : String} (ha : Operand names a) : Operand names ("!" ++ a)

def operators : List String :=
  ["&&", "||", "!==", " && ", " !== ", " in "]

/-- Operands with an operator between any two of them. -/
inductive Expression (names : Names) : String → Prop
  | operand {a : String} (ha : Operand names a) : Expression names a
  | binary {a o b : String} (ha : Expression names a) (ho : o ∈ operators) (hb : Expression names b) :
      Expression names (a ++ o ++ b)

variable {names : Names}

theorem Operand.ne_empty {a : String} (h : Operand names a) : a ≠ "" := by
  cases h with
  | @event xs =>
    cases xs with
    | nil => simp [String.intercalate_singleton]
    | cons x xs => simp [String.intercalate_cons_cons]
  | undefined => decide
  | @value v hv =>
    obtain ⟨c, cs, hcs, -⟩ := Json.exists_start Json.faithful_singleton v hv
    rw [Json.flatMap_of_forall fun _ _ => rfl] at hcs
    rw [Json.compact, hcs, Ne, ← String.toList_inj, String.toList_ofList]
    simp
  | quoted | call | helper | not => simp

theorem Expression.ne_empty {a : String} (h : Expression names a) : a ≠ "" := by
  induction h with
  | operand ha => exact ha.ne_empty
  | binary _ _ _ iha => simp [iha]

theorem expression_intercalate {o : String} (ho : o ∈ operators) {as : List String} (hne : as ≠ [])
    (has : ∀ a ∈ as, Expression names a) : Expression names (o.intercalate as) := by
  induction as with
  | nil => exact absurd rfl hne
  | cons a as ih =>
    obtain ⟨ha, has⟩ := List.forall_mem_cons.mp has
    cases as with
    | nil => rwa [String.intercalate_singleton]
    | cons b bs =>
      rw [String.intercalate_cons_cons]
      exact .binary ha ho (ih (List.cons_ne_nil b bs) has)

/-! ## The guards -/

theorem compact_int (n : Int) : (Json.int n).compact = toString n := by
  rw [← String.toList_inj, Json.compact, String.toList_ofList]
  cases n with
  | ofNat n => exact Nat.toList_repr.symm
  | negSucc n =>
    have hminus : toString (Int.negSucc n) = "-" ++ (n + 1).repr := rfl
    rw [hminus, String.toList_append, Nat.toList_repr]
    rfl

theorem operand_member (x : String) (hx : isIdentifier x = true) : Operand names ("$event." ++ x) := by
  have hpath : ".".intercalate ["$event", x] = "$event." ++ x := by
    rw [String.intercalate_cons_cons, String.intercalate_singleton]
    rfl
  exact hpath ▸ .event (List.forall_mem_singleton.mpr hx)

theorem isWhole_oneOrMany {vs : List Json} (h : Json.areWhole vs = true) : (oneOrMany vs).isWhole = true := by
  unfold oneOrMany
  split
  · simpa only [Json.areWhole, Bool.and_true] using h
  · exact h

theorem areWhole_map {α : Type} {f : α → Json} (hf : ∀ a, (f a).isWhole = true) (as : List α) :
    Json.areWhole (as.map f) = true := by
  induction as with
  | nil => rfl
  | cons a as ih => rw [List.map_cons, Json.areWhole, hf, ih, Bool.and_self]

/-- The codes or the names of a key, if it has any. -/
theorem operand_alias (key : String) {α : Type} (part : KeyAlias → List α) {f : α → Json}
    (hf : ∀ a, (f a).isWhole = true) :
    Operand names (((keyAlias? key).map fun k => (oneOrMany ((part k).map f)).compact).getD "undefined") := by
  rcases keyAlias? key with _ | k
  · exact .undefined
  · exact .value (isWhole_oneOrMany (areWhole_map hf (part k)))

theorem operand_checkKeyCodes (names : Names) {a b d : String} (ha : Operand names a) (hb : Operand names b)
    (hd : Operand names d) : Operand names (names .checkKeyCodes ++ "(" ++
      ("$event.keyCode," ++ a ++ "," ++ b ++ ",$event.key," ++ d) ++ ")") := by
  have htext : ",".intercalate ["$event.keyCode", a, b, "$event.key", d] =
      "$event.keyCode," ++ a ++ "," ++ b ++ ",$event.key," ++ d := by
    rw [← String.toList_inj]
    simp [String.intercalate_cons_cons, String.intercalate_singleton]
  have hcode : Operand names "$event.keyCode" := operand_member "keyCode" rfl
  have hkey : Operand names "$event.key" := operand_member "key" rfl
  have hargs : ∀ x ∈ ["$event.keyCode", a, b, "$event.key", d], Operand names x := by
    simp only [List.forall_mem_cons]
    exact ⟨hcode, ha, hb, hkey, hd, List.forall_mem_nil _⟩
  exact htext ▸ .helper .checkKeyCodes hargs

theorem expression_of_keyTest {key : Json} {c : Code} (h : keyTest key = .ok c) :
    Expression names (c.render names) := by
  obtain ⟨key, rfl, htest⟩ := keyTest_eq_ok h
  have hnamed := Expression.operand (operand_checkKeyCodes names (.value (v := .string key) rfl)
    (operand_alias key KeyAlias.codes (f := fun c : Nat => .int c) fun _ => rfl)
    (operand_alias key KeyAlias.names (f := .string) fun _ => rfl))
  unfold textKeyTest at htest
  split at htest
  · cases htest
    exact hnamed
  · split at htest
    · cases htest
    · cases htest
      split
      · exact hnamed
      · next n _ _ =>
        have hnumber : Operand names (toString n) := compact_int n ▸ .value rfl
        have hcode : Operand names "$event.keyCode" := operand_member "keyCode" rfl
        exact .binary (.operand hcode) (o := "!==") (by decide) (.operand hnumber)

/-- Key filters apply to the events of keys. -/
theorem operand_keyEvent : Operand names "!$event.type.indexOf('key')" := by
  have hpath : Operand names (".".intercalate ["$event", "type", "indexOf"]) := .event (by decide)
  have hcall := Operand.not (.call hpath (List.forall_mem_singleton.mpr (.quoted (x := "key") rfl)))
  simpa [String.intercalate_cons_cons, String.intercalate_singleton] using hcall

theorem expression_of_keyFilter {keys : List Json} (hne : keys ≠ []) {c : Code}
    (h : keyFilter keys = .ok (.guard c)) : Expression names (c.render names) := by
  obtain ⟨tests, ht, h⟩ := bind_ok h
  cases h
  have hfilled : tests ≠ [] := by
    obtain ⟨key, keys, rfl⟩ := List.exists_cons_of_ne_nil hne
    rw [List.mapM_cons] at ht
    obtain ⟨test, -, ht⟩ := bind_ok ht
    obtain ⟨tests', -, ht⟩ := bind_ok ht
    cases ht
    exact List.cons_ne_nil test tests'
  have htests : Expression names ("&&".intercalate (tests.map (Code.render names))) := by
    refine expression_intercalate (by decide) (by simpa using hfilled) fun a ha => ?_
    obtain ⟨test, htest, rfl⟩ := List.mem_map.mp ha
    exact mapM_ok (fun _ _ _ => expression_of_keyTest) ht test htest
  have hfilter := Expression.binary (.operand operand_keyEvent) (o := "&&") (by decide) htests
  rw [← Code.render_join] at hfilter
  exact hfilter

theorem expression_of_modifierStatement {key : String} {c : Code} (h : modifierStatement? key = some (.guard c)) :
    Expression names (c.render names) := by
  have hmember (x : String) (hx : isIdentifier x = true) : Expression names ("$event." ++ x) :=
    .operand (operand_member x hx)
  have hnegated (x : String) (hx : isIdentifier x = true) : Expression names ("!" ++ ("$event." ++ x)) :=
    .operand (.not (operand_member x hx))
  have hbutton (n : Int) : Expression names ("'" ++ "button" ++ "'" ++ " in " ++ "$event" ++ " && " ++
      ("$event." ++ "button" ++ " !== " ++ toString n)) := by
    have hevent : Operand names "$event" := @Operand.event names [] (List.forall_mem_nil _)
    have hnumber : Operand names (toString n) := compact_int n ▸ .value rfl
    exact .binary (.binary (.operand (.quoted rfl)) (by decide) (.operand hevent)) (by decide)
      (.binary (hmember "button" rfl) (by decide) (.operand hnumber))
  unfold modifierStatement? at h
  split at h <;> cases h
  · exact .binary (o := " !== ") (hmember "target" rfl) (by decide) (hmember "currentTarget" rfl)
  · exact hnegated "ctrlKey" rfl
  · exact hnegated "shiftKey" rfl
  · exact hnegated "altKey" rfl
  · exact hnegated "metaKey" rfl
  · exact hbutton 0
  · exact hbutton 1
  · exact hbutton 2

/-- The modifiers ask for exact system keys, and for all of them. -/
def Exhausted (m : Modifiers) : Prop :=
  .string "exact" ∈ Table.keys m ∧ ∀ k ∈ systemKeys, m.on k = true

instance (m : Modifiers) : Decidable (Exhausted m) :=
  inferInstanceAs (Decidable (_ ∧ _))

/-- The guard for exact modifiers tests the system keys that are not asked for. -/
theorem expression_of_exactGuard {m : Modifiers} {c : Code} (h : exactGuard m = .guard c)
    (hm : ¬ ∀ k ∈ systemKeys, m.on k = true) : Expression names (c.render names) := by
  cases h
  refine expression_intercalate (by decide) ?_ fun a ha => ?_
  -- Nothing is left to join only if all keys are asked for.
  · intro hnone
    refine hm fun k hk => ?_
    simpa using List.filter_eq_nil_iff.mp (List.map_eq_nil_iff.mp hnone) k hk
  · obtain ⟨k, hk, rfl⟩ := List.mem_map.mp ha
    have hidentifier : ∀ k ∈ systemKeys, isIdentifier (k ++ "Key") = true := by decide
    rw [String.append_assoc]
    exact .operand (operand_member _ (hidentifier k (List.mem_filter.mp hk).1))

theorem render_exactGuard {m : Modifiers} {c : Code} (h : exactGuard m = .guard c)
    (hm : ∀ k ∈ systemKeys, m.on k = true) : c.render names = "" := by
  have hnone : (systemKeys.filter fun k => !m.on k) = [] :=
    List.filter_eq_nil_iff.mpr fun k hk => by simp [hm k hk]
  cases h
  rw [hnone]
  rfl

/-! ## All statements of a listener -/

theorem guard_of_statements {m : Modifiers} {ss : List Statement} (h : statements m = .ok ss) {c : Code}
    (hc : .guard c ∈ ss) : Exhausted m ∧ c.render names = "" ∨ Expression names (c.render names) := by
  have hother (hc : .guard c ∈ (Table.keys m).filterMap (statement? m)) :
      Exhausted m ∧ c.render names = "" ∨ Expression names (c.render names) := by
    obtain ⟨key, hkey, hs⟩ := List.mem_filterMap.mp hc
    obtain ⟨name, rfl, hguard | ⟨rfl, hguard⟩⟩ := statement?_eq_some hs
    · exact .inr (expression_of_modifierStatement hguard)
    · by_cases hm : ∀ k ∈ systemKeys, m.on k = true
      · exact .inl ⟨⟨hkey, hm⟩, render_exactGuard hguard.symm hm⟩
      · exact .inr (expression_of_exactGuard hguard.symm hm)
  obtain rfl | ⟨keys, s, hne, -, hs, rfl⟩ := statements_cases h
  · exact hother hc
  · obtain rfl | hc := List.mem_cons.mp hc
    · exact .inr (expression_of_keyFilter hne hs)
    · exact hother hc

theorem exists_empty_guard {m : Modifiers} {ss : List Statement} (h : statements m = .ok ss) (hm : Exhausted m) :
    ∃ c, .guard c ∈ ss ∧ c.render names = "" := by
  have hexact : exactGuard m ∈ (Table.keys m).filterMap (statement? m) :=
    List.mem_filterMap.mpr ⟨.string "exact", hm.1, rfl⟩
  refine ⟨_, ?_, render_exactGuard rfl hm.2⟩
  obtain rfl | ⟨keys, s, -, -, -, rfl⟩ := statements_cases h
  · exact hexact
  · exact List.mem_cons_of_mem s hexact

/-- What a listener does after the statements of its modifiers. -/
def lastStatement (value : String) : String :=
  if isMethodPath value.toList then "return " ++ value ++ ".apply(null, arguments)"
  else if isFunctionExpression value.toList then "return (" ++ value ++ ").apply(null, arguments)"
  else if isInvocation value.toList then "return " ++ value
  else value

theorem code_of_modifiers {h : Handler} {value : String} (hvalue : h.value = .string value) {m : Modifiers}
    (hm : h.modifiers = some m) {c : Code} (hc : h.code = .ok c) (names : Names) :
    ∃ ss, statements m = .ok ss ∧ c.render names = "function($event)\x7b" ++
      String.intercalate "" (ss.map fun s => s.code.render names) ++ (lastStatement value ++ "\x7d") := by
  unfold Handler.code at hc
  rw [hvalue, hm] at hc
  obtain ⟨ss, hs, hc⟩ := bind_ok hc
  cases hc
  refine ⟨ss, hs, ?_⟩
  have hstatements := Code.render_join names "" (ss.map Statement.code)
  rw [List.map_map] at hstatements
  exact congrArg (fun t => "function($event)\x7b" ++ t ++ (lastStatement value ++ "\x7d")) hstatements

/-- A listener with modifiers is made whenever they are texts and the numbers in its keys can be read. Its statements
stand before what it does, the condition of each guard is an expression or empty, and there is an empty one exactly if
the modifiers ask for exact system keys and for all of them. -/
theorem guards_test_conditions {h : Handler} {value : String} (hvalue : h.value = .string value) {m : Modifiers}
    (hm : h.modifiers = some m) (names : Names) :
    ((∀ key ∈ Table.keys m, Readable key) → ∃ c, h.code = .ok c) ∧
      ∀ c, h.code = .ok c → ∃ ss, statements m = .ok ss ∧
        c.render names = "function($event)\x7b" ++ String.intercalate "" (ss.map fun s => s.code.render names) ++
          (lastStatement value ++ "\x7d") ∧
        (∀ condition, .guard condition ∈ ss →
          condition.render names = "" ∨ Expression names (condition.render names)) ∧
        ((∃ condition, .guard condition ∈ ss ∧ condition.render names = "") ↔ Exhausted m) := by
  refine ⟨fun hkeys => ?_, fun c hc => ?_⟩
  · have hlegible : h.Legible fun _ => False :=
      ⟨.inr ⟨value, hvalue⟩, .inr fun m' hm' => Option.some.inj (hm.symm.trans hm') ▸ hkeys⟩
    cases hcode : h.code with
    | ok c => exact ⟨c, rfl⟩
    | error f => exact (hlegible.code f hcode).elim
  · obtain ⟨ss, hs, hrender⟩ := code_of_modifiers hvalue hm hc names
    refine ⟨ss, hs, hrender, fun condition hmem => ?_, ?_, exists_empty_guard hs⟩
    · exact (guard_of_statements hs hmem).imp_left And.right
    · rintro ⟨condition, hmem, hempty⟩
      obtain ⟨hexhausted, -⟩ | hexpression := guard_of_statements hs hmem
      · exact hexhausted
      · exact absurd hempty hexpression.ne_empty

/-- Modifiers that are all switched on. -/
def asking (keys : List String) : Modifiers :=
  keys.map fun key => (.string key, .bool true)

def savingOn (keys : List String) : Handler :=
  { value := .string "save", modifiers := some (asking keys) }

/-- A listener for exactly Ctrl and Enter tests a condition in every guard. One for exactly all system keys has a guard
without a condition. -/
theorem guards_test_conditions_save :
    (∃ c ss, (savingOn ["ctrl", "enter", "exact"]).code = .ok c ∧
      statements (asking ["ctrl", "enter", "exact"]) = .ok ss ∧
      ∀ condition, .guard condition ∈ ss → Expression Names.standard (condition.render Names.standard)) ∧
    ∃ c ss, (savingOn ("exact" :: systemKeys)).code = .ok c ∧ statements (asking ("exact" :: systemKeys)) = .ok ss ∧
      ∃ condition, .guard condition ∈ ss ∧ condition.render Names.standard = "" := by
  constructor
  · obtain ⟨hmade, hguards⟩ :=
      guards_test_conditions (h := savingOn ["ctrl", "enter", "exact"]) rfl rfl Names.standard
    obtain ⟨c, hc⟩ := hmade (by decide)
    obtain ⟨ss, hs, -, hconditions, hempty⟩ := hguards c hc
    refine ⟨c, ss, hc, hs, fun condition hmem => (hconditions condition hmem).resolve_left fun h => ?_⟩
    exact absurd (hempty.mp ⟨condition, hmem, h⟩) (by decide)
  · obtain ⟨hmade, hguards⟩ := guards_test_conditions (h := savingOn ("exact" :: systemKeys)) rfl rfl Names.standard
    obtain ⟨c, hc⟩ := hmade (by decide)
    obtain ⟨ss, hs, -, -, hempty⟩ := hguards c hc
    exact ⟨c, ss, hc, hs, hempty.mpr (by decide)⟩

end TemplateCompiler.Listener
