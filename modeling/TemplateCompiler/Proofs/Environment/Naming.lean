import TemplateCompiler.Proofs.Environment.Reuse
import TemplateCompiler.Proofs.Generator.Drawn

/-!
# Names of helpers are used alike everywhere

Where the compiler writes the name of a helper, it writes the name that it was given: for a template without hashes
of slot content there is one `Outline`, a program with holes for names, and its program under any naming is the outline
with these names in the holes (`exists_outline`). What the outline says itself is offered by the template, or it is a
text of the compiler that could not pass for a standard name.
-/

namespace TemplateCompiler

namespace Tree

/-- Flags are no values of a template. -/
theorem writes_of_unflag {t u : Tree} (h : u.unflag = t.unflag) {v : Json} (hv : u.Writes v) : t.Writes v := by
  obtain ⟨i, n, hn, hv⟩ := hv
  have hi : (t.node? i).map Node.unflag = some n.unflag := by
    rw [← node?_unflag, ← h, node?_unflag, hn, Option.map_some]
  obtain ⟨n', hn', heq⟩ := Option.map_eq_some_iff.mp hi
  have hcontent : n'.content = n.content := (congrArg Node.content heq :)
  refine ⟨i, n', hn', ?_⟩
  unfold Node.values at hv ⊢
  rwa [hcontent]

end Tree

namespace Environment

/-- No hash of slot content is in what a compile writes. -/
def Hashless (env : Environment) (t : Tree) : Prop :=
  ∀ t₁ log c, (if env.optimize then t.analyse env.analysis else .ok (t, [])) = .ok (t₁, log) →
    (t₁.generate env.options none).code = .ok c → c.Hashless

/-- The program of a compile, from the analysis, where there is one, and the generation. -/
theorem program_compile (env : Environment) (t : Tree) : (env.compile t).result.map Compiled.program =
    (if env.optimize then t.analyse env.analysis else .ok (t, [])).bind fun p =>
      (p.1.generate env.options none).code.map (·.program env.names) := by
  rw [compile_eq]
  rcases if env.optimize then t.analyse env.analysis else .ok (t, []) with failure | ⟨t₁, log⟩
  · rfl
  · dsimp only [Except.bind]
    rcases (t₁.generate env.options none).code with failure | c <;> rfl

/-- The standard environment under a naming. -/
def named (reserved : String → Bool) (optimize : Bool) (staticKeys : List String) (I : Naming) (sink : Bool) :
    Environment :=
  { names := I.names, reserved, optimize, staticKeys, sink, directives := DirectivePlugin.standard I.names reserved }

/-- For a template that compiles without hashes of slot content under one naming, one outline gives its programs
under every naming, whether there is a sink or not; or it compiles under none of them. -/
theorem exists_outline (reserved : String → Bool) (optimize : Bool) (staticKeys : List String) {t : Tree}
    (I₀ : Naming) {env₀ : Environment}
    (henv₀ : ofConfiguration { names := I₀.names, reserved, optimize, staticKeys } = .ok env₀)
    (hhash : env₀.Hashless t) :
    ∃ outline : Except Failure Outline, (∀ o, outline = .ok o → o.Sound t.Writes) ∧ ∀ (I : Naming) (sink : Bool),
      ∃ env, ofConfiguration { names := I.names, reserved, optimize, staticKeys, sink } = .ok env ∧
        (env.compile t).result.map Compiled.program = outline.map (·.fill I.names) := by
  let env (I : Naming) (sink : Bool) := named reserved optimize staticKeys I sink
  have hconfiguration (I : Naming) (sink : Bool) :
      ofConfiguration { names := I.names, reserved, optimize, staticKeys, sink } = .ok (env I sink) := rfl
  obtain rfl : env₀ = env I₀ false := Except.ok.inj (henv₀.symm.trans (hconfiguration I₀ false))
  -- The analysis is not told any names.
  rcases hprepared : if (env I₀ false).optimize then t.analyse (env I₀ false).analysis else .ok (t, []) with
    failure | ⟨t₁, log⟩
  · have hprogram (I : Naming) (sink : Bool) :
        ((env I sink).compile t).result.map Compiled.program = .error failure :=
      (program_compile _ t).trans (congrArg (Except.bind · _) hprepared)
    exact ⟨.error failure, nofun, fun I sink => ⟨_, hconfiguration I sink, hprogram I sink⟩⟩
  · have hprogram (I : Naming) (sink : Bool) : ((env I sink).compile t).result.map Compiled.program =
        (t₁.generate (I.options reserved) none).code.map (·.program I.names) :=
      (program_compile _ t).trans (congrArg (Except.bind · _) hprepared)
    have ht (v : Json) : t₁.Writes v → t.Writes v := Tree.writes_of_unflag (unflag_prepared hprepared)
    rcases Tree.agree_generate ht reserved none with ⟨failure, hcode⟩ | ⟨c, hc, hcode⟩
    · refine ⟨.error failure, nofun, fun I sink => ⟨_, hconfiguration I sink, ?_⟩⟩
      rw [hprogram, congrFun hcode I]
      rfl
    · obtain ⟨o, ho, hfill⟩ := hc.program (hhash t₁ log (c I₀) hprepared (congrFun hcode I₀))
      refine ⟨.ok o, fun _ h => Except.ok.inj h ▸ ho, fun I sink => ⟨_, hconfiguration I sink, ?_⟩⟩
      rw [hprogram, congrFun hcode I]
      exact congrArg Except.ok (hfill I)

/-- Names that all begin like the word that begins a function. -/
def lookalike : Naming where
  names h := "function" ++ Names.standard h
  identifier h := by cases h <;> decide
  notFunction h := by cases h <;> decide

/-- A form with a two-way binding, a list and a rule that is hoisted. -/
def profile : Json :=
  let model : Json := .object
    [("name", "model"), ("value", "user.name"), ("modifiers", .object [("lazy", .bool true), ("number", .bool true)])]
  let input : Json := .object [("tag", "input"), ("plain", .bool false), ("directives", .array [model])]
  let entry : Json := .object
    [("tag", "li"), ("for", "entries"), ("alias", "entry"), ("key", "entry.id"), ("plain", .bool false)]
  let rule : Json := .object [("tag", "p"), ("children", .array [.object [("tag", "b")], .object [("tag", "i")]])]
  .object [("tag", "form"), ("children", .array [input, entry, rule])]

/-- The program of the form under the standard names. -/
def profileStandard : Program where
  render := "with(this)\x7breturn _c('form',[_c('input',\x7bdirectives:[\x7bname:\"model\",rawName:\"v-model\"," ++
    "value:(user.name),expression:\"user.name\",modifiers:\x7b\"lazy\":true,\"number\":true\x7d\x7d]," ++
    "domProps:\x7b\"value\":(user.name)\x7d,on:\x7b\"change\":function($event)\x7b" ++
    "$set(user, \"name\", _n($event.target.value))\x7d," ++
    "\"blur\":function($event)\x7breturn $forceUpdate()\x7d\x7d\x7d)," ++
    "_l((entries),function(entry)\x7breturn _c('li',\x7bkey:entry.id\x7d)\x7d),_m(0)],2)\x7d"
  functions := ["with(this)\x7breturn _c('p',[_c('b'),_c('i')])\x7d"]

/-- Its program under the names that look like the word. -/
def profileLookalike : Program where
  render := "with(this)\x7breturn function_c('form',[function_c('input',\x7bdirectives:[\x7bname:\"model\"," ++
    "rawName:\"v-model\",value:(user.name),expression:\"user.name\"," ++
    "modifiers:\x7b\"lazy\":true,\"number\":true\x7d\x7d]," ++
    "domProps:\x7b\"value\":(user.name)\x7d,on:\x7b\"change\":function($event)\x7b" ++
    "function$set(user, \"name\", function_n($event.target.value))\x7d," ++
    "\"blur\":function($event)\x7breturn function$forceUpdate()\x7d\x7d\x7d)," ++
    "function_l((entries),function(entry)\x7breturn function_c('li',\x7bkey:entry.id\x7d)\x7d),function_m(0)],2)\x7d"
  functions := ["with(this)\x7breturn function_c('p',[function_c('b'),function_c('i')])\x7d"]

theorem exists_outline_profile : ∃ (t : Tree) (o : Outline), (Tree.load profile).1 = .ok t ∧ o.Sound t.Writes ∧
    (∀ (I : Naming) (sink : Bool), ∃ env, ofConfiguration { names := I.names, sink } = .ok env ∧
      (env.compile t).result.map Compiled.program = .ok (o.fill I.names)) ∧
    o.fill Names.standard = profileStandard ∧ o.fill lookalike.names = profileLookalike := by
  have h : ((Tree.load profile).1.toOption.bind fun t =>
      (t.analyse ({} : Environment).analysis).toOption.bind fun p =>
        (p.1.generate ((default : Naming).options Tag.isReserved) none).code.toOption.bind fun c =>
          (p.1.generate (lookalike.options Tag.isReserved) none).code.toOption.map fun c' =>
            decide (c.Hashless ∧ c.program Names.standard = profileStandard ∧
              c'.program lookalike.names = profileLookalike)) = some true := by
    rw [analysis_standard]
    decide +kernel
  obtain ⟨t, hload, h⟩ := Option.bind_eq_some_iff.mp h
  obtain ⟨⟨t₁, log⟩, ha, h⟩ := Option.bind_eq_some_iff.mp h
  obtain ⟨c, hc, h⟩ := Option.bind_eq_some_iff.mp h
  obtain ⟨c', hc', h⟩ := Option.map_eq_some_iff.mp h
  obtain ⟨hhash, hstandard, hlookalike⟩ := of_decide_eq_true h
  let env (I : Naming) := named Tag.isReserved true [] I false
  have ha : t.analyse (env default).analysis = .ok (t₁, log) := ok_of_toOption ha
  have hprogram (I : Naming) : ((env I).compile t).result.map Compiled.program =
      (t₁.generate (I.options Tag.isReserved) none).code.map (·.program I.names) :=
    (program_compile _ t).trans (congrArg (Except.bind · _) ha)
  have hhashless : (env default).Hashless t := by
    intro t₂ log₂ c₂ ha₂ hc₂
    obtain ⟨rfl, rfl⟩ := Prod.mk.inj (Except.ok.inj (ha₂.symm.trans ha))
    exact Except.ok.inj (hc₂.symm.trans (ok_of_toOption hc)) ▸ hhash
  obtain ⟨outline, hsound, hall⟩ := exists_outline Tag.isReserved true [] default rfl hhashless
  have hfill (I : Naming) : outline.map (·.fill I.names) =
      (t₁.generate (I.options Tag.isReserved) none).code.map (·.program I.names) := by
    obtain ⟨e, he, hr⟩ := hall I false
    obtain rfl : env I = e := Except.ok.inj he
    exact hr.symm.trans (hprogram I)
  have hstandard : outline.map (·.fill Names.standard) = .ok profileStandard := by
    rw [← hstandard]
    exact (hfill default).trans (by rw [ok_of_toOption hc]; rfl)
  have hlookalike : outline.map (·.fill lookalike.names) = .ok profileLookalike := by
    rw [← hlookalike]
    exact (hfill lookalike).trans (by rw [ok_of_toOption hc']; rfl)
  cases outline with
  | error failure => cases hstandard
  | ok o =>
    exact ⟨t, o, ok_of_toOption hload, hsound o rfl, hall, Except.ok.inj hstandard, Except.ok.inj hlookalike⟩

end Environment

end TemplateCompiler
