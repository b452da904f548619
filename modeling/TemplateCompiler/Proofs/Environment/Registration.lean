import TemplateCompiler.Registry

/-!
# Registration as a whole or not at all

On values, a change of an environment gives a new environment or a fault (`Environment.change`). A registry makes the
change in several steps, and any of them may fail when others have been made already. What it writes goes to a cell that
nobody else has (`Edits`, `attempt_revise_ok`, `attempt_revise_error`), so that it does what the change does on values,
and nothing if that fails (`settled_perform`). The cells that were there before keep what they hold through every
sequence of steps (`grows_run`), and with them the options and the copies that were taken (`changes_all_or_nothing`).
-/

namespace TemplateCompiler

inductive Change where
  | set (name : String) (c : Candidate)
  | delete (name : String)
  | update (entries : List (String × Candidate))
  | addModule (m : ModuleCandidate)

/-- The change of a registry. -/
def Change.perform : Change → RegistryM Unit
  | .set name c => RegistryM.set name c
  | .delete name => RegistryM.delete name
  | .update entries => RegistryM.update entries
  | .addModule m => RegistryM.addModule m

/-- The change of a value. -/
def Environment.change (env : Environment) : Change → Except TableFault Environment
  | .set name c => (DirectiveTable.set env.directives name c).map fun t => { env with directives := t }
  | .delete name => (DirectiveTable.delete env.directives name).map fun t => { env with directives := t }
  | .update entries => (DirectiveTable.update env.directives entries).map fun t => { env with directives := t }
  | .addModule m => (env.addModule m).mapError .plugin

/-! ## Changes of values -/

/-- The plugins of several entries, or what is wrong with the first that is none. -/
def adaptAll (entries : List (String × Candidate)) : Except PluginFault (List (String × DirectivePlugin)) :=
  entries.mapM fun e => e.2.adapt.map fun p => (e.1, p)

theorem adaptAll_cons (e : String × Candidate) (entries : List (String × Candidate)) :
    adaptAll (e :: entries) = e.2.adapt.bind fun p => (adaptAll entries).map fun plugins => (e.1, p) :: plugins := by
  rw [adaptAll, List.mapM_cons, ← adaptAll]
  cases e.2.adapt with
  | error fault => rfl
  | ok p => cases adaptAll entries <;> rfl

namespace DirectiveTable

theorem update_eq (t : DirectiveTable) (entries : List (String × Candidate)) :
    update t entries = ((adaptAll entries).mapError .plugin).map fun plugins => Table.putAll plugins t := by
  rw [update, ← adaptAll]
  cases adaptAll entries <;> rfl

/-- A table takes several entries as it takes them one after another. -/
theorem update_eq_foldlM (t : DirectiveTable) (entries : List (String × Candidate)) :
    update t entries = entries.foldlM (fun t e => set t e.1 e.2) t := by
  induction entries generalizing t with
  | nil => rfl
  | cons e entries ih =>
    rw [update_eq, adaptAll_cons, List.foldlM_cons, set]
    cases e.2.adapt with
    | error fault => rfl
    | ok p =>
      show _ = entries.foldlM (fun t e => set t e.1 e.2) (Table.put e.1 p t)
      rw [← ih, update_eq]
      cases adaptAll entries <;> rfl

end DirectiveTable

theorem Environment.change_update (env : Environment) (entries : List (String × Candidate)) :
    env.change (.update entries) = (entries.map fun e => Change.set e.1 e.2).foldlM change env := by
  rw [change, DirectiveTable.update_eq_foldlM, List.foldlM_map]
  induction entries generalizing env with
  | nil => rfl
  | cons e entries ih =>
    rw [List.foldlM_cons, List.foldlM_cons, change]
    cases DirectiveTable.set env.directives e.1 e.2 with
    | error fault => rfl
    | ok t => exact ih { env with directives := t }

namespace Registry

variable {α β : Type} {r r' : Registry} {x : RegistryM α} {f : α → RegistryM β}

/-! ## Attempts -/

theorem attempt_bind (r : Registry) (x : RegistryM α) (f : α → RegistryM β) :
    r.attempt (x >>= f) =
      match r.attempt x with
      | (.ok a, r') => r'.attempt (f a)
      | (.error fault, r') => (.error fault, r') := by
  show (ExceptT.run (x >>= f)).run r = _
  rw [ExceptT.run_bind, StateT.run_bind, attempt]
  rcases x.run.run r with ⟨_ | a, r'⟩ <;> rfl

theorem attempt_bind_of_ok {a : α} (h : r.attempt x = (.ok a, r')) : r.attempt (x >>= f) = r'.attempt (f a) := by
  rw [attempt_bind, h]

theorem attempt_bind_of_error {fault : TableFault} (h : r.attempt x = (.error fault, r')) :
    r.attempt (x >>= f) = (.error fault, r') := by
  rw [attempt_bind, h]

theorem attempt_accept (r : Registry) (x : Except PluginFault α) :
    r.attempt (RegistryM.accept x) = (x.mapError .plugin, r) := by
  cases x <;> rfl

/-! ## Cells -/

theorem ext_tables (horigin : r.origin = r'.origin) (htables : r.tables = r'.tables) (hlists : r.lists = r'.lists)
    (htable : r.table = r'.table) (hmodules : r.modules = r'.modules) : r = r' := by
  cases r
  cases r'
  subst horigin htables hlists htable hmodules
  rfl

theorem getElem?_table (r : Registry) : r.tables[r.table]? = some r.directiveTable :=
  Array.getElem?_eq_getElem r.table_lt

theorem getElem?_modules (r : Registry) : r.lists[r.modules]? = some r.moduleList :=
  Array.getElem?_eq_getElem r.modules_lt

theorem edit_edit (r : Registry) (cell : Nat) (g g' : DirectiveTable → DirectiveTable) :
    (r.edit cell g).edit cell g' = r.edit cell fun t => g' (g t) := by
  refine ext_tables rfl (Array.ext_getElem? fun i => ?_) rfl rfl rfl
  simp only [edit, Array.getElem?_modify]
  split <;> simp [Function.comp_def]

/-- Only what stands in the cell counts. -/
theorem edit_eq {cell : Nat} {t : DirectiveTable} (h : r.tables[cell]? = some t) (g : DirectiveTable → DirectiveTable) :
    r.edit cell g = r.edit cell fun _ => g t := by
  refine ext_tables rfl (Array.ext_getElem? fun i => ?_) rfl rfl rfl
  simp only [edit, Array.getElem?_modify]
  split
  · next hi => rw [← hi, h]; rfl
  · rfl

theorem edit_self {cell : Nat} {t : DirectiveTable} (h : r.tables[cell]? = some t) : (r.edit cell fun _ => t) = r := by
  refine ext_tables rfl (Array.ext_getElem? fun i => ?_) rfl rfl rfl
  simp only [edit, Array.getElem?_modify]
  split
  · next hi => rw [← hi, h]; rfl
  · rfl

theorem getElem?_edit {cell : Nat} {t : DirectiveTable} (h : r.tables[cell]? = some t) (t' : DirectiveTable) :
    (r.edit cell fun _ => t').tables[cell]? = some t' := by
  simp [edit, Array.getElem?_modify, h]

theorem edit_push (r : Registry) (t t' : DirectiveTable) :
    ((r.push t).edit r.tables.size fun _ => t') = r.push t' := by
  refine ext_tables rfl (Array.ext_getElem? fun i => ?_) rfl rfl rfl
  simp only [edit, push, Array.getElem?_modify, Array.getElem?_push]
  split
  · next hi => simp [← hi]
  · next hi => simp [Ne.symm hi]

theorem environment_ofEnvironment (env : Environment) : (ofEnvironment env).environment = env := rfl

/-- A table that is not in use is no part of the environment. -/
theorem environment_push (r : Registry) (t : DirectiveTable) : (r.push t).environment = r.environment := by
  have htable : (r.push t).directiveTable = r.directiveTable :=
    Array.getElem_push_lt r.table_lt
  rw [environment, htable]
  rfl

theorem environment_turnTo {cell : Nat} {t : DirectiveTable} (h : r.tables[cell]? = some t) :
    (r.turnTo cell).environment = { r.environment with directives := t } := by
  obtain ⟨hlt, ht⟩ := Array.getElem?_eq_some_iff.mp h
  rw [turnTo, dif_pos hlt, ← ht]
  rfl

theorem environment_renewModules (r : Registry) (ms : List CompilerModule) :
    (r.renewModules ms).environment = { r.environment with modules := ms } := by
  have hlist : (r.renewModules ms).moduleList = ms := Array.getElem_push_eq
  rw [environment, hlist]
  rfl

/-! ## Revisions -/

/-- `act` does to the table in a cell what `f` does to a table, and leaves the other cells alone, also if it fails. -/
def Edits (act : Nat → RegistryM Unit) (f : DirectiveTable → Except TableFault DirectiveTable) : Prop :=
  ∀ (r : Registry) (cell : Nat) (t : DirectiveTable), r.tables[cell]? = some t →
    ∃ result t', r.attempt (act cell) = (result, r.edit cell fun _ => t') ∧ result.map (fun _ => t') = f t

theorem edits_register (name : String) (c : Candidate) :
    Edits (RegistryM.register name c) fun t => DirectiveTable.set t name c := by
  intro r cell t ht
  have haccept := attempt_accept r c.adapt
  unfold RegistryM.register DirectiveTable.set
  cases hc : c.adapt with
  | error fault =>
    rw [hc] at haccept
    refine ⟨.error (.plugin fault), t, ?_, rfl⟩
    rw [attempt_bind_of_error haccept, edit_self ht]
  | ok p =>
    rw [hc] at haccept
    refine ⟨.ok (), Table.put name p t, ?_, rfl⟩
    rw [attempt_bind_of_ok haccept, ← edit_eq ht]
    rfl

theorem edits_remove (name : String) :
    Edits (RegistryM.remove name) fun t => DirectiveTable.delete t name := by
  intro r cell t ht
  have hget : r.attempt (get : RegistryM Registry) = (.ok r, r) := rfl
  unfold RegistryM.remove DirectiveTable.delete
  dsimp only
  rw [attempt_bind_of_ok hget, ht, Option.any_some]
  by_cases hname : Table.contains name t = true
  · rw [if_pos hname, if_pos hname]
    refine ⟨.ok (), Table.erase name t, ?_, rfl⟩
    rw [← edit_eq ht]
    rfl
  · rw [if_neg hname, if_neg hname]
    refine ⟨.error .unknownName, t, ?_, rfl⟩
    rw [edit_self ht]
    rfl

/-- All entries are looked at, and nothing is written yet. -/
theorem attempt_mapM_accept (r : Registry) (entries : List (String × Candidate)) :
    r.attempt (entries.mapM fun e => do
      let p ← RegistryM.accept e.2.adapt
      return (e.1, p)) = ((adaptAll entries).mapError .plugin, r) := by
  induction entries with
  | nil => rfl
  | cons e entries ih =>
    have haccept := attempt_accept r e.2.adapt
    rw [List.mapM_cons, adaptAll_cons]
    cases hp : e.2.adapt with
    | error fault =>
      rw [hp] at haccept
      exact attempt_bind_of_error (attempt_bind_of_error haccept)
    | ok p =>
      have hentry : r.attempt (do
          let p ← RegistryM.accept (.ok p)
          return (e.1, p)) = (.ok (e.1, p), r) := rfl
      rw [attempt_bind_of_ok hentry, attempt_bind, ih]
      cases adaptAll entries <;> rfl

theorem attempt_forM_write {cell : Nat} {t : DirectiveTable} (h : r.tables[cell]? = some t)
    (plugins : List (String × DirectivePlugin)) :
    r.attempt (forM plugins fun e => RegistryM.write cell (Table.put e.1 e.2)) =
      (.ok (), r.edit cell fun _ => Table.putAll plugins t) := by
  induction plugins generalizing r t with
  | nil => rw [Table.putAll, List.foldl_nil, edit_self h]; rfl
  | cons e plugins ih =>
    have hwrite : r.attempt (RegistryM.write cell (Table.put e.1 e.2)) =
        (.ok (), r.edit cell fun _ => Table.put e.1 e.2 t) := by
      rw [← edit_eq h]
      rfl
    rw [List.forM_cons, attempt_bind_of_ok hwrite, ih (getElem?_edit h _), edit_edit]
    rfl

theorem edits_registerAll (entries : List (String × Candidate)) :
    Edits (RegistryM.registerAll entries) fun t => DirectiveTable.update t entries := by
  intro r cell t ht
  have hmap := attempt_mapM_accept r entries
  dsimp only
  rw [DirectiveTable.update_eq, RegistryM.registerAll]
  cases hp : adaptAll entries with
  | error fault =>
    rw [hp] at hmap
    refine ⟨.error (.plugin fault), t, ?_, rfl⟩
    rw [attempt_bind_of_error hmap, edit_self ht]
  | ok plugins =>
    rw [hp] at hmap
    refine ⟨.ok (), Table.putAll plugins t, ?_, rfl⟩
    rw [attempt_bind_of_ok hmap, attempt_forM_write ht]

section Revise

variable {act : Nat → RegistryM Unit} {f : DirectiveTable → Except TableFault DirectiveTable} {t : DirectiveTable}

theorem attempt_copy (r : Registry) :
    r.attempt RegistryM.copy = (.ok r.tables.size, r.push r.directiveTable) := rfl

theorem getElem?_push_size (r : Registry) (t : DirectiveTable) : (r.push t).tables[r.tables.size]? = some t :=
  Array.getElem?_push_size

/-- The new cell is all that a revision has written when it comes to turn to it. -/
theorem attempt_act (h : Edits act f) (r : Registry) :
    ∃ result t, (r.push r.directiveTable).attempt (act r.tables.size) = (result, r.push t) ∧
      result.map (fun _ => t) = f r.directiveTable := by
  obtain ⟨result, t, hact, hresult⟩ := h _ _ _ (getElem?_push_size r r.directiveTable)
  exact ⟨result, t, by rw [hact, edit_push], hresult⟩

theorem attempt_revise_ok (h : Edits act f) (hf : f r.directiveTable = .ok t) :
    r.attempt (RegistryM.revise act) = (.ok (), (r.push t).turnTo r.tables.size) := by
  obtain ⟨result, t', hact, hresult⟩ := attempt_act h r
  rw [hf] at hresult
  cases result with
  | error fault => cases hresult
  | ok _ =>
    cases hresult
    rw [RegistryM.revise, attempt_bind_of_ok (attempt_copy r), attempt_bind_of_ok hact]
    rfl

theorem attempt_revise_error (h : Edits act f) {fault : TableFault} (hf : f r.directiveTable = .error fault) :
    ∃ t, r.attempt (RegistryM.revise act) = (.error fault, r.push t) := by
  obtain ⟨result, t', hact, hresult⟩ := attempt_act h r
  rw [hf] at hresult
  cases result with
  | ok _ => cases hresult
  | error fault' =>
    cases hresult
    exact ⟨t', by rw [RegistryM.revise, attempt_bind_of_ok (attempt_copy r), attempt_bind_of_error hact]⟩

end Revise

/-! ## What stays in the cells -/

/-- Every cell of the first registry is there in the second, with what it held. -/
structure Grows (r r' : Registry) : Prop where
  tables : ∀ {cell : Nat} {t}, r.tables[cell]? = some t → r'.tables[cell]? = some t
  lists : ∀ {cell : Nat} {ms}, r.lists[cell]? = some ms → r'.lists[cell]? = some ms

namespace Grows

theorem refl (r : Registry) : r.Grows r := ⟨id, id⟩

theorem trans {r'' : Registry} (h : r.Grows r') (h' : r'.Grows r'') : r.Grows r'' :=
  ⟨fun ht => h'.tables (h.tables ht), fun hms => h'.lists (h.lists hms)⟩

theorem getElem?_push {γ : Type} {xs : Array γ} {i : Nat} {a : γ} (h : xs[i]? = some a) (b : γ) :
    (xs.push b)[i]? = some a := by
  obtain ⟨hlt, rfl⟩ := Array.getElem?_eq_some_iff.mp h
  exact Array.getElem?_push_lt hlt

theorem push (r : Registry) (t : DirectiveTable) : r.Grows (r.push t) :=
  ⟨fun ht => getElem?_push ht t, id⟩

theorem turnTo (r : Registry) (cell : Nat) : r.Grows (r.turnTo cell) := by
  unfold Registry.turnTo
  split
  · exact ⟨id, id⟩
  · exact refl r

theorem renewModules (r : Registry) (ms : List CompilerModule) : r.Grows (r.renewModules ms) :=
  ⟨id, fun h => getElem?_push h ms⟩

end Grows

/-! ## Changes of a registry -/

/-- What is left of an attempt, if on values it has the given outcome: the cells that were there keep what they hold, and
the environment is the one of that outcome, or the same as before. -/
inductive Settled (r : Registry) : Except TableFault Environment → Except TableFault Unit × Registry → Prop
  | done {env : Environment} {r' : Registry} (henv : r'.environment = env) (hgrows : r.Grows r') :
      Settled r (.ok env) (.ok (), r')
  | refused {fault : TableFault} {r' : Registry} (henv : r'.environment = r.environment) (hgrows : r.Grows r') :
      Settled r (.error fault) (.error fault, r')

theorem Settled.grows {outcome : Except TableFault Environment} {s : Except TableFault Unit × Registry}
    (h : r.Settled outcome s) : r.Grows s.2 := by
  cases h <;> assumption

theorem settled_revise {act : Nat → RegistryM Unit} {f : DirectiveTable → Except TableFault DirectiveTable}
    (h : Edits act f) (r : Registry) :
    r.Settled ((f r.environment.directives).map fun t => { r.environment with directives := t })
      (r.attempt (RegistryM.revise act)) := by
  cases hf : f r.directiveTable with
  | error fault =>
    obtain ⟨t, hrevise⟩ := attempt_revise_error h hf
    rw [hrevise, show f r.environment.directives = .error fault from hf]
    exact .refused (environment_push r t) (.push r t)
  | ok t =>
    rw [attempt_revise_ok h hf, show f r.environment.directives = .ok t from hf]
    refine .done ?_ ((Grows.push r t).trans (.turnTo _ _))
    rw [environment_turnTo (getElem?_push_size r t), environment_push]

theorem settled_addModule (m : ModuleCandidate) (r : Registry) :
    r.Settled (r.environment.change (.addModule m)) (r.attempt (RegistryM.addModule m)) := by
  have haccept := attempt_accept r m.adapt
  rw [Environment.change, Environment.addModule, RegistryM.addModule]
  cases hm : m.adapt with
  | error fault =>
    rw [hm] at haccept
    rw [attempt_bind_of_error haccept]
    exact .refused rfl (.refl r)
  | ok m =>
    rw [hm] at haccept
    rw [attempt_bind_of_ok haccept]
    exact .done (environment_renewModules r _) (.renewModules r _)

/-- A change is made as on values, or not at all. -/
theorem settled_perform (c : Change) (r : Registry) :
    r.Settled (r.environment.change c) (r.attempt c.perform) := by
  cases c with
  | set name c => exact settled_revise (edits_register name c) r
  | delete name => exact settled_revise (edits_remove name) r
  | update entries => exact settled_revise (edits_registerAll entries) r
  | addModule m => exact settled_addModule m r

/-- Changes that succeed one after another on values do so in a registry. -/
theorem attempt_changes {cs : List Change} {env : Environment} (h : cs.foldlM Environment.change r.environment = .ok env) :
    ∃ r', r.attempt (forM cs Change.perform) = (.ok (), r') ∧ r'.environment = env := by
  induction cs generalizing r with
  | nil =>
    cases h
    exact ⟨r, rfl, rfl⟩
  | cons c cs ih =>
    rw [List.foldlM_cons] at h
    have hc := settled_perform c r
    rw [List.forM_cons]
    generalize hs : r.attempt c.perform = s at hc
    cases hchange : r.environment.change c with
    | error fault =>
      rw [hchange] at h
      cases h
    | ok env₁ =>
      rw [hchange] at h hc
      cases hc with
      | @done _ r₁ henv hgrows =>
        rw [attempt_bind_of_ok hs]
        exact ih (henv ▸ h)

/-! ## Steps -/

/-- What is done with an environment: it is changed, or somebody takes its options or a copy of its table. -/
inductive Step where
  | change (c : Change)
  | options
  | copy

def next (r : Registry) : Step → Registry
  | .change c => (r.attempt c.perform).2
  | .options => r
  | .copy => (r.attempt RegistryM.copy).2

def run (r : Registry) (steps : List Step) : Registry :=
  steps.foldl next r

theorem grows_next (r : Registry) (s : Step) : r.Grows (r.next s) := by
  cases s with
  | change c => exact (settled_perform c r).grows
  | options => exact .refl r
  | copy => exact .push r r.directiveTable

theorem grows_run (r : Registry) (steps : List Step) : r.Grows (r.run steps) := by
  induction steps generalizing r with
  | nil => exact .refl r
  | cons s steps ih => exact (grows_next r s).trans (ih (r.next s))

/-- Options as they are taken: the modules by value, the table by its cell. -/
structure SharedOptions where
  modules : List CompilerModule
  table : Nat
  reserved : String → Bool

def options (r : Registry) : SharedOptions :=
  { modules := r.moduleList, table := r.table, reserved := r.origin.reserved }

/-- The options with what is in their cell now. -/
def SharedOptions.read (o : SharedOptions) (r : Registry) : Option Options :=
  r.tables[o.table]?.map fun t => { modules := o.modules, directives := t, reserved := o.reserved }

/-- What holds of a registry whatever happened to it. -/
structure Transactional (r : Registry) : Prop where
  /-- A change fails if it fails on values, and otherwise leaves the environment that it gives on values. -/
  outcome : ∀ c : Change, (r.attempt c.perform).1.map (fun _ => (r.attempt c.perform).2.environment) =
    r.environment.change c
  /-- A change that fails leaves the environment as it was. -/
  unchanged : ∀ (c : Change) fault, (r.attempt c.perform).1 = .error fault →
    (r.attempt c.perform).2.environment = r.environment
  /-- Several entries at once give what they give one after another. -/
  oneByOne : ∀ entries r', r.attempt (RegistryM.update entries) = (.ok (), r') →
    ∃ r'', r.attempt (forM entries fun e => RegistryM.set e.1 e.2) = (.ok (), r'') ∧
      r''.environment = r'.environment
  /-- Options keep what they showed when they were taken. -/
  optionsKept : ∀ later, r.options.read (r.run later) = some r.environment.options
  /-- So does a copy of the table. -/
  copyKept : ∀ later, ∃ (cell : Nat) (r' : Registry), r.attempt RegistryM.copy = (.ok cell, r') ∧
    (r'.run later).tables[cell]? = some r.environment.directives
  /-- So does the list of modules. -/
  modulesKept : ∀ later, (r.run later).lists[r.modules]? = some r.environment.modules

theorem oneByOne_update {entries : List (String × Candidate)}
    (h : r.attempt (RegistryM.update entries) = (.ok (), r')) :
    ∃ r'', r.attempt (forM entries fun e => RegistryM.set e.1 e.2) = (.ok (), r'') ∧
      r''.environment = r'.environment := by
  have hupdate := settled_perform (.update entries) r
  rw [Environment.change_update, show r.attempt (Change.update entries).perform = _ from h] at hupdate
  generalize hsets : (entries.map fun e => Change.set e.1 e.2).foldlM Environment.change r.environment = outcome
    at hupdate
  cases hupdate with
  | done henv =>
    obtain ⟨r'', hattempt, henv'⟩ := attempt_changes hsets
    rw [List.forM_map] at hattempt
    exact ⟨r'', hattempt, henv'.trans henv.symm⟩

theorem transactional (r : Registry) : r.Transactional where
  outcome c := by
    have h := settled_perform c r
    generalize r.attempt c.perform = s at h ⊢
    generalize r.environment.change c = outcome at h ⊢
    cases h with
    | done henv => rw [← henv]; rfl
    | refused => rfl
  unchanged c fault hfault := by
    have h := settled_perform c r
    generalize r.attempt c.perform = s at h hfault ⊢
    generalize r.environment.change c = outcome at h
    cases h with
    | done => cases hfault
    | refused henv => exact henv
  oneByOne _ _ h := oneByOne_update h
  optionsKept later := by
    have h := (grows_run r later).tables r.getElem?_table
    rw [SharedOptions.read, show (r.run later).tables[r.options.table]? = _ from h]
    rfl
  copyKept later :=
    ⟨_, _, attempt_copy r, (grows_run _ later).tables (getElem?_push_size r r.directiveTable)⟩
  modulesKept later := (grows_run r later).lists r.getElem?_modules

/-- Changes of an environment are made as a whole or not at all, at any time, and whoever took something from it keeps what
was taken. -/
theorem changes_all_or_nothing (env : Environment) :
    (ofEnvironment env).environment = env ∧ ∀ steps, ((ofEnvironment env).run steps).Transactional :=
  ⟨environment_ofEnvironment env, fun steps => transactional ((ofEnvironment env).run steps)⟩

end Registry

end TemplateCompiler
