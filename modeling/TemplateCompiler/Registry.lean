import TemplateCompiler.Environment

/-!
# Registries

An environment in use. Its table of directives and its list of modules stand in cells, and others may hold the same
cells: the options of a generation share the table with the environment. So no change is made in place. A change of the
table is written to a new cell, step by step, and the environment turns to that cell when nothing is left that could
fail.
-/

namespace TemplateCompiler

/-- An environment, with all tables and lists that it ever made. The cells that it uses now are among them. -/
structure Registry where
  /-- The environment as it was made. -/
  origin : Environment
  tables : Array DirectiveTable
  lists : Array (List CompilerModule)
  table : Nat
  modules : Nat
  table_lt : table < tables.size
  modules_lt : modules < lists.size

/-- What is written before a failure stays written. -/
abbrev RegistryM := ExceptT TableFault (StateM Registry)

namespace Registry

def ofEnvironment (env : Environment) : Registry where
  origin := env
  tables := #[env.directives]
  lists := #[env.modules]
  table := 0
  modules := 0
  table_lt := Nat.zero_lt_one
  modules_lt := Nat.zero_lt_one

variable (r : Registry)

def directiveTable : DirectiveTable :=
  r.tables[(⟨r.table, r.table_lt⟩ : Fin r.tables.size)]

def moduleList : List CompilerModule :=
  r.lists[(⟨r.modules, r.modules_lt⟩ : Fin r.lists.size)]

/-- The environment as it is now. -/
def environment : Environment :=
  { r.origin with modules := r.moduleList, directives := r.directiveTable }

def attempt {α : Type} (x : RegistryM α) : Except TableFault α × Registry :=
  x.run.run r

/-! ## Cells -/

/-- A new cell for a table. -/
def push (t : DirectiveTable) : Registry :=
  { r with
    tables := r.tables.push t
    table_lt := Nat.lt_of_lt_of_eq (Nat.lt_succ_of_lt r.table_lt) (Array.size_push _).symm }

/-- Changes the table in a cell in place. -/
def edit (cell : Nat) (f : DirectiveTable → DirectiveTable) : Registry :=
  { r with
    tables := r.tables.modify cell f
    table_lt := Nat.lt_of_lt_of_eq r.table_lt Array.size_modify.symm }

/-- Turns to the table in a cell. -/
def turnTo (cell : Nat) : Registry :=
  if h : cell < r.tables.size then { r with table := cell, table_lt := h } else r

/-- Turns to a new list of modules. -/
def renewModules (ms : List CompilerModule) : Registry :=
  { r with
    lists := r.lists.push ms
    modules := r.lists.size
    modules_lt := Nat.lt_of_lt_of_eq (Nat.lt_succ_self _) (Array.size_push _).symm }

end Registry

namespace RegistryM

open Registry

/-- A copy of the table in use, in a cell of its own. -/
def copy : RegistryM Nat := do
  let r ← get
  set (r.push r.directiveTable)
  return r.tables.size

def write (cell : Nat) (f : DirectiveTable → DirectiveTable) : RegistryM Unit :=
  modify fun r => r.edit cell f

def accept {α : Type} (x : Except PluginFault α) : RegistryM α :=
  match x with
  | .ok a => pure a
  | .error fault => throw (.plugin fault)

/-- Changes a copy of the table in use and turns to it, if nothing fails on the way. -/
def revise (act : Nat → RegistryM Unit) : RegistryM Unit := do
  let cell ← copy
  act cell
  modify fun r => r.turnTo cell

/-! ## Changes -/

/-- Writes a plugin to the table in a cell. -/
def register (name : String) (c : Candidate) (cell : Nat) : RegistryM Unit := do
  let p ← accept c.adapt
  write cell (Table.put name p)

/-- Takes a name out of the table in a cell. -/
def remove (name : String) (cell : Nat) : RegistryM Unit := do
  if ((← get).tables[cell]?).any (Table.contains name) then write cell (Table.erase name)
  else throw .unknownName

/-- Writes plugins to the table in a cell, one after another. All of them are looked at before the first is
written. -/
def registerAll (entries : List (String × Candidate)) (cell : Nat) : RegistryM Unit := do
  let plugins ← entries.mapM fun e => do
    let p ← accept e.2.adapt
    return (e.1, p)
  forM plugins fun e => write cell (Table.put e.1 e.2)

def set (name : String) (c : Candidate) : RegistryM Unit :=
  revise (register name c)

def delete (name : String) : RegistryM Unit :=
  revise (remove name)

def update (entries : List (String × Candidate)) : RegistryM Unit :=
  revise (registerAll entries)

def addModule (m : ModuleCandidate) : RegistryM Unit := do
  let m ← accept m.adapt
  modify fun r => r.renewModules (r.moduleList ++ [m])

end RegistryM

end TemplateCompiler
