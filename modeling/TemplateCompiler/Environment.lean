import TemplateCompiler.Analysis
import TemplateCompiler.Generator.Element
import TemplateCompiler.Plugin.Standard
import TemplateCompiler.Tree.Loader

/-!
# Environments

An environment is a configuration that many templates are compiled with. Registering a plugin or a
module either succeeds as a whole or changes nothing. `Environment.compile` analyses a tree and
generates its program; problems of the template end as errors and tips of the result.
-/

namespace TemplateCompiler

/-- The choices an environment is made from. Without modules the standard ones are used; directives
come on top of the standard ones. -/
structure Configuration where
  names : Names := Names.standard
  reserved : String → Bool := Tag.isReserved
  optimize : Bool := true
  staticKeys : List String := []
  sink : Bool := false
  modules : Option (List ModuleCandidate) := none
  directives : List (String × Candidate) := []

structure Environment where
  names : Names := Names.standard
  reserved : String → Bool := Tag.isReserved
  optimize : Bool := true
  staticKeys : List String := []
  sink : Bool := false
  modules : List CompilerModule := CompilerModule.standard
  directives : DirectiveTable := DirectivePlugin.standard Names.standard Tag.isReserved

/-- Why a change of the table of directives fails. -/
inductive TableFault where
  | plugin (fault : PluginFault)
  | unknownName
  deriving DecidableEq, Repr

namespace DirectiveTable

/-- Registers one plugin. -/
def set (t : DirectiveTable) (name : String) (c : Candidate) : Except TableFault DirectiveTable :=
  match c.adapt with
  | .ok p => .ok (Table.put name p t)
  | .error fault => .error (.plugin fault)

/-- Registers several plugins, or none if one of them is refused. -/
def update (t : DirectiveTable) (entries : List (String × Candidate)) :
    Except TableFault DirectiveTable :=
  match entries.mapM fun e => e.2.adapt.map fun p => (e.1, p) with
  | .ok plugins => .ok (Table.putAll plugins t)
  | .error fault => .error (.plugin fault)

def delete (t : DirectiveTable) (name : String) : Except TableFault DirectiveTable :=
  if Table.contains name t then .ok (Table.erase name t) else .error .unknownName

end DirectiveTable

/-- What a compile gives: the program, the diagnostics, and the tree with its flags. -/
structure Compiled where
  program : Program
  errors : List Diagnostic
  tips : List Diagnostic

/-- Every diagnostic, errors first. There is no text if the place of one cannot be found. -/
def Compiled.format (c : Compiled) (color : Bool) (source name : Option String) :
    Option String := do
  let texts ← (c.errors ++ c.tips).mapM fun d => d.format color source name
  return String.intercalate "\n\n" texts

/-- A compile with everything it leaves behind, whether it succeeded or not. -/
structure Compilation where
  result : Except Failure Compiled
  tree : Tree
  warnings : List Warning
  log : List LogRecord

namespace Environment

def ofConfiguration (c : Configuration) : Except PluginFault Environment := do
  let modules ← match c.modules with
    | some candidates => candidates.mapM ModuleCandidate.adapt
    | none => pure CompilerModule.standard
  let extra ← c.directives.mapM fun e => e.2.adapt.map fun p => (e.1, p)
  return {
    names := c.names
    reserved := c.reserved
    optimize := c.optimize
    staticKeys := c.staticKeys
    sink := c.sink
    modules := modules
    directives := Table.putAll extra (DirectivePlugin.standard c.names c.reserved) }

def addModule (env : Environment) (m : ModuleCandidate) : Except PluginFault Environment :=
  m.adapt.map fun m => { env with modules := env.modules ++ [m] }

/-- The configured static keys and those of the modules, in order and without repetitions. -/
def allStaticKeys (env : Environment) : List String :=
  ((env.staticKeys ++ env.modules.flatMap CompilerModule.staticKeys).eraseDups).mergeSort
    fun a b => decide (a ≤ b)

def options (env : Environment) : Options :=
  { modules := env.modules, directives := env.directives, reserved := env.reserved }

def analysis (env : Environment) : Analysis :=
  { reserved := env.reserved, staticKeys := env.allStaticKeys }

/-- What is logged for a warning: without a sink, every error. -/
def warningLog (env : Environment) (w : Warning) : List LogRecord :=
  if env.sink || w.tip then [] else [.reported w.diagnostic]

/-- Analyses a tree, if the environment asks for it, and generates its program. -/
def compile (env : Environment) (t : Tree) : Compilation :=
  let start : List LogRecord := [.compiling t.size]
  match if env.optimize then t.analyse env.analysis else .ok (t, []) with
  | .error failure => { result := .error failure, tree := t, warnings := [], log := start }
  | .ok (t, analysed) =>
    let g := t.generate (p := .numbered) env.options none
    let log := start ++ analysed ++ g.warnings.flatMap env.warningLog
    match g.code with
    | .error failure =>
      { result := .error failure, tree := g.tree, warnings := g.warnings, log := log }
    | .ok main =>
      let program := g.lifted.program env.names main
      let errors := (g.warnings.filter fun w => !w.tip).map Warning.diagnostic
      let tips := (g.warnings.filter Warning.tip).map Warning.diagnostic
      { result := .ok { program := program, errors := errors, tips := tips }
        tree := g.tree
        warnings := g.warnings
        log := log ++ [.generated program.functions.length errors.length tips.length] }

end Environment

end TemplateCompiler
