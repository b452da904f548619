import TemplateCompiler.Code.Basic
import TemplateCompiler.Failure
import TemplateCompiler.Json.Inspect
import TemplateCompiler.Table
import TemplateCompiler.Tree.Element

/-!
# Plugins

A directive plugin runs while the data of an element is written. It may change the element and
raise warnings, and it replies whether the runtime has to know the directive as well. A module adds
fragments to the data of every element and may wrap its finished code.

What is offered for registration need not be a plugin: `Candidate.adapt` and `ModuleCandidate.adapt`
accept it or say what is wrong with it.
-/

namespace TemplateCompiler

/-- Where an element stands. -/
structure Site where
  index : Nat
  span : Span := {}
  deriving DecidableEq, Repr

def Site.location (s : Site) : Location :=
  .element s.index s.span

/-- What a directive plugin did: the element it leaves, the warnings it raised, and its reply,
unless it gave up. -/
structure PluginRun where
  element : Element
  warnings : List Warning := []
  reply : Except Failure Json

abbrev DirectiveHook := Site → Element → Directive → PluginRun

/-- Which plugin it is. -/
inductive PluginKind where
  | on
  | bind
  | cloak
  | text
  | html
  | model
  | function (name : String)
  | custom (label : String)
  deriving DecidableEq, Repr

structure DirectivePlugin where
  kind : PluginKind
  compile : DirectiveHook

abbrev DirectiveTable := Table String DirectivePlugin

/-- Why something cannot be registered. -/
inductive PluginFault where
  | notCallable (kind : String)
  | missingHook (shown hook : String)
  deriving DecidableEq, Repr

namespace PluginFault

def message : PluginFault → String
  | .notCallable kind => "directive plugin must be callable, got " ++ kind
  | .missingHook shown hook => "module " ++ shown ++ " does not implement " ++ hook ++ "()"

def refusal (f : PluginFault) : Refusal :=
  { text := f.message, code := some .invalidPlugin }

end PluginFault

/-- Something offered as a directive plugin: a plugin, a plain function with its name, or any other
value. -/
inductive Candidate where
  | plugin (p : DirectivePlugin)
  | function (name : String) (hook : DirectiveHook)
  | value (v : Json)

/-- A plain function becomes a plugin that replies yes or no. -/
def DirectivePlugin.ofFunction (name : String) (hook : DirectiveHook) : DirectivePlugin :=
  { kind := .function name
    compile := fun site e d =>
      let run := hook site e d
      { run with reply := run.reply.map fun v => .bool v.truthy } }

def Candidate.adapt : Candidate → Except PluginFault DirectivePlugin
  | .plugin p => .ok p
  | .function name hook => .ok (.ofFunction name hook)
  | .value v => .error (.notCallable v.kindName)

/-- What a module does with the text of an element's code: nothing, or it writes another one. -/
inductive Transform where
  | keep
  | rewrite (f : Element → String → String)

/-- A module: fields that it keeps from making an element change, the fragments that it adds to the
data of an element, and what it makes of the text of the element's code. -/
structure CompilerModule where
  staticKeys : List String := []
  data : Element → String := fun _ => ""
  output : Transform := .keep

/-- Something offered as a module: how a message shows it, and the hooks that it has. -/
structure ModuleCandidate where
  shown : String
  staticKeys : List String := []
  data : Option (Element → String) := none
  output : Option Transform := none

def ModuleCandidate.adapt (m : ModuleCandidate) : Except PluginFault CompilerModule :=
  match m.data, m.output with
  | none, _ => .error (.missingHook m.shown "generate_module_data")
  | some _, none => .error (.missingHook m.shown "transform_output")
  | some data, some output => .ok { staticKeys := m.staticKeys, data, output }

namespace CompilerModule

/-- The code of an element as a module leaves it. -/
def transform (m : CompilerModule) (e : Element) (c : Code) : Code :=
  match m.output with
  | .keep => c
  | .rewrite f => .rewritten (f e) c

/-- The module of `class="a b"` and `:class="expr"`. -/
def classes : CompilerModule :=
  { staticKeys := ["static_class"]
    data := fun e =>
      (e.staticClass.filled?.map fun c => "staticClass:" ++ c ++ ",").getD "" ++
        (e.classBinding.filled?.map fun c => "class:" ++ c ++ ",").getD "" }

/-- The module of `style="..."`, already an object, and `:style="expr"`. -/
def styles : CompilerModule :=
  { staticKeys := ["static_style"]
    data := fun e =>
      (e.staticStyle.filled?.map fun s => "staticStyle:" ++ s ++ ",").getD "" ++
        (e.styleBinding.filled?.map fun s => "style:(" ++ s ++ "),").getD "" }

def standard : List CompilerModule :=
  [classes, styles]

end CompilerModule

end TemplateCompiler
