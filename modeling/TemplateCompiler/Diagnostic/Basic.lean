import TemplateCompiler.Diagnostic.Snippet
import TemplateCompiler.Json.Basic

/-!
# Diagnostics

Codes, spans and the messages of a compile. A problem of a template never stops the compile; it ends
as a diagnostic, which is a tip or an error. A `Refusal` is how bad input is reported instead.
-/

namespace TemplateCompiler

/-- Searchable codes of diagnostics and refusals. -/
inductive ProblemCode where
  | generic
  | onceWithoutKey
  | inlineTemplateChildren
  | listWithoutKey
  | onObjectModifiers
  | modelUnsupported
  | modelFileInput
  | passivePrevent
  | unknownNodeType
  | missingField
  | invalidPlugin
  deriving DecidableEq, Repr

namespace ProblemCode

def all : List ProblemCode :=
  [.generic, .onceWithoutKey, .inlineTemplateChildren, .listWithoutKey, .onObjectModifiers,
  .modelUnsupported, .modelFileInput, .passivePrevent, .unknownNodeType, .missingField,
  .invalidPlugin]

/-- The code as messages print it. -/
def text : ProblemCode → String
  | .generic => "R-GEN-000"
  | .onceWithoutKey => "R-GEN-001"
  | .inlineTemplateChildren => "R-GEN-002"
  | .listWithoutKey => "R-GEN-003"
  | .onObjectModifiers => "R-DIR-001"
  | .modelUnsupported => "R-DIR-002"
  | .modelFileInput => "R-DIR-003"
  | .passivePrevent => "R-DIR-004"
  | .unknownNodeType => "R-TRE-001"
  | .missingField => "R-TRE-002"
  | .invalidPlugin => "R-PLG-001"

/-- The long name of a code. -/
def name : ProblemCode → String
  | .generic => "GENERIC"
  | .onceWithoutKey => "ONCE_WITHOUT_KEY"
  | .inlineTemplateChildren => "INLINE_TEMPLATE_CHILDREN"
  | .listWithoutKey => "LIST_WITHOUT_KEY"
  | .onObjectModifiers => "ON_OBJECT_MODIFIERS"
  | .modelUnsupported => "MODEL_UNSUPPORTED"
  | .modelFileInput => "MODEL_FILE_INPUT"
  | .passivePrevent => "PASSIVE_PREVENT"
  | .unknownNodeType => "UNKNOWN_NODE_TYPE"
  | .missingField => "MISSING_FIELD"
  | .invalidPlugin => "INVALID_PLUGIN"

/-- What a code is about. -/
def category : ProblemCode → String
  | .generic | .onceWithoutKey | .inlineTemplateChildren | .listWithoutKey => "codegen"
  | .onObjectModifiers | .modelUnsupported | .modelFileInput | .passivePrevent => "directive"
  | .unknownNodeType | .missingField => "tree"
  | .invalidPlugin => "plugin"

def ofText? (t : String) : Option ProblemCode :=
  all.find? fun c => c.text == t

end ProblemCode

/-- A range of source offsets as the parser gave them; null is an unknown end. -/
structure Span where
  start : Json := .null
  stop : Json := .null
  deriving DecidableEq, Repr

/-- What a warning points at. -/
inductive Location where
  | element (index : Nat) (span : Span)
  | attr (name : Json) (span : Span)
  | directive (name : String) (span : Span)
  | span (span : Span)
  deriving DecidableEq, Repr

def Location.range : Location → Span
  | .element _ s => s
  | .attr _ s => s
  | .directive _ s => s
  | .span s => s

/-- A message raised while compiling. -/
structure Warning where
  message : String
  location : Option Location := none
  tip : Bool := false
  code : Option ProblemCode := none
  deriving DecidableEq, Repr

structure Diagnostic where
  message : String
  code : ProblemCode := .generic
  span : Span := {}
  tip : Bool := false
  deriving DecidableEq, Repr

def Warning.diagnostic (w : Warning) : Diagnostic :=
  { message := w.message
    code := w.code.getD .generic
    span := (w.location.map Location.range).getD {}
    tip := w.tip }

namespace Diagnostic

/-- The code and the message on one line. -/
def summary (d : Diagnostic) : String :=
  d.code.text ++ ": " ++ d.message

/-- The code as a heading: red for errors, yellow for tips. -/
def heading (color : Bool) (code : String) (tip : Bool) : String :=
  Style.paint color [if tip then .brightYellow else .brightRed, .bold] code

/-- The snippet at a span, unless an end is given that is no offset. -/
def snippet? (span : Span) (source : String) : Option Snippet := do
  let start ← span.start.offset?
  let stop ← if span.stop.isNull then pure none else some <$> span.stop.offset?
  return Snippet.around source start stop 2

/-- The message with the file's name, if it has one, and with the snippet, if there are a source
and a place in it. There is no text for a place that cannot be found. -/
def format (d : Diagnostic) (color : Bool) (source name : Option String) : Option String := do
  let head := heading color d.code.text d.tip ++ ": " ++ d.message
  let file := match name with
    | some n => if n = "" then [] else ["  --> " ++ Style.paint color [.cyan] n]
    | none => []
  let snippet ←
    if source.getD "" = "" || d.span.start.isNull then pure []
    else do pure [(← snippet? d.span (source.getD "")).format color]
  return String.intercalate "\n" ([head] ++ file ++ snippet)

end Diagnostic

/-- Bad input from outside a compile, as it is reported. -/
structure Refusal where
  text : String
  code : Option ProblemCode := none
  deriving DecidableEq, Repr

namespace Refusal

/-- A refusal that points at a place in tree data. -/
def atPath (message path : String) (code : Option ProblemCode := none) : Refusal :=
  { text := message ++ " at " ++ path, code := some (code.getD .missingField) }

/-- Whether `part` stands somewhere in `cs`. -/
def occurs (part : List Char) : List Char → Bool
  | [] => part.isEmpty
  | c :: cs => part.isPrefixOf (c :: cs) || occurs part cs

/-- The text with the code in front, unless the text has the code already. -/
def compact (r : Refusal) : String :=
  match r.code with
  | none => r.text
  | some code =>
    if occurs code.text.toList r.text.toList then r.text else code.text ++ ": " ++ r.text

end Refusal

end TemplateCompiler
