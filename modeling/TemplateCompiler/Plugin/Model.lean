import TemplateCompiler.ModelPath
import TemplateCompiler.Plugin.Basic
import TemplateCompiler.Tag
import TemplateCompiler.Tree.Binding

/-!
# Two-way bindings

`v-model` becomes a value and a listener that assigns to the target: a `model` entry for a
component, else a property and a listener that depend on the kind of control.
-/

namespace TemplateCompiler.Model

/-- The event that the runtime turns into the right one for range controls. -/
def rangeEvent : String := "__r"

/-- What the plugin needs: helper names and the tags that are no components. -/
structure Config where
  names : Names := Names.standard
  reserved : String → Bool

/-- A target with its modifiers. -/
structure Use where
  target : Json
  modifiers : Modifiers

/-- What is done to a control. It ends early if the target is no text, with the element as it is
then. -/
abbrev Control := ExceptT Failure (StateM Element)

def Use.ofDirective (d : Directive) : Use :=
  { target := if d.value.truthy then d.value else .string ""
    modifiers := d.modifiers.getD [] }

/-- The target as code shows it. -/
def Use.text (u : Use) : String :=
  u.target.shown

/-- The code that assigns a value to the target. -/
def Use.assign (u : Use) (names : Names) (value : String) : Control String :=
  match u.target with
  | .string target => pure (ModelPath.assignment names target value)
  | _ => throw .targetNotText

def Use.number (u : Use) (names : Names) (code : String) : String :=
  if u.modifiers.on "number" then names .toNumber ++ "(" ++ code ++ ")" else code

/-- A listener that goes in front of the others. -/
def listen (names : Names) (event code : String) : Control Unit :=
  modify fun e => e.addHandler
    { name := event, value := code, important := true, prependHelper := names .prependModifier }

def setProp (name value : String) : Control Unit :=
  modify fun e => e.addProp { name := name, value := value }

/-- The binding of an attribute, or a default if it has none or an empty one. -/
def bindingOr (name fallback : String) : Control String := do
  let (value, e) := (← get).takeBinding name true
  set e
  return value.filled?.getD fallback

def ofComponent (names : Names) (u : Use) : Control Unit := do
  let value :=
    if u.modifiers.on "trim" then "(typeof $$v === 'string'? $$v.trim(): $$v)" else "$$v"
  let assign ← u.assign names (u.number names value)
  modify fun e => { e with
    model := some
      { value := "(" ++ u.text ++ ")"
        expression := Json.quote u.text
        callback := "function ($$v) \x7b" ++ assign ++ "\x7d" } }

def ofCheckbox (names : Names) (u : Use) : Control Unit := do
  let value ← bindingOr "value" "null"
  let yes ← bindingOr "true-value" "true"
  let no ← bindingOr "false-value" "false"
  let v := u.text
  setProp "checked" ("Array.isArray(" ++ v ++ ")?" ++ names .looseIndexOf ++ "(" ++ v ++ "," ++
    value ++ ")>-1" ++
    (if yes = "true" then ":(" ++ v ++ ")"
      else ":" ++ names .looseEqual ++ "(" ++ v ++ "," ++ yes ++ ")"))
  let added ← u.assign names "$$a.concat([$$v])"
  let removed ← u.assign names "$$a.slice(0,$$i).concat($$a.slice($$i+1))"
  let single ← u.assign names "$$c"
  listen names "change"
    ("var $$a=" ++ v ++ ",$$el=$event.target,$$c=$$el.checked?(" ++ yes ++ "):(" ++ no ++ ");" ++
      "if(Array.isArray($$a))\x7bvar $$v=" ++ u.number names value ++ ",$$i=" ++
      names .looseIndexOf ++ "($$a,$$v);" ++
      "if($$el.checked)\x7b$$i<0&&(" ++ added ++ ")\x7d" ++
      "else\x7b$$i>-1&&(" ++ removed ++ ")\x7d" ++
      "\x7delse\x7b" ++ single ++ "\x7d")

def ofRadio (names : Names) (u : Use) : Control Unit := do
  let value := u.number names (← bindingOr "value" "null")
  setProp "checked" (names .looseEqual ++ "(" ++ u.text ++ "," ++ value ++ ")")
  listen names "change" (← u.assign names value)

def ofSelect (names : Names) (u : Use) : Control Unit := do
  let selected := "Array.prototype.filter.call($event.target.options," ++
    "function(o)\x7breturn o.selected\x7d)" ++
    ".map(function(o)\x7bvar val = \"_value\" in o ? o._value : o.value;return " ++
    u.number names "val" ++ "\x7d)"
  let assign ← u.assign names "$event.target.multiple ? $$selectedVal : $$selectedVal[0]"
  listen names "change" ("var $$selectedVal = " ++ selected ++ "; " ++ assign)

def ofText (names : Names) (u : Use) : Control Unit := do
  let m := u.modifiers
  let isRange := ((← get).rawValue "type").isText "range"
  let event := if m.on "lazy" then "change" else if isRange then rangeEvent else "input"
  let input := if m.on "trim" then "$event.target.value.trim()" else "$event.target.value"
  let assign ← u.assign names (u.number names input)
  let code :=
    if !m.on "lazy" && !isRange then "if($event.target.composing)return;" ++ assign else assign
  setProp "value" ("(" ++ u.text ++ ")")
  listen names event code
  if m.on "trim" || m.on "number" then
    modify fun e => e.addHandler
      { name := "blur"
        value := names .forceUpdate ++ "()"
        prependHelper := names .prependModifier }

/-- The warning for a value that is bound a second time. -/
def valueConflict? (e : Element) : Option Warning :=
  let long := (e.rawValue "v-bind:value").filled?
  let bound := long.or (e.rawValue ":value").filled?
  let typed := (e.rawValue "v-bind:type").truthy || (e.rawValue ":type").truthy
  match bound with
  | some value =>
    let name := if long.isSome then "v-bind:value" else ":value"
    if typed then none
    else some
      { message := name ++ "=\"" ++ value ++ "\" conflicts with v-model on the same element " ++
          "because the latter already expands to a value binding internally"
        location := e.rawLocation name
        code := some .modelUnsupported }
  | none => none

def fileWarning (e : Element) (value : String) : Warning :=
  { message := "<" ++ e.tag.shown ++ " v-model=\"" ++ value ++ "\" type=\"file\">:\n" ++
      "File inputs are read only. Use a v-on:change listener instead."
    location := e.rawLocation "v-model"
    code := some .modelFileInput }

def unsupportedWarning (e : Element) (value : String) : Warning :=
  { message := "<" ++ e.tag.shown ++ " v-model=\"" ++ value ++
      "\">: v-model is not supported on this element type. " ++
      "If you are working with contenteditable, it's recommended to wrap a " ++
      "library dedicated for that purpose inside a custom component."
    location := e.rawLocation "v-model"
    code := some .modelUnsupported }

/-- What kind of control an element is. -/
inductive Kind where
  | component
  | select
  | checkbox
  | radio
  | text
  | unsupported
  deriving DecidableEq, Repr

def kindOf (reserved : String → Bool) (e : Element) : Except Failure Kind := do
  let type := e.rawValue "type"
  if e.component.truthy then return .component
  if e.hasTag "select" then return .select
  if e.hasTag "input" && type.isText "checkbox" then return .checkbox
  if e.hasTag "input" && type.isText "radio" then return .radio
  if e.hasTag "input" || e.hasTag "textarea" then return .text
  return if ← Tag.check reserved e.tag then .unsupported else .component

def Kind.control (names : Names) (u : Use) : Kind → Control Unit
  | .component => ofComponent names u
  | .select => ofSelect names u
  | .checkbox => ofCheckbox names u
  | .radio => ofRadio names u
  | .text => ofText names u
  | .unsupported => pure ()

def Kind.warnings (e : Element) (u : Use) : Kind → List Warning
  | .text => (valueConflict? e).toList
  | .unsupported => [unsupportedWarning e u.text]
  | _ => []

/-- Expands a two-way binding. A component needs no directive at run time; a native control keeps
it. -/
def compile (c : Config) : DirectiveHook := fun _ e d =>
  let u := Use.ofDirective d
  let early :=
    if e.hasTag "input" && (e.rawValue "type").isText "file" then [fileWarning e u.text] else []
  match kindOf c.reserved e with
  | .error failure => { element := e, warnings := early, reply := .error failure }
  | .ok kind =>
    let (result, after) := (kind.control c.names u).run.run e
    { element := after
      warnings := early ++ kind.warnings e u
      reply := result.map fun _ => .bool (kind != .component) }

def plugin (c : Config) : DirectivePlugin :=
  { kind := .model, compile := compile c }

end TemplateCompiler.Model
