import TemplateCompiler.Generator.Slots

/-!
# Data objects

The data of an element is an object with its entries in a fixed order. Directive plugins run first,
since they may add entries; afterwards the bindings of the element are as before.
-/

namespace TemplateCompiler

/-- A piece of a data object: an entry, or the fragments that a module wrote, which bring their own
commas. -/
inductive DataPart where
  | entry (code : Code)
  | fragments (text : String)

namespace DataPart

def isBlank : DataPart → Bool
  | .fragments "" => true
  | _ => false

def followed : DataPart → Code
  | .entry code => code ++ Code.text ","
  | .fragments text => Code.text text

/-- A text without the comma at its end. -/
def dropComma (text : String) : String :=
  match text.toList.reverse with
  | ',' :: rest => String.ofList rest.reverse
  | _ => text

def last : DataPart → Code
  | .entry code => code
  | .fragments text => Code.text (dropComma text)

/-- The parts one after another, without a comma after the last one that shows. -/
def join : List DataPart → Code
  | [] => Code.empty
  | p :: rest => if rest.all isBlank then p.last else p.followed ++ join rest

end DataPart

/-- Merges an object of bindings into data. -/
def ObjectBinding.wrap (b : ObjectBinding) (data : Code) : Code :=
  Code.text (b.helper ++ "(") ++ data ++
    Code.text (",'" ++ b.tag.shown ++ "'," ++ b.value.shown ++ "," ++
      (if b.asProp then "true" else "false") ++ (if b.sync then ",true" else "") ++ ")")

/-- Merges an object of listeners into data. -/
def ObjectListeners.wrap (l : ObjectListeners) (data : Code) : Code :=
  Code.text (l.helper ++ "(") ++ data ++ Code.text ("," ++ l.value.shown ++ ")")

namespace Generator

variable [p : Placement]

/-! ## Directives -/

/-- A directive as the runtime reads it. -/
def directiveEntry (d : Directive) : String :=
  "\x7bname:\"" ++ d.name ++ "\",rawName:\"" ++ d.rawName.shown ++ "\"" ++
    (d.value.filled?.map fun v => ",value:(" ++ v ++ "),expression:" ++ d.value.compact).getD "" ++
    (d.arg.filled?.map fun a =>
      ",arg:" ++ if d.dynamicArg then a else "\"" ++ a ++ "\"").getD "" ++
    (d.modifiers.map fun m => ",modifiers:" ++ m.object.compact).getD "" ++
    "\x7d"

/-- Runs the plugin of a directive and says whether the runtime needs the directive. A directive
without a plugin is for the runtime alone. -/
def runDirective (o : Options) (i : Nat) (d : Directive) : GenM Bool := do
  match Table.get? d.name o.directives with
  | none => return true
  | some plugin =>
    let run := plugin.compile (← siteOf i) (← elementAt i) d
    modify fun s => { s with
      tree := s.tree.modifyElement i fun _ => run.element
      warnings := s.warnings ++ run.warnings }
    return (← liftFailure run.reply).truthy

/-- The entry for the directives that the runtime needs. -/
def directivesEntry (kept : List Directive) : List DataPart :=
  if kept.isEmpty then []
  else
    let entries := String.intercalate "," (kept.map directiveEntry)
    [.entry (Code.text ("directives:[" ++ entries ++ "]"))]

/-- Runs the plugins of an element's directives. -/
def emitDirectives (o : Options) (i : Nat) (directives : List Directive) :
    GenM (List DataPart) := do
  return directivesEntry (← directives.filterM (runDirective o i))

/-! ## Inline templates -/

def inlineWarning (span : Span) : Warning :=
  { message := "Inline-template components must have exactly one child element."
    location := some (.span { start := span.start })
    code := some .inlineTemplateChildren }

/-- The code of a template on its own, from its root. A script renders nothing. -/
def emitTemplate (self : Emit) (i : Nat) (e : Element) : GenM Code :=
  if e.hasTag "script" then return Code.text "null" else self (.element i {})

/-- The first child, if it is an element. -/
def firstElement? (t : Tree) (e : Element) : Option (Nat × Element) :=
  e.children.head?.bind fun c => (t.element? c).map fun child => (c, child)

/-- Complains about an inline template that is not a single element. -/
def adviseInline (t : Tree) (i : Nat) (e : Element) : GenM Unit :=
  if e.children.length ≠ 1 ∨ (firstElement? t e).isNone then warn (inlineWarning (t.span i))
  else return ()

/-- The template between the tags of a component, compiled on its own. -/
def emitInline (self : Emit) (i : Nat) (e : Element) : GenM (List DataPart) := do
  let t := (← get).tree
  adviseInline t i e
  match firstElement? t e with
  | none => return []
  | some (c, child) =>
    return [.entry (Placement.inline (← Placement.template (emitTemplate self c child)))]

/-! ## Data -/

def textEntry (key : String) (value : Json) : List DataPart :=
  match value.filled? with
  | some v => [.entry (Code.text (key ++ v))]
  | none => []

def switchEntry (code : String) (on : Bool) : List DataPart :=
  if on then [.entry (Code.text code)] else []

def propsEntry (key : String) (props : List Attr) : GenM (List DataPart) := do
  if props.isEmpty then return []
  return [.entry (Code.text key ++ (← liftFailure (propsEntries props)).code)]

def eventsEntry (events : Events) (native : Bool) : GenM (List DataPart) := do
  if events.isEmpty then return []
  return [.entry (← liftFailure (eventsCode events native))]

def modelEntry (m : ModelBinding) : DataPart :=
  .entry (Code.text ("model:\x7bvalue:" ++ m.value.shown ++ ",callback:" ++ m.callback.shown ++
    ",expression:" ++ m.expression.shown ++ "\x7d"))

def slotsEntry (self : Emit) (i : Nat) (e : Element) : GenM (List DataPart) := do
  if e.scopedSlots.isEmpty then return []
  return [.entry (← emitScopedSlots self i e)]

def inlineEntry (self : Emit) (i : Nat) (e : Element) : GenM (List DataPart) := do
  if e.inlineTemplate.truthy then emitInline self i e else return []

/-- The entries that stand for the element itself, and the fragments of the modules. -/
def ownEntries (o : Options) (e : Element) (verbatim : Bool) : List DataPart :=
  textEntry "key:" e.key ++ textEntry "ref:" e.ref ++
    switchEntry "refInFor:true" e.refInFor.truthy ++ switchEntry "pre:true" verbatim ++
    switchEntry ("tag:\"" ++ e.tag.shown ++ "\"") e.component.truthy ++
    o.modules.map fun m => DataPart.fragments (m.data e)

/-- The slot that an element is passed to, unless it is a slot definition. -/
def targetEntry (e : Element) : List DataPart :=
  if e.slotScope.truthy then [] else textEntry "slot:" e.slotTarget

/-- The parts of the data object of an element whose plugins have run. -/
def emitParts (o : Options) (self : Emit) (i : Nat) (e : Element) : GenM (List DataPart) := do
  let own := ownEntries o e (← isVerbatim i)
  let attrs ← propsEntry "attrs:" (e.attrs.getD [])
  let props ← propsEntry "domProps:" e.props
  let events ← eventsEntry e.events false
  let nativeEvents ← eventsEntry e.nativeEvents true
  let scopedSlots ← slotsEntry self i e
  let model := (e.model.map modelEntry).toList
  let inline ← inlineEntry self i e
  return own ++ attrs ++ props ++ events ++ nativeEvents ++ targetEntry e ++ scopedSlots ++
    model ++ inline

/-- Merges the attributes whose names are known only at run time into data. -/
def bindDynamicAttrs (e : Element) (data : Code) : Except Failure Code :=
  let dynamicAttrs := e.dynamicAttrs.getD []
  if dynamicAttrs.isEmpty then .ok data
  else do
    let entries ← propsEntries dynamicAttrs
    return Code.callHelper .bindObjectProps
      (data ++ Code.text (",\"" ++ e.tag.shown ++ "\",") ++ entries.code)

/-- Merges the objects of an element into its data. -/
def mergeObjects (e : Element) (data : Code) : Code :=
  let data := (e.wrapData.map fun b => b.wrap data).getD data
  (e.wrapListeners.map fun l => l.wrap data).getD data

/-- Writes the data object while plugins change the bindings. -/
def emitDataObject (o : Options) (self : Emit) (i : Nat) (directives : List Directive) :
    GenM Code := do
  let kept ← emitDirectives o i directives
  let e ← elementAt i
  let parts ← emitParts o self i e
  let data : Code := Code.text "\x7b" ++ DataPart.join (kept ++ parts) ++ Code.text "\x7d"
  return mergeObjects e (← liftFailure (bindDynamicAttrs e data))

/-- The data object of an element. -/
def emitData (o : Options) (self : Emit) (i : Nat) : GenM Code := do
  let e ← elementAt i
  if e.directives.isEmpty then emitDataObject o self i []
  else restoringBindings i e.toBindings (emitDataObject o self i e.directives)

end Generator

end TemplateCompiler
