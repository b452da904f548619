import TemplateCompiler.Diagnostic.Basic
import TemplateCompiler.Json.Inspect
import TemplateCompiler.Table

/-!
# Elements

An element of a template with everything the parser knows about it. A field holds the value that
was written for it, whatever its kind: a text or a switch counts if its value is truthy, and code
shows a value as `Json.shown` does. The fields that directive plugins may change while an element
is generated are the `Bindings`; the others describe its place in the template.
-/

namespace TemplateCompiler

/-- An attribute or a property: `name="value"`, `:name="expr"` or `:[name]="expr"`. -/
structure Attr where
  name : Json
  value : Json
  dynamic : Bool := false
  span : Span := {}
  deriving DecidableEq, Repr

/-- Modifiers by name. Data may name one by another value than text. -/
abbrev Modifiers := Table Json Json

/-- Whether a modifier is present and switched on. -/
def Modifiers.on (m : Modifiers) (key : String) : Bool :=
  ((Table.get? (.string key) m).map Json.truthy).getD false

/-- Modifiers as an object, where names that are no texts are written as the text of a value. -/
def Modifiers.object (m : Modifiers) : Json :=
  .object (m.map fun e => (e.1.keyText, e.2))

/-- A listener for an event. No modifiers at all and modifiers that were all used up differ. -/
structure Handler where
  value : Json
  dynamic : Bool := false
  modifiers : Option Modifiers := none
  span : Span := {}
  deriving DecidableEq, Repr

abbrev Events := Table String (List Handler)

/-- A use of a directive: `v-name:arg.modifier="value"`. -/
structure Directive where
  name : String
  rawName : Json
  value : Json := .null
  arg : Json := .null
  dynamicArg : Bool := false
  modifiers : Option Modifiers := none
  span : Span := {}
  deriving DecidableEq, Repr

/-- A branch of a conditional chain: its test, and the element to show. The last branch may have no
test. -/
structure Condition where
  expression : Json
  block : Nat
  deriving DecidableEq, Repr

/-- The two-way binding of a component. -/
structure ModelBinding where
  value : Json
  callback : Json
  expression : Json
  deriving DecidableEq, Repr

/-- An object of bindings to merge into the data of an element. -/
structure ObjectBinding where
  helper : String
  tag : Json
  value : Json
  asProp : Bool
  sync : Bool
  deriving DecidableEq, Repr

/-- An object of listeners to merge into the data of an element. -/
structure ObjectListeners where
  helper : String
  value : Json
  deriving DecidableEq, Repr

/-- What directive plugins may change while the data of an element is written. -/
structure Bindings where
  attrsList : List Attr := []
  events : Events := []
  nativeEvents : Events := []
  props : List Attr := []
  attrs : Option (List Attr) := none
  dynamicAttrs : Option (List Attr) := none
  model : Option ModelBinding := none
  wrapData : Option ObjectBinding := none
  wrapListeners : Option ObjectListeners := none
  plain : Json := .bool false
  deriving DecidableEq, Repr

/-- An element: a plain tag, a component, a `<template>` or a `<slot>` outlet. -/
structure Element extends Bindings where
  tag : Json
  ns : Json := .null
  attrsMap : Table Json Json := []
  rawAttrsMap : Table Json Attr := []
  children : List Nat := []
  pre : Json := .bool false
  forSource : Json := .null
  forAlias : Json := .null
  iterator1 : Json := .null
  iterator2 : Json := .null
  ifExpr : Json := .null
  elseIf : Json := .null
  isElse : Json := .bool false
  conditions : List Condition := []
  once : Json := .bool false
  key : Json := .null
  ref : Json := .null
  refInFor : Json := .bool false
  slotTarget : Json := .null
  slotTargetDynamic : Json := .bool false
  slotScope : Json := .null
  scopedSlots : Table Json Nat := []
  slotName : Json := .null
  component : Json := .null
  staticClass : Json := .null
  classBinding : Json := .null
  staticStyle : Json := .null
  styleBinding : Json := .null
  directives : List Directive := []
  inlineTemplate : Json := .bool false
  processed : Json := .bool false
  hasBindings : Json := .bool false
  deriving DecidableEq, Repr

namespace Element

/-- Whether the element is repeated by a loop. -/
def loops (e : Element) : Bool :=
  e.forSource.truthy

/-- Whether the element stands under a test. -/
def tested (e : Element) : Bool :=
  e.ifExpr.truthy

def hasTag (e : Element) (name : String) : Bool :=
  e.tag.isText name

/-- The value of a raw attribute; null if there is none. -/
def rawValue (e : Element) (name : String) : Json :=
  (Table.get? (.string name) e.attrsMap).getD .null

/-- The raw attribute to point at in a message. -/
def rawLocation (e : Element) (name : String) : Option Location :=
  (Table.get? (.string name) e.rawAttrsMap).map fun a => .attr a.name a.span

/-- The blocks of the conditional chain after the first one, which is the element itself. -/
def branchBlocks (e : Element) : List Nat :=
  (e.conditions.drop 1).map Condition.block

/-- Everything that hangs below the element, in the order in which a walk takes it. -/
def below (e : Element) : List Nat :=
  e.children ++ e.branchBlocks ++ e.scopedSlots.map Prod.snd

end Element

end TemplateCompiler
