import TemplateCompiler.Json.Printer
import TemplateCompiler.Text.Blank
import TemplateCompiler.Tree.Element

/-!
# Adding bindings to an element

Whatever adds a binding also says that the element is no longer plain. A listener's name absorbs the
modifiers that change which event is meant or how the runtime listens; the rest stay with the
handler.
-/

namespace TemplateCompiler

/-- Puts a marker in front of an event name. A name that is known only at run time gets its marker
there. -/
def markName (symbol name : String) (dynamic : Bool) (helper : String) : String :=
  if dynamic then helper ++ "(" ++ name ++ ",\"" ++ symbol ++ "\")" else symbol ++ name

/-- A listener to add. -/
structure Listener where
  name : String
  value : String
  modifiers : Option Modifiers := none
  important : Bool := false
  dynamic : Bool := false
  prependHelper : String := "_p"
  location : Option Location := none

namespace Listener

/-- The modifiers, if there are any. -/
def given (l : Listener) : Option Modifiers :=
  l.modifiers.filter fun m => !m.isEmpty

/-- The warning for a passive listener that wants to prevent the default. -/
def conflict? (l : Listener) : Option Warning :=
  match l.given with
  | some m =>
    if m.on "prevent" && m.on "passive" then
      some
        { message := "passive and prevent modifiers cannot be used together. " ++
            "Passive handler cannot prevent default event."
          location := l.location
          code := some .passivePrevent }
    else none
  | none => none

/-- A click with a button other than the main one is another event. -/
def actualName (l : Listener) (m : Modifiers) : String × Modifiers :=
  let rename (event : String) : String :=
    "(" ++ l.name ++ ")==='click'?'" ++ event ++ "':(" ++ l.name ++ ")"
  if m.on "right" then
    if l.dynamic then (rename "contextmenu", m)
    else if l.name == "click" then ("contextmenu", Table.erase (.string "right") m)
    else (l.name, m)
  else if m.on "middle" then
    if l.dynamic then (rename "mouseup", m)
    else if l.name == "click" then ("mouseup", m)
    else (l.name, m)
  else (l.name, m)

/-- The modifiers that become markers of the name, in the order in which they are applied. -/
def nameMarkers : List (String × String) :=
  [("capture", "!"), ("once", "~"), ("passive", "&")]

/-- Moves one modifier from the modifiers to the name. -/
def absorb (l : Listener) (acc : String × Modifiers) (marker : String × String) :
    String × Modifiers :=
  let name := if acc.2.on marker.1 then markName marker.2 acc.1 l.dynamic l.prependHelper else acc.1
  (name, Table.erase (.string marker.1) acc.2)

/-- Where a listener goes: its full name, whether it listens to the native element, and the
modifiers that are left. -/
def resolve (l : Listener) : String × Bool × Option Modifiers :=
  match l.given with
  | none => (l.name, false, none)
  | some m =>
    let acc := nameMarkers.foldl l.absorb (l.actualName m)
    (acc.1, acc.2.on "native", some (Table.erase (.string "native") acc.2))

def handler (l : Listener) : Handler :=
  { value := .string (Text.trim l.value)
    dynamic := l.dynamic
    modifiers := l.resolve.2.2
    span := (l.location.map Location.range).getD {} }

end Listener

/-- Adds a handler under a name, in front of the others if it is important. -/
def Events.add (events : Events) (name : String) (h : Handler) (important : Bool) : Events :=
  let others := (Table.get? name events).getD []
  Table.put name (if important then h :: others else others ++ [h]) events

namespace Element

/-- Adds a property of the native element. -/
def addProp (e : Element) (a : Attr) : Element :=
  { e with props := e.props ++ [a], plain := .bool false }

/-- Adds an attribute; one whose name is known only at run time goes to a list of its own. -/
def addAttr (e : Element) (a : Attr) : Element :=
  if a.dynamic then
    { e with dynamicAttrs := some (e.dynamicAttrs.getD [] ++ [a]), plain := .bool false }
  else { e with attrs := some (e.attrs.getD [] ++ [a]), plain := .bool false }

/-- Adds an attribute as it was written. -/
def addRawAttr (e : Element) (a : Attr) : Element :=
  { e with
    attrsMap := Table.put a.name a.value e.attrsMap
    rawAttrsMap := Table.put a.name a e.rawAttrsMap
    attrsList := e.attrsList ++ [a] }

def addDirective (e : Element) (d : Directive) : Element :=
  { e with directives := e.directives ++ [d], plain := .bool false }

def addHandler (e : Element) (l : Listener) : Element :=
  let (name, native, _) := l.resolve
  if native then
    { e with
      nativeEvents := Events.add e.nativeEvents name l.handler l.important
      plain := .bool false }
  else { e with events := Events.add e.events name l.handler l.important, plain := .bool false }

/-- Takes a raw attribute out of the list, and out of the map as well if asked to. -/
def takeAttr (e : Element) (name : String) (fromMap : Bool) : Json × Element :=
  let value := e.rawValue name
  let e := if value.isNull then e
    else { e with attrsList := e.attrsList.eraseP (·.name.isText name) }
  (value, if fromMap then { e with attrsMap := Table.erase (.string name) e.attrsMap } else e)

/-- Takes the expression bound to an attribute, or else, if asked for, the attribute's own value as
a literal. An empty expression gives way to the long form of the binding. -/
def takeBinding (e : Element) (name : String) (withStatic : Bool) : Json × Element :=
  let (short, e) := e.takeAttr (":" ++ name) false
  let (bound, e) := if short.truthy then (short, e) else e.takeAttr ("v-bind:" ++ name) false
  if !bound.isNull then (bound, e)
  else if withStatic then
    let (value, e) := e.takeAttr name false
    (if value.isNull then .null else .string value.spaced, e)
  else (.null, e)

end Element

end TemplateCompiler
