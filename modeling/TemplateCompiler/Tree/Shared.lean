import TemplateCompiler.Tree.Binding

/-!
# Listeners with shared modifiers

Whoever adds a listener keeps the mapping of its modifiers and may give it to the next listener as
well, so mappings stand in cells. Adding a listener works on a copy in a new cell: what goes into
the name is taken out of the copy step by step, and the rest stays with the handler.
-/

namespace TemplateCompiler

/-- Mappings of modifiers, each in its cell. -/
abbrev Mappings := Array Modifiers

abbrev MappingM := StateM Mappings

/-- A listener to add, whose modifiers are in a cell. -/
structure SharedListener where
  name : String
  value : String
  modifiers : Option Nat := none
  important : Bool := false
  dynamic : Bool := false
  prependHelper : String := "_p"
  location : Option Location := none

/-- The listener with what its cell holds. -/
def SharedListener.listener (mappings : Mappings) (s : SharedListener) : Listener :=
  { name := s.name
    value := s.value
    modifiers := s.modifiers.bind (mappings[·]?)
    important := s.important
    dynamic := s.dynamic
    prependHelper := s.prependHelper
    location := s.location }

namespace MappingM

/-- The mapping in a cell. -/
def read (cell : Option Nat) : MappingM (Option Modifiers) := do
  let mappings ← get
  return cell.bind (mappings[·]?)

/-- A copy of a mapping in a cell of its own. An empty mapping is as good as none. -/
def copy (cell : Option Nat) : MappingM (Option Nat) := do
  match (← read cell).filter fun m => !m.isEmpty with
  | some m => modifyGet fun mappings => (some mappings.size, mappings.push m)
  | none => return none

def isOn (cell : Option Nat) (key : String) : MappingM Bool :=
  return Modifiers.on ((← read cell).getD []) key

/-- Removes a modifier in place. -/
def remove (cell : Option Nat) (key : String) : MappingM Unit :=
  match cell with
  | some k => modify fun mappings => mappings.modify k (Table.erase (.string key))
  | none => return ()

/-- Removes a modifier and says whether it was switched on. -/
def take (cell : Option Nat) (key : String) : MappingM Bool := do
  let on ← isOn cell key
  remove cell key
  return on

end MappingM

namespace SharedListener

open MappingM

variable (s : SharedListener)

/-- The event that fires, for the modifiers in a cell. -/
def rename (cell : Option Nat) : MappingM String := do
  let tested (event : String) : String :=
    "(" ++ s.name ++ ")==='click'?'" ++ event ++ "':(" ++ s.name ++ ")"
  if ← isOn cell "right" then
    if s.dynamic then return tested "contextmenu"
    else if s.name == "click" then
      remove cell "right"
      return "contextmenu"
    else return s.name
  else if ← isOn cell "middle" then
    if s.dynamic then return tested "mouseup"
    else if s.name == "click" then return "mouseup"
    else return s.name
  else return s.name

/-- Moves one modifier from a cell to the name. -/
def absorb (cell : Option Nat) (name : String) (marker : String × String) : MappingM String := do
  if ← take cell marker.1 then return markName marker.2 name s.dynamic s.prependHelper
  else return name

/-- Adds the listener to an element. -/
def add (e : Element) : MappingM Element := do
  let cell ← copy s.modifiers
  let event ← s.rename cell
  let name ← Listener.nameMarkers.foldlM (s.absorb cell) event
  let native ← take cell "native"
  let handler : Handler :=
    { value := .string (Text.trim s.value)
      dynamic := s.dynamic
      modifiers := ← read cell
      span := (s.location.map Location.range).getD {} }
  return if native then
    { e with
      nativeEvents := Events.add e.nativeEvents name handler s.important
      plain := .bool false }
  else { e with events := Events.add e.events name handler s.important, plain := .bool false }

/-- Adds listeners one after another. -/
def addAll (ss : List SharedListener) (e : Element) : MappingM Element :=
  ss.foldlM (fun e s => s.add e) e

end SharedListener

end TemplateCompiler
