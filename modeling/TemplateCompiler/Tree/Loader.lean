import TemplateCompiler.Log
import TemplateCompiler.Tree.Builder

/-!
# Loading trees

A parsed template is a JSON object per node: type 1 is an element, type 2 an interpolation, type 3
text or a comment. `Tree.load` builds the arena in the order in which it meets the nodes, and stops
at the first fault with its cause and its path.
-/

namespace TemplateCompiler

inductive PathStep where
  | child (i : Nat)
  | slot (name : String)
  | condition (i : Nat)
  | directives
  | model
  deriving DecidableEq, Repr

/-- A place in tree data, from the root on. -/
abbrev Path := List PathStep

def PathStep.text : PathStep → String
  | .child i => ".children[" ++ toString i ++ "]"
  | .slot name => ".scopedSlots[" ++ Json.inspectString name ++ "]"
  | .condition i => ".ifConditions[" ++ toString i ++ "]"
  | .directives => ".directives"
  | .model => ".model"

def Path.text (p : Path) : String :=
  "$" ++ String.join (p.map PathStep.text)

/-- Why tree data is no tree. -/
inductive TreeFault where
  | notMapping (kind : String)
  | unknownType (type : Json)
  | missingKey (key : String)
  | rootNotElement
  | slotNotElement
  | blockNotElement

namespace TreeFault

def message : TreeFault → String
  | .notMapping kind => "expected a mapping, got " ++ kind
  | .unknownType type => "unknown node type " ++ type.inspect
  | .missingKey key => "missing required key " ++ Json.inspectString key
  | .rootNotElement => "root node must be an element"
  | .slotNotElement => "scoped slot must be an element"
  | .blockNotElement => "condition block must be an element"

def code : TreeFault → ProblemCode
  | .unknownType _ => .unknownNodeType
  | _ => .missingField

end TreeFault

/-- How loading can fail: a fault at a place, a fault whose message cannot be written, an attribute
without a name, a value of a kind that has no parts or cannot be a key, a value that is no object
where one is needed, an entry of a table that is no pair, or data that nests deeper than it can. -/
inductive LoadError where
  | fault (cause : TreeFault) (path : Path)
  | unwritable
  | namelessAttr
  | wrongKind
  | notObject
  | badPair
  | tooDeep

/-- A fault as it is reported. -/
def TreeFault.refusal (f : TreeFault) (path : Path) : Refusal :=
  .atPath f.message path.text (some f.code)

structure Loading where
  tree : Tree := {}
  log : List LogRecord := []

abbrev LoadM := ExceptT LoadError (StateM Loading)

namespace Json

/-- The parts that a loop over a value visits. -/
def parts? : Json → Option (List Json)
  | .array items => some items
  | .object members => some (members.map fun m => .string m.1)
  | .string s => some (s.toList.map fun c => .string (String.singleton c))
  | _ => none

/-- Lists and objects cannot be keys. -/
def isCompound : Json → Bool
  | .array _ | .object _ => true
  | _ => false

/-- A member that is there and not null. -/
def given? (v : Json) (key : String) : Option Json :=
  (v.get? key).filter fun m => !m.isNull

mutual

/-- How deep a value nests. -/
def depth : Json → Nat
  | .array items => depthItems items + 1
  | .object members => depthMembers members + 1
  | _ => 1

def depthItems : List Json → Nat
  | [] => 0
  | x :: xs => max (depth x) (depthItems xs)

def depthMembers : List (String × Json) → Nat
  | [] => 0
  | (_, v) :: ms => max (depth v) (depthMembers ms)

end

end Json

namespace Loader

def scalarKeys : List String :=
  ["ns", "pre", "for", "alias", "iterator1", "iterator2", "if", "elseif", "else", "once", "key",
  "ref", "refInFor", "slotTarget", "slotTargetDynamic", "slotScope", "slotName", "component",
  "staticClass", "classBinding", "staticStyle", "styleBinding", "inlineTemplate", "plain",
  "processed", "hasBindings", "start", "end"]

def structuralKeys : List String :=
  ["type", "tag", "attrsList", "attrsMap", "rawAttrsMap", "children", "parent", "ifConditions",
  "scopedSlots", "events", "nativeEvents", "props", "attrs", "dynamicAttrs", "directives", "model",
  "static", "staticRoot", "staticInFor"]

/-- The keys of a node that mean nothing here, in order. -/
def unknownKeys (v : Json) : List String :=
  match v with
  | .object members =>
    ((members.map Prod.fst).filter fun k => !scalarKeys.contains k && !structuralKeys.contains k
      ).mergeSort fun a b => decide (a ≤ b)
  | _ => []

/-- A member, or null. -/
def valueAt (v : Json) (key : String) : Json :=
  (v.get? key).getD .null

def spanOf (v : Json) : Span :=
  { start := valueAt v "start", stop := valueAt v "end" }

/-- A switch that is off unless it is written. -/
def switchAt (v : Json) (key : String) : Json :=
  (v.get? key).getD (.bool false)

def record (r : LogRecord) : LoadM Unit :=
  modify fun s => { s with log := s.log ++ [r] }

def require (v : Json) (key : String) (path : Path) : LoadM Json :=
  match v with
  | .object members =>
    match members.lookup key with
    | some m => pure m
    | none => throw (.fault (.missingKey key) path)
  | _ => throw .wrongKind

def partsOf (v : Json) : LoadM (List Json) :=
  match v.parts? with
  | some parts => pure parts
  | none => throw .wrongKind

/-- The members of a value that has to be an object. -/
def membersOf (v : Json) : LoadM (List (String × Json)) :=
  match v with
  | .object members => pure members
  | _ => throw .notObject

/-- The members under a key; a value that does not count as given has none. -/
def membersAt (v : Json) (key : String) : LoadM (List (String × Json)) :=
  if (valueAt v key).truthy then membersOf (valueAt v key) else pure []

/-- An entry of a table: two parts, the first of which can be a key. -/
def pairOf (v : Json) : LoadM (Json × Json) := do
  match ← partsOf v with
  | [k, x] => if k.isCompound then throw .wrongKind else return (k, x)
  | _ => throw .badPair

/-- Writes an entry to a table. The first way in which a key is written stays. -/
def putEntry (t : Table Json Json) (e : Json × Json) : Table Json Json :=
  Table.put (((Table.keys t).find? e.1.sameKey).getD e.1) e.2 t

/-- A table, given as an object or as a list of pairs. -/
def tableOf (v : Json) : LoadM (Table Json Json) :=
  match v with
  | .object members => pure (members.map fun m => (.string m.1, m.2))
  | _ => do return (← (← partsOf v).mapM pairOf).foldl putEntry []

def attr (v : Json) : LoadM Attr :=
  match v with
  | .object _ =>
    match v.get? "name" with
    | none => throw .namelessAttr
    | some name =>
      pure
        { name := name
          value := (v.get? "value").getD (.string "")
          dynamic := (valueAt v "dynamic").truthy
          span := spanOf v }
  | _ => throw .wrongKind

def modifiers (v : Json) : LoadM (Option Modifiers) :=
  match v.given? "modifiers" with
  | some m => do return some (← tableOf m)
  | none => pure none

def handler (v : Json) : LoadM Handler := do
  let _ ← membersOf v
  return {
    value := (v.get? "value").getD (.string "")
    dynamic := (valueAt v "dynamic").truthy
    modifiers := ← modifiers v
    span := spanOf v }

/-- The handlers of one event; a single one need not stand in a list. -/
def handlers (v : Json) : LoadM (List Handler) :=
  match v with
  | .object _ => do return [← handler v]
  | _ => do (← partsOf v).mapM handler

def events (v : Json) (key : String) : LoadM Events :=
  match v.given? key with
  | some table => do (← membersOf table).mapM fun m => return (m.1, ← handlers m.2)
  | none => pure []

def directive (v : Json) (path : Path) : LoadM Directive := do
  let _ ← membersOf v
  match ← require v "name" path with
  | .string name =>
    return {
      name := name
      rawName := (v.get? "rawName").getD (.string ("v-" ++ name))
      value := valueAt v "value"
      arg := valueAt v "arg"
      dynamicArg := (valueAt v "isDynamicArg").truthy
      modifiers := ← modifiers v
      span := spanOf v }
  | _ => throw .wrongKind

def model (v : Json) (path : Path) : LoadM ModelBinding := do
  let value ← require v "value" path
  let callback ← require v "callback" path
  let expression ← require v "expression" path
  return ⟨value, callback, expression⟩

/-- Attributes under a key, if the key holds anything. -/
def attrsAt (v : Json) (key : String) : LoadM (Option (List Attr)) :=
  match v.given? key with
  | some list => do return some (← (← partsOf list).mapM attr)
  | none => pure none

/-- The raw attributes by name: the table that is written, or one made from the list. -/
def attrTable (v : Json) (attrsList : List Attr) : LoadM (Table Json Json) :=
  if (valueAt v "attrsMap").truthy then tableOf (valueAt v "attrsMap")
  else if attrsList.any (·.name.isCompound) then throw .wrongKind
  else pure ((attrsList.map fun a => (a.name, a.value)).foldl putEntry [])

/-- The parts under a key that may be left out. -/
def partsAt (v : Json) (key : String) : LoadM (List Json) :=
  match v.get? key with
  | some list => partsOf list
  | none => pure []

/-- Records the keys that mean nothing. -/
def noteIgnored (v : Json) (path : Path) : LoadM Unit :=
  unless (unknownKeys v).isEmpty do record (.ignoredKeys (unknownKeys v) path.text)

/-- The element without its bindings and without what is below it. -/
def shell (v : Json) (path : Path) : LoadM Element := do
  let tag ← require v "tag" path
  let attrsList ← (← partsAt v "attrsList").mapM attr
  noteIgnored v path
  let attrsMap ← attrTable v attrsList
  let rawAttrs ← (← membersAt v "rawAttrsMap").mapM fun m => return (.string m.1, ← attr m.2)
  let plain := !(valueAt v "key").truthy && !(valueAt v "scopedSlots").truthy && attrsList.isEmpty
  return {
    tag := tag
    attrsList := attrsList
    attrsMap := attrsMap
    rawAttrsMap := rawAttrs
    ns := valueAt v "ns"
    pre := switchAt v "pre"
    forSource := valueAt v "for"
    forAlias := valueAt v "alias"
    iterator1 := valueAt v "iterator1"
    iterator2 := valueAt v "iterator2"
    ifExpr := valueAt v "if"
    elseIf := valueAt v "elseif"
    isElse := switchAt v "else"
    once := switchAt v "once"
    key := valueAt v "key"
    ref := valueAt v "ref"
    refInFor := switchAt v "refInFor"
    slotTarget := valueAt v "slotTarget"
    slotTargetDynamic := switchAt v "slotTargetDynamic"
    slotScope := valueAt v "slotScope"
    slotName := valueAt v "slotName"
    component := valueAt v "component"
    staticClass := valueAt v "staticClass"
    classBinding := valueAt v "classBinding"
    staticStyle := valueAt v "staticStyle"
    styleBinding := valueAt v "styleBinding"
    inlineTemplate := switchAt v "inlineTemplate"
    plain := (v.get? "plain").getD (.bool plain)
    processed := switchAt v "processed"
    hasBindings := switchAt v "hasBindings" }

def directivesAt (v : Json) (path : Path) : LoadM (List Directive) :=
  match v.given? "directives" with
  | some list => do (← partsOf list).mapM fun d => directive d (path ++ [.directives])
  | none => pure []

def modelAt (v : Json) (path : Path) : LoadM (Option ModelBinding) :=
  match v.given? "model" with
  | some m => do return some (← model m (path ++ [.model]))
  | none => pure none

/-- Adds the bindings of an element. -/
def bindings (v : Json) (path : Path) (e : Element) : LoadM Element := do
  let props ← attrsAt v "props"
  let attrs ← attrsAt v "attrs"
  let dynamicAttrs ← attrsAt v "dynamicAttrs"
  let listeners ← events v "events"
  let nativeListeners ← events v "nativeEvents"
  let directives ← directivesAt v path
  let model ← modelAt v path
  return { e with
    props := props.getD []
    attrs := attrs
    dynamicAttrs := dynamicAttrs
    events := listeners
    nativeEvents := nativeListeners
    directives := directives
    model := model }

def flagsOf (v : Json) : Flags :=
  { constant := valueAt v "static"
    root := valueAt v "staticRoot"
    inLoop := valueAt v "staticInFor" }

def adopt (n : Node) (parent : Option Nat) : LoadM Nat := do
  let s ← get
  let (t, i) := s.tree.adopt n parent
  set { s with tree := t }
  return i

def edit (i : Nat) (f : Element → Element) : LoadM Unit :=
  modify fun s => { s with tree := s.tree.modifyElement i f }

/-- Fails unless node `i` is an element. -/
def needElement (i : Nat) (cause : TreeFault) (path : Path) : LoadM Unit := do
  unless ((← get).tree.element? i).isSome do throw (.fault cause path)

section Below

variable (loadNode : Json → Option Nat → Path → LoadM Nat)

/-- The block of a condition of element `i`: the one that is written, or the element itself. -/
def loadBlock (condition : Json) (parent : Option Nat) (path : Path) (k i : Nat) : LoadM Nat :=
  match condition.given? "block" with
  | some block => do
    let b ← loadNode block parent (path ++ [.condition k])
    needElement b .blockNotElement path
    return b
  | none => return i

def loadChildren (v : Json) (path : Path) (i : Nat) : LoadM Unit := do
  (← partsAt v "children").zipIdx.forM fun (child, k) => do
    let c ← loadNode child (some i) (path ++ [.child k])
    edit i fun e => { e with children := e.children ++ [c] }

def loadSlots (v : Json) (path : Path) (i : Nat) : LoadM Unit := do
  (← membersAt v "scopedSlots").forM fun (name, slot) => do
    let s ← loadNode slot (some i) (path ++ [.slot name])
    needElement s .slotNotElement path
    edit i fun e => { e with scopedSlots := Table.put (.string name) s e.scopedSlots }

def loadConditions (v : Json) (parent : Option Nat) (path : Path) (i : Nat) : LoadM Unit :=
  match v.given? "ifConditions" with
  | some list => do
    (← partsOf list).zipIdx.forM fun (condition, k) => do
      let _ ← membersOf condition
      let block ← loadBlock loadNode condition parent path k i
      edit i fun e => { e with conditions := e.conditions ++ [⟨valueAt condition "exp", block⟩] }
  | none => edit i (Element.seedConditions i)

/-- Loads the parts below an element: children, scoped slots, then the blocks of its chain. -/
def loadBelow (v : Json) (parent : Option Nat) (path : Path) (i : Nat) : LoadM Unit := do
  loadChildren loadNode v path i
  loadSlots loadNode v path i
  loadConditions loadNode v parent path i

def loadElement (v : Json) (parent : Option Nat) (path : Path) : LoadM Nat := do
  let e ← shell v path
  let i ← adopt { span := spanOf v, content := .element e } parent
  let e ← bindings v path e
  modify fun s => { s with
    tree := s.tree.modifyNode i fun n => { n with content := .element e, flags := flagsOf v } }
  loadBelow loadNode v parent path i
  return i

end Below

/-- Loads one node and everything below it. The first argument bounds the depth. -/
def loadNode : Nat → Json → Option Nat → Path → LoadM Nat
  | 0, _, _, _ => throw .tooDeep
  | fuel + 1, v, parent, path =>
    match v with
    | .object _ =>
      let type := (v.get? "type").getD (.int 1)
      if type.isNumber 2 then do
        let code ← require v "expression" path
        adopt
          { span := spanOf v
            content := .expression code ((v.get? "text").getD (.string "")) }
          parent
      else if type.isNumber 3 then do
        let text ← require v "text" path
        adopt
          { span := spanOf v
            content := if (valueAt v "isComment").truthy then .comment text else .text text }
          parent
      else if type.isNumber 1 then loadElement (loadNode fuel) v parent path
      else if type.fits Text.DigitLimit.standard then throw (.fault (.unknownType type) path)
      else throw .unwritable
    | _ => throw (.fault (.notMapping v.kindName) path)

/-- Loads a whole template. -/
def loadRoot (v : Json) : LoadM Unit := do
  let root ← loadNode v.depth v none []
  needElement root .rootNotElement []
  modify fun s => { s with tree := { s.tree with root := some root } }
  record (.loaded (← get).tree.size)

end Loader

/-- The tree of a parsed template, with the records made on the way. Null is the empty template. -/
def Tree.load (v : Json) : Except LoadError Tree × List LogRecord :=
  match v with
  | .null => (.ok {}, [])
  | _ =>
    let (result, s) := (Loader.loadRoot v).run.run {}
    (result.map fun _ => s.tree, s.log)

end TemplateCompiler
