import TemplateCompiler.Generator.Children
import TemplateCompiler.Generator.Stages
import TemplateCompiler.Listener.Emit
import TemplateCompiler.Text.Capital
import TemplateCompiler.Tree.Builder

/-!
# Slots

A `<slot>` element is an outlet for content that a component receives. What a component is given is
a list of descriptors, one for each slot definition, with a hint when the component has to update.
-/

namespace TemplateCompiler.Generator

/-- An attribute under its camel case name. -/
def camelAttr (a : Attr) : Except Failure Attr :=
  match a.name with
  | .string name => .ok { a with name := Text.camelize name }
  | _ => .error .attrNameNotText

/-- The properties that an outlet hands out. -/
def outletProps (e : Element) : Except Failure (Option Code) :=
  if e.attrs.isSome || e.dynamicAttrs.isSome then do
    let camel ← (e.attrs.getD [] ++ e.dynamicAttrs.getD []).mapM camelAttr
    return some (← propsEntries camel).code
  else .ok none

/-- The arguments of an outlet: its name, the content to fall back to, the properties that it hands
out and an object of further ones. Null stands for one that is left out. -/
def outletArguments (e : Element) (fallback props : Option Code) : Code :=
  let object := (e.rawValue "v-bind").filled?
  let content : Code := match fallback with
    | some c => Code.text ",function()\x7breturn " ++ c ++ Code.text "\x7d"
    | none => if props.isSome || object.isSome then Code.text ",null" else Code.empty
  let given : Code := match props with
    | some p => Code.text "," ++ p
    | none => Code.empty
  let rest : Code := match object with
    | some b => Code.text ((if props.isSome then "" else ",null") ++ "," ++ b)
    | none => Code.empty
  Code.text (e.slotName.filled?.getD "\"default\"") ++ content ++ given ++ rest

/-- A place for slot content. -/
def emitOutlet (o : Options) (self : Emit) (i : Nat) (e : Element) : GenM Code := do
  let children ← emitChildren o self e false
  let props ← liftFailure (outletProps e)
  return .outlet i (outletArguments e children.code? props)

/-- Whether a scope binds the properties of a slot. -/
def bindsScope (scope : Json) : Bool :=
  scope.truthy && !scope.isText emptySlotScope

/-- The hint from the elements above a host, nearest first: a loop or a bound scope forces updates,
and a test below it asks for a key. -/
def hintAbove : List Element → Bool → UpdateHint
  | [], keyed => if keyed then .keyed else .none
  | e :: rest, keyed =>
    if bindsScope e.slotScope || e.loops then .force else hintAbove rest (keyed || e.tested)

/-- Whether a slot definition can come and go, or pass on an outlet. -/
def isUnstable (t : Tree) (i : Nat) : Bool :=
  match t.element? i with
  | some e => e.slotTargetDynamic.truthy || e.tested || e.loops || t.hasOutlet i
  | none => false

def updateHint (t : Tree) (i : Nat) (e : Element) : UpdateHint :=
  if e.loops || (e.scopedSlots.map Prod.snd).any (isUnstable t) then .force
  else hintAbove (t.ancestorElements i) e.tested

/-- The descriptors of all slot definitions of a host. -/
def emitScopedSlots (self : Emit) (i : Nat) (e : Element) : GenM Code := do
  let hint := updateHint (← get).tree i e
  let entries ← e.scopedSlots.mapM fun s => self (.slotEntry s.2 {})
  return Code.text "scopedSlots:" ++ .slots i (Code.join "," entries) hint

/-- The children of a template as the body of a slot definition. In the old way of writing, a test
belongs to the content. -/
def slotContent (i : Nat) (e : Element) (legacy : Bool) (children : Children) : Code :=
  let content := children.code?.getD (Code.text "undefined")
  match e.ifExpr.filled? with
  | some test => if legacy then .branch i test content (Code.text "undefined") else content
  | none => content

def emitSlotBody (o : Options) (self : Emit) (i : Nat) (e : Element) (done : Stages)
    (legacy : Bool) : GenM Code := do
  if e.hasTag "template" then return slotContent i e legacy (← emitChildren o self e false)
  else self (.element i done)

/-- The descriptor of a slot under a key. -/
def slotDescriptor (e : Element) (target : Json) (body : Code) : Code :=
  let scope :=
    if e.slotScope.isNull || e.slotScope.isText emptySlotScope then .string "" else e.slotScope
  Code.text ("\x7bkey:" ++ target.filled?.getD "\"default\"" ++ ",fn:function(" ++ scope.shown ++
    ")\x7breturn ") ++ body ++
    Code.text ("\x7d" ++ (if scope.truthy then "" else ",proxy:true") ++ "\x7d")

/-- The descriptor of one slot definition. Its key is read last, since plugins may rename the slot
while the body is generated. -/
def emitSlotEntry (o : Options) (self : Emit) (i : Nat) (done : Stages) : GenM Code := do
  let e ← elementAt i
  let legacy := (e.rawValue "slot-scope").truthy
  if e.tested && !done.branched && !legacy then emitBranches self i e done true
  else if e.loops && !done.looped then emitLoop o self i e done true
  else
    let body ← emitSlotBody o self i e done legacy
    return slotDescriptor e (← elementAt i).slotTarget body

end TemplateCompiler.Generator
