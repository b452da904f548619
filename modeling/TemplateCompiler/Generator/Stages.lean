import TemplateCompiler.Generator.Placement

/-!
# Stages

Hoisting, once marks, loops and conditional chains. Each stage generates the same element again with
the stage recorded, so that the next one applies.
-/

namespace TemplateCompiler.Generator

variable [p : Placement]

/-- The code below a verbatim element is written verbatim. -/
def enterVerbatim (i : Nat) : GenM Unit := do
  if ← isVerbatim i then setVerbatim true

/-- Renders an element by a function of its own. -/
def emitHoisted (self : Emit) (i : Nat) (done : Stages) : GenM Code := do
  let outer := (← get).verbatim
  enterVerbatim i
  let body ← self (.element i { done with hoisted := true })
  setVerbatim outer
  Placement.hoist i ((← flagsOf i).inLoop.truthy) body

/-- The code of one arm of a chain. Only the owner has been through stages so far. -/
def emitArm (self : Emit) (i : Nat) (done : Stages) (slot : Bool) (block : Nat) : GenM Code := do
  let done := if block = i then done else {}
  if slot then self (.slotEntry block done)
  else if (← elementAt block).once.truthy then self (.onceElement block done)
  else self (.element block done)

/-- What a chain gives if no test holds. -/
def noArm (slot : Bool) : Code :=
  if slot then Code.text "null" else Code.callHelper .empty Code.empty

/-- A chain: the first arm whose test holds, or that has none. -/
def emitChain (self : Emit) (i : Nat) (done : Stages) (slot : Bool) : List Condition → GenM Code
  | [] => return noArm slot
  | c :: rest => do
    match c.expression.filled? with
    | some test =>
      let yes ← emitArm self i done slot c.block
      let no ← emitChain self i done slot rest
      return .branch i test yes no
    | none => emitArm self i done slot c.block

def emitBranches (self : Emit) (i : Nat) (e : Element) (done : Stages) (slot : Bool) : GenM Code :=
  emitChain self i { done with branched := true } slot e.conditions

/-- The tip for a list of components without keys. -/
def keylessTip (e : Element) (site : Site) : Warning :=
  { message := "<" ++ e.tag.shown ++ " v-for=\"" ++ e.forAlias.shown ++ " in " ++
      e.forSource.shown ++ "\">: component lists rendered with v-for should have explicit keys. " ++
      "See https://vuejs.org/guide/list.html#key for more info."
    location := (e.rawLocation "v-for").or (some site.location)
    tip := true
    code := some .listWithoutKey }

def loopParams (e : Element) : String :=
  e.forAlias.shown ++ (e.iterator1.filled?.map ("," ++ ·)).getD "" ++
    (e.iterator2.filled?.map ("," ++ ·)).getD ""

/-- Suggests keys for a list of components that has none. -/
def adviseKeys (o : Options) (i : Nat) (e : Element) : GenM Unit := do
  let isComponent ← liftFailure (o.maybeComponent e)
  if isComponent && !e.hasTag "slot" && !e.hasTag "template" && !e.key.truthy then
    warn (keylessTip e (← siteOf i))

/-- Repeats an element or a slot definition. -/
def emitLoop (o : Options) (self : Emit) (i : Nat) (e : Element) (done : Stages) (slot : Bool) :
    GenM Code := do
  adviseKeys o i e
  let done := { done with looped := true }
  let body ← self (if slot then .slotEntry i done else .element i done)
  return .loop i e.forSource.shown (loopParams e) body

def keylessOnce (e : Element) (site : Site) : Warning :=
  { message := "v-once can only be used inside v-for that is keyed. "
    location := (e.rawLocation "v-once").or (some site.location)
    code := some .onceWithoutKey }

/-- The key of the nearest loop above an element. -/
def loopKey? (above : List Element) : Option String :=
  (above.find? Element.loops).bind fun e => e.key.filled?

/-- Renders an element once: by a function of its own outside of loops, else once for each key of
the loop around it. -/
def emitOnce (self : Emit) (i : Nat) (done : Stages) : GenM Code := do
  let e ← elementAt i
  let done := { done with once := true }
  if e.tested && !done.branched then emitBranches self i e done false
  else if !(← flagsOf i).inLoop.truthy then emitHoisted self i done
  else
    match loopKey? ((← get).tree.ancestorElements i) with
    | some key =>
      let body ← self (.element i done)
      Placement.once i key body
    | none =>
      warn (keylessOnce e (← siteOf i))
      self (.element i done)

end TemplateCompiler.Generator
