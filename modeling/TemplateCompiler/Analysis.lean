import TemplateCompiler.Failure
import TemplateCompiler.Log
import TemplateCompiler.Tag
import TemplateCompiler.Tree.Field
import TemplateCompiler.Tree.Walk

/-!
# Static analysis

Two passes write the flags of a tree. `markConstant` says which nodes never change between renders;
`markRoots` picks the outermost constant elements with real content, which are worth a render
function of their own, and says which constant or once-only elements stand in a loop. Scoped slots
are not visited.
-/

namespace TemplateCompiler

/-- Which tags the platform creates itself, and which further fields keep an element constant. -/
structure Analysis where
  reserved : String → Bool := Tag.isReserved
  staticKeys : List String := []

namespace Analysis

/-- Fields that never keep an element from being constant. -/
def harmlessFields : List Field :=
  [.tag, .attrsList, .attrsMap, .rawAttrsMap, .plain, .children, .attrs, .start, .stop]

def allows (a : Analysis) (f : Field) : Bool :=
  harmlessFields.contains f || a.staticKeys.contains f.name

/-- Whether the nearest elements are templates up to one that loops. -/
def underLoopingTemplate : List Element → Bool
  | [] => false
  | e :: rest => e.hasTag "template" && (e.loops || underLoopingTemplate rest)

/-- Whether an element, taken by itself, never changes. -/
def isConstant (a : Analysis) (e : Element) (span : Span) (above : List Element) (reserved : Bool) :
    Bool :=
  e.pre.truthy ||
    (!e.hasBindings.truthy && !e.tested && !e.loops && !Tag.builtIn.any e.hasTag && reserved &&
      !underLoopingTemplate above && (e.populated span).all a.allows)

/-- Whether the first pass looks below an element. What a component receives may change. -/
def enters (e : Element) (reserved : Bool) : Bool :=
  reserved || e.hasTag "slot" || !(e.rawValue "inline-template").isNull

abbrev AnalysisM := StateT Tree (Except Failure)

def nodeAt (i : Nat) : AnalysisM Node := do
  match (← get).node? i with
  | some n => return n
  | none => throw (.dangling i)

/-- Whether a node and everything below it that the pass looks at is constant. `self` flags the
nodes below. -/
def constantBelow (a : Analysis) (self : Nat → AnalysisM Bool) (i : Nat) (n : Node) :
    AnalysisM Bool := do
  match n.content with
  | .text _ | .comment _ => return true
  | .expression _ _ => return false
  | .element e =>
    let reserved ← Tag.check a.reserved e.tag
    let own := a.isConstant e n.span ((← get).ancestorElements i) reserved
    let below ← if enters e reserved then (e.children ++ e.branchBlocks).mapM self else pure []
    return own && below.all id

/-- Flags a node and what is below it. -/
def markConstant (a : Analysis) : Nat → Nat → AnalysisM Bool
  | 0, _ => throw .tooDeep
  | fuel + 1, i => do
    let constant ← a.constantBelow (a.markConstant fuel) i (← nodeAt i)
    modify fun t => t.modifyFlags i fun f => { f with constant := .bool constant }
    return constant

/-- A lone text or comment costs more to hoist than to render again. -/
def isLoneText (t : Tree) (children : List Nat) : Bool :=
  match children with
  | [c] =>
    match (t.node? c).map Node.content with
    | some (.text _) | some (.comment _) => true
    | _ => false
  | _ => false

/-- Flags the outermost constant elements with content as roots, and tells constant and once-only
elements whether they stand in a loop. -/
def markRoots : Nat → Nat → Bool → AnalysisM Unit
  | 0, _, _ => throw .tooDeep
  | fuel + 1, i, inLoop => do
    let n ← nodeAt i
    match n.element? with
    | none => return ()
    | some e =>
      let constant := n.flags.constant.truthy
      if constant || e.once.truthy then
        modify fun t => t.modifyFlags i fun f => { f with inLoop := .bool inLoop }
      if constant && !e.children.isEmpty && !isLoneText (← get) e.children then
        modify fun t => t.modifyFlags i fun f => { f with root := .bool true }
      else
        modify fun t => t.modifyFlags i fun f => { f with root := .bool false }
        e.children.forM fun c => markRoots fuel c (inLoop || e.loops)
        e.branchBlocks.forM fun b => markRoots fuel b inLoop

def run (a : Analysis) (root : Nat) : AnalysisM Unit := do
  let fuel := (← get).size + 1
  let _ ← a.markConstant fuel root
  markRoots fuel root false

end Analysis

/-- The number of static roots that a walk meets. -/
def Tree.rootCount (t : Tree) : Nat :=
  t.walk.countP fun i => (t.flags i).root.truthy

/-- Writes the flags of a tree. The empty template has none. -/
def Tree.analyse (t : Tree) (a : Analysis) : Except Failure (Tree × List LogRecord) :=
  match t.root with
  | none => .ok (t, [])
  | some root => do
    let ((), t) ← (a.run root).run t
    return (t, [.staticRoots t.rootCount])

end TemplateCompiler
