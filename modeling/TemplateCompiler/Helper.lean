/-!
# Runtime helpers

Generated code calls helpers that the runtime installs on every component. A helper is known by what
it does; its name is a choice of the runtime.
-/

namespace TemplateCompiler

inductive Helper where
  | create
  | text
  | empty
  | toText
  | toNumber
  | renderList
  | renderStatic
  | markOnce
  | renderSlot
  | resolveScopedSlots
  | bindDynamicKeys
  | bindObjectProps
  | bindObjectListeners
  | prependModifier
  | checkKeyCodes
  | looseEqual
  | looseIndexOf
  | set
  | forceUpdate
  deriving DecidableEq, Repr

/-- The names under which a runtime offers its helpers. -/
abbrev Names := Helper → String

/-- The names that the standard runtime uses. -/
def Names.standard : Names
  | .create => "_c"
  | .text => "_v"
  | .empty => "_e"
  | .toText => "_s"
  | .toNumber => "_n"
  | .renderList => "_l"
  | .renderStatic => "_m"
  | .markOnce => "_o"
  | .renderSlot => "_t"
  | .resolveScopedSlots => "_u"
  | .bindDynamicKeys => "_d"
  | .bindObjectProps => "_b"
  | .bindObjectListeners => "_g"
  | .prependModifier => "_p"
  | .checkKeyCodes => "_k"
  | .looseEqual => "_q"
  | .looseIndexOf => "_i"
  | .set => "$set"
  | .forceUpdate => "$forceUpdate"

/-- Gives one helper another name. -/
def Names.rename (names : Names) (h : Helper) (name : String) : Names :=
  fun k => if k = h then name else names k

end TemplateCompiler
