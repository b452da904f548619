import TemplateCompiler.Helper
import TemplateCompiler.Text.Units

/-!
# Generated code

Code is built as a tree and becomes text only in `Code.render`. Names of helpers stay open until
then. What was emitted for an element carries the element's index.

Two pairs of constructors stand before and after lifting: a `hoist` becomes a `call` of a function
of its own, and `once` becomes a numbered `memo`. Before lifting, both are as good as their bodies.
-/

namespace TemplateCompiler

/-- What the runtime is told about a set of scoped slots: nothing, to update always, or to compare
sets by a hash of their content. -/
inductive UpdateHint where
  | none
  | force
  | keyed
  deriving DecidableEq, Repr

inductive Code where
  | text (s : String)
  | helper (h : Helper)
  | append (first second : Code)
  /-- A node to create. The children of a dynamic component are numbered before its data. -/
  | create (owner : Nat) (dynamic : Bool) (target : String) (data children : Code)
  | loop (owner : Nat) (source params : String) (body : Code)
  | branch (owner : Nat) (test : String) (yes no : Code)
  /-- The children of a `<template>`, in its place. -/
  | fragment (owner : Nat) (body : Code)
  /-- A place where slot content is rendered. -/
  | outlet (owner : Nat) (arguments : Code)
  | slots (owner : Nat) (descriptors : Code) (hint : UpdateHint)
  /-- To be rendered by a function of its own. -/
  | hoist (owner : Nat) (inLoop : Bool) (body : Code)
  /-- To be rendered once for each value of a key. -/
  | once (owner : Nat) (key : String) (body : Code)
  | call (index : Nat) (inLoop : Bool)
  | memo (id : Nat) (key : String) (body : Code)
  /-- An inline template, compiled apart from the code around it. -/
  | inline (body : Code)
  /-- A lifted inline template. -/
  | unit (body : Code)
  /-- Code whose text a module puts another text in the place of. -/
  | rewritten (f : String → String) (body : Code)

namespace Code

instance : Append Code := ⟨append⟩

instance : Coe String Code := ⟨text⟩

def empty : Code := text ""

/-- Codes with a separator between them. -/
def join (separator : String) : List Code → Code
  | [] => empty
  | [c] => c
  | c :: rest => c ++ text separator ++ join separator rest

/-- A call of a helper. -/
def callHelper (h : Helper) (arguments : Code) : Code :=
  helper h ++ text "(" ++ arguments ++ text ")"

/-- A function body that renders `c` with the component's own names in scope. -/
def enclosed (c : Code) : Code :=
  text "with(this)\x7breturn " ++ c ++ text "\x7d"

/-- The entry of a data object for an inline template. -/
def inlineEntry (body : Code) (functions : List Code) : Code :=
  text "inlineTemplate:\x7brender:function()\x7b" ++ enclosed body ++
    text "\x7d,staticRenderFns:[" ++
    join "," (functions.map fun f => text "function()\x7b" ++ enclosed f ++ text "\x7d") ++
    text "]\x7d"

/-- The arguments that follow the slot descriptors, whose text is given. -/
def hintText (hint : UpdateHint) (descriptors : String) : String :=
  match hint with
  | .none => ""
  | .force => ",null,true"
  | .keyed => ",null,false," ++ toString (Text.slotHash descriptors).toNat

/-- An inline template that is not lifted and so has no functions. -/
def inlineText (body : String) : String :=
  "inlineTemplate:\x7brender:function()\x7bwith(this)\x7breturn " ++ body ++
    "\x7d\x7d,staticRenderFns:[]\x7d"

/-- The text of code under given helper names. -/
def render (names : Names) : Code → String
  | text s => s
  | helper h => names h
  | append a b => a.render names ++ b.render names
  | create _ _ target data children =>
    names .create ++ "(" ++ target ++ data.render names ++ children.render names ++ ")"
  | loop _ source params body =>
    names .renderList ++ "((" ++ source ++ "),function(" ++ params ++ ")\x7breturn " ++
      body.render names ++ "\x7d)"
  | branch _ test yes no => "(" ++ test ++ ")?" ++ yes.render names ++ ":" ++ no.render names
  | fragment _ body => body.render names
  | outlet _ arguments => names .renderSlot ++ "(" ++ arguments.render names ++ ")"
  | slots _ descriptors hint =>
    let d := descriptors.render names
    names .resolveScopedSlots ++ "([" ++ d ++ "]" ++ hintText hint d ++ ")"
  | hoist _ _ body => body.render names
  | once _ _ body => body.render names
  | call index inLoop =>
    names .renderStatic ++ "(" ++ toString index ++ (if inLoop then ",true" else "") ++ ")"
  | memo id key body =>
    names .markOnce ++ "(" ++ body.render names ++ "," ++ toString id ++ "," ++ key ++ ")"
  | inline body => inlineText (body.render names)
  | unit body => body.render names
  | rewritten f body => f (body.render names)

end Code

end TemplateCompiler
