import TemplateCompiler.Code.Basic
import TemplateCompiler.Failure
import TemplateCompiler.Json.Printer
import TemplateCompiler.Listener.Grammar
import TemplateCompiler.Tree.Element

/-!
# Listeners and properties in the data object

A handler with modifiers is wrapped in a function that runs the guards of its modifiers first; the
key filter stands before them. Entries whose names are known only at run time go through a helper.
-/

namespace TemplateCompiler

/-! ## Entries by name -/

/-- Entries of an object: those with a fixed name, and those whose name is an expression. -/
structure KeyedEntries where
  fixed : List (String × Code) := []
  dynamic : List (String × Code) := []

def KeyedEntries.add (k : KeyedEntries) (name : String) (isDynamic : Bool) (value : Code) :
    KeyedEntries :=
  if isDynamic then { k with dynamic := k.dynamic ++ [(name, value)] }
  else { k with fixed := k.fixed ++ [(name, value)] }

def KeyedEntries.code (k : KeyedEntries) : Code :=
  let fixed : Code := Code.text "\x7b" ++
    Code.join "," (k.fixed.map fun e => Code.text ("\"" ++ e.1 ++ "\":") ++ e.2) ++ Code.text "\x7d"
  if k.dynamic.isEmpty then fixed
  else
    Code.callHelper .bindDynamicKeys (fixed ++ Code.text ",[" ++
      Code.join "," (k.dynamic.map fun e => Code.text (e.1 ++ ",") ++ e.2) ++ Code.text "]")

/-- Properties or attributes as an object. -/
def propsEntries (props : List Attr) : Except Failure KeyedEntries :=
  props.foldlM (fun k a =>
    match a.value with
    | .string v => .ok (k.add a.name.shown a.dynamic (Code.text (Json.escapeSeparators v)))
    | _ => .error .attrValueNotText) {}

namespace Listener

/-! ## Keys -/

/-- A key by its usual name, with its codes and the names that browsers give it. -/
structure KeyAlias where
  name : String
  codes : List Nat
  names : List String

def keyAliases : List KeyAlias :=
  [⟨"esc", [27], ["Esc", "Escape"]⟩,
  ⟨"tab", [9], ["Tab"]⟩,
  ⟨"enter", [13], ["Enter"]⟩,
  ⟨"space", [32], [" ", "Spacebar"]⟩,
  ⟨"up", [38], ["Up", "ArrowUp"]⟩,
  ⟨"left", [37], ["Left", "ArrowLeft"]⟩,
  ⟨"right", [39], ["Right", "ArrowRight"]⟩,
  ⟨"down", [40], ["Down", "ArrowDown"]⟩,
  ⟨"delete", [8, 46], ["Backspace", "Delete", "Del"]⟩]

def keyAlias? (name : String) : Option KeyAlias :=
  keyAliases.find? fun k => k.name == name

/-- One value stands for itself, several for a list. -/
def oneOrMany : List Json → Json
  | [v] => v
  | vs => .array vs

/-- The test that the pressed key is another one. A number is a key code, unless it is zero. -/
def textKeyTest (key : String) : Except Failure Code := do
  let named : Code :=
    let codes := ((keyAlias? key).map fun k =>
      (oneOrMany (k.codes.map fun c : Nat => .int c)).compact).getD "undefined"
    let names := ((keyAlias? key).map fun k => (oneOrMany (k.names.map .string)).compact).getD
      "undefined"
    Code.callHelper .checkKeyCodes
      (Code.text ("$event.keyCode," ++ Json.quote key ++ "," ++ codes ++ ",$event.key," ++ names))
  match leadingNumber? key.toList with
  | none => return named
  | some number =>
    match number.value? with
    | none => throw .unreadableKey
    | some n => return if n = 0 then named else Code.text ("$event.keyCode!==" ++ toString n)

def keyTest : Json → Except Failure Code
  | .string key => textKeyTest key
  | _ => .error .keyNotText

theorem keyTest_eq_ok {key : Json} {c : Code} (h : keyTest key = .ok c) :
    ∃ name, key = .string name ∧ textKeyTest name = .ok c := by
  cases key with
  | string name => exact ⟨name, rfl, h⟩
  | _ => cases h

/-! ## Guards -/

/-- A statement at the beginning of a listener: an action, or a test that ends it. -/
inductive Statement where
  | act (code : String)
  | guard (condition : Code)

def Statement.code : Statement → Code
  | .act code => Code.text code
  | .guard condition => Code.text "if(" ++ condition ++ Code.text ")return null;"

/-- Ends the listener unless one of the keys was pressed. Other events than those of keys pass. -/
def keyFilter (keys : List Json) : Except Failure Statement := do
  let tests ← keys.mapM keyTest
  return .guard (Code.text "!$event.type.indexOf('key')&&" ++ Code.join "&&" tests)

/-- The statements of the modifiers that the compiler knows. -/
def modifierStatement? : String → Option Statement
  | "stop" => some (.act "$event.stopPropagation();")
  | "prevent" => some (.act "$event.preventDefault();")
  | "self" => some (.guard (Code.text "$event.target !== $event.currentTarget"))
  | "ctrl" => some (.guard (Code.text "!$event.ctrlKey"))
  | "shift" => some (.guard (Code.text "!$event.shiftKey"))
  | "alt" => some (.guard (Code.text "!$event.altKey"))
  | "meta" => some (.guard (Code.text "!$event.metaKey"))
  | "left" => some (.guard (Code.text "'button' in $event && $event.button !== 0"))
  | "middle" => some (.guard (Code.text "'button' in $event && $event.button !== 1"))
  | "right" => some (.guard (Code.text "'button' in $event && $event.button !== 2"))
  | _ => none

def systemKeys : List String :=
  ["ctrl", "shift", "alt", "meta"]

/-- Ends the listener if a system key is pressed that the modifiers do not ask for. -/
def exactGuard (m : Modifiers) : Statement :=
  .guard (Code.text (String.intercalate "||"
    ((systemKeys.filter fun k => !m.on k).map fun k => "$event." ++ k ++ "Key")))

/-- The statement of one modifier, if it has one. -/
def textStatement? (m : Modifiers) (key : String) : Option Statement :=
  match modifierStatement? key with
  | some s => some s
  | none => if key == "exact" then some (exactGuard m) else none

def statement? (m : Modifiers) : Json → Option Statement
  | .string key => textStatement? m key
  | _ => none

/-- A statement is that of a modifier which the compiler knows, or the guard for exact ones. -/
theorem statement?_eq_some {m : Modifiers} {key : Json} {s : Statement}
    (h : statement? m key = some s) :
    ∃ name, key = .string name ∧
      (modifierStatement? name = some s ∨ name = "exact" ∧ s = exactGuard m) := by
  cases key with
  | string name =>
    refine ⟨name, rfl, ?_⟩
    have h : textStatement? m name = some s := h
    unfold textStatement? at h
    split at h
    · next hs => exact .inl (h ▸ hs)
    · split at h
      · next hexact => exact .inr ⟨beq_iff_eq.mp hexact, (Option.some.inj h).symm⟩
      · cases h
  | _ => cases h

/-- Whether a modifier names a key. The left and right buttons are arrow keys as well. -/
def isKey (m : Modifiers) : Json → Bool
  | .string key =>
    (textStatement? m key).isNone || ((modifierStatement? key).isSome && (keyAlias? key).isSome)
  | _ => true

/-- The statements of all modifiers: the key filter, then the others in the order written. -/
def statements (m : Modifiers) : Except Failure (List Statement) := do
  let keys := (Table.keys m).filter (isKey m)
  let others := (Table.keys m).filterMap (statement? m)
  if keys.isEmpty then return others
  return (← keyFilter keys) :: others

/-- The key filter is there if there are keys, and the other statements stand in the order of the
modifiers. -/
theorem statements_cases {m : Modifiers} {ss : List Statement} (h : statements m = .ok ss) :
    ss = (Table.keys m).filterMap (statement? m) ∨
      ∃ keys s, keys ≠ [] ∧ keys ⊆ Table.keys m ∧ keyFilter keys = .ok s ∧
        ss = s :: (Table.keys m).filterMap (statement? m) := by
  unfold statements at h
  dsimp only at h
  split at h
  · cases h
    exact .inl rfl
  · next hkeys =>
    obtain ⟨s, hs, h⟩ := bind_ok h
    cases h
    exact .inr ⟨_, s, by simpa using hkeys, List.filter_sublist.subset, hs, rfl⟩

theorem mem_statements {m : Modifiers} {ss : List Statement} (h : statements m = .ok ss)
    {s : Statement} (hs : s ∈ ss) :
    (∃ keys, keys ⊆ Table.keys m ∧ keyFilter keys = .ok s) ∨ ∃ key, statement? m key = some s := by
  have hother (hs : s ∈ (Table.keys m).filterMap (statement? m)) :
      ∃ key, statement? m key = some s := by
    obtain ⟨key, -, hkey⟩ := List.mem_filterMap.mp hs
    exact ⟨key, hkey⟩
  obtain rfl | ⟨keys, filter, -, hkeys, hfilter, rfl⟩ := statements_cases h
  · exact .inr (hother hs)
  · obtain rfl | hs := List.mem_cons.mp hs
    · exact .inl ⟨keys, hkeys, hfilter⟩
    · exact .inr (hother hs)

end Listener

open Listener in
/-- The code of one listener. -/
def Handler.code (h : Handler) : Except Failure Code :=
  match h.value with
  | .string value => do
    let chars := value.toList
    match h.modifiers with
    | none =>
      if isMethodPath chars || isFunctionExpression chars then return Code.text value
      let body := if isInvocation chars then "return " ++ value else value
      return Code.text ("function($event)\x7b" ++ body ++ "\x7d")
    | some m =>
      let body :=
        if isMethodPath chars then "return " ++ value ++ ".apply(null, arguments)"
        else if isFunctionExpression chars then "return (" ++ value ++ ").apply(null, arguments)"
        else if isInvocation chars then "return " ++ value
        else value
      return Code.text "function($event)\x7b" ++
        Code.join "" ((← statements m).map Statement.code) ++ Code.text (body ++ "\x7d")
  | _ => .error .handlerNotText

/-- The code of the listeners of one event. -/
def handlersCode : List Handler → Except Failure Code
  | [] => .ok (Code.text "function()\x7b\x7d")
  | [h] => h.code
  | hs => do
    let codes ← hs.mapM Handler.code
    return Code.text "[" ++ Code.join "," codes ++ Code.text "]"

/-- Listeners as an object. An event with any listener whose name is dynamic has a dynamic name. -/
def eventsEntries (events : Events) : Except Failure KeyedEntries :=
  events.foldlM (fun k e => do
    let code ← handlersCode e.2
    return k.add e.1 (e.2.any (·.dynamic)) code) {}

/-- The entry of the data object for listeners. -/
def eventsCode (events : Events) (native : Bool) : Except Failure Code := do
  let entries ← eventsEntries events
  return Code.text (if native then "nativeOn:" else "on:") ++ entries.code

end TemplateCompiler
