import TemplateCompiler.Plugin.Model
import TemplateCompiler.Tag

/-!
# The standard directives

Objects of listeners and of bindings, `v-cloak`, `v-text`, `v-html` and `v-model`. Of these only
`v-model` may need the runtime.
-/

namespace TemplateCompiler.DirectivePlugin

def done (e : Element) (warnings : List Warning) : PluginRun :=
  { element := e, warnings := warnings, reply := .ok (.bool false) }

/-- `v-on="listeners"` merges an object of listeners. -/
def on (names : Names) : DirectivePlugin :=
  { kind := .on
    compile := fun _ e d =>
      let warnings : List Warning :=
        if (d.modifiers.getD []).isEmpty then []
        else
          [{ message := "v-on without argument does not support modifiers."
             location := some (.directive d.name d.span)
             code := some .onObjectModifiers }]
      done { e with wrapListeners := some ⟨names .bindObjectListeners, d.value⟩ } warnings }

/-- `v-bind="props"` merges an object of bindings. -/
def bind (names : Names) : DirectivePlugin :=
  { kind := .bind
    compile := fun _ e d =>
      let m := d.modifiers.getD []
      done { e with
        wrapData := some
          { helper := names .bindObjectProps
            tag := e.tag
            value := d.value
            asProp := Modifiers.on m "prop"
            sync := Modifiers.on m "sync" } } [] }

/-- `v-cloak` does nothing. -/
def cloak : DirectivePlugin :=
  { kind := .cloak, compile := fun _ e _ => done e [] }

/-- A directive that sets a property of the native element to text. -/
def domProperty (kind : PluginKind) (property : String) (names : Names) : DirectivePlugin :=
  { kind := kind
    compile := fun _ e d =>
      match d.value.filled? with
      | some v =>
        done (e.addProp
          { name := property, value := names .toText ++ "(" ++ v ++ ")", span := d.span }) []
      | none => done e [] }

/-- A plugin without a hook of its own: it gives up. -/
def unimplemented (label : String) : DirectivePlugin :=
  { kind := .custom label
    compile := fun _ e _ => { element := e, reply := .error .unimplemented } }

/-- The directives that every environment starts with. -/
def standard (names : Names) (reserved : String → Bool) : DirectiveTable :=
  [("on", on names), ("bind", bind names), ("cloak", cloak),
  ("text", domProperty .text "textContent" names), ("html", domProperty .html "innerHTML" names),
  ("model", Model.plugin { names, reserved })]

end TemplateCompiler.DirectivePlugin
