import TemplateCompiler.Tree.Basic

/-!
# Element fields by name

Configuration names the fields of an element, and the static analysis asks which fields of an
element hold anything.
-/

namespace TemplateCompiler

inductive Field where
  | start | stop | tag | ns | attrsList | attrsMap | rawAttrsMap | children | pre | forSource
  | forAlias | iterator1 | iterator2 | ifExpr | elseIf | isElse | conditions | once | key | ref
  | refInFor | slotTarget | slotTargetDynamic | slotScope | scopedSlots | slotName | component
  | staticClass | classBinding | staticStyle | styleBinding | events | nativeEvents | props | attrs
  | dynamicAttrs | directives | model | inlineTemplate | plain | processed | hasBindings | wrapData
  | wrapListeners
  deriving DecidableEq, Repr

namespace Field

/-- Every field, in the order in which listings give them. -/
def all : List Field :=
  [.start, .stop, .tag, .ns, .attrsList, .attrsMap, .rawAttrsMap, .children, .pre, .forSource,
  .forAlias, .iterator1, .iterator2, .ifExpr, .elseIf, .isElse, .conditions, .once, .key, .ref,
  .refInFor, .slotTarget, .slotTargetDynamic, .slotScope, .scopedSlots, .slotName, .component,
  .staticClass, .classBinding, .staticStyle, .styleBinding, .events, .nativeEvents, .props, .attrs,
  .dynamicAttrs, .directives, .model, .inlineTemplate, .plain, .processed, .hasBindings, .wrapData,
  .wrapListeners]

/-- The name by which configuration knows a field. -/
def name : Field → String
  | .start => "start"
  | .stop => "end"
  | .tag => "tag"
  | .ns => "ns"
  | .attrsList => "attrs_list"
  | .attrsMap => "attrs_map"
  | .rawAttrsMap => "raw_attrs_map"
  | .children => "children"
  | .pre => "pre"
  | .forSource => "for_source"
  | .forAlias => "alias"
  | .iterator1 => "iterator1"
  | .iterator2 => "iterator2"
  | .ifExpr => "if_expr"
  | .elseIf => "else_if"
  | .isElse => "is_else"
  | .conditions => "if_conditions"
  | .once => "once"
  | .key => "key"
  | .ref => "ref"
  | .refInFor => "ref_in_for"
  | .slotTarget => "slot_target"
  | .slotTargetDynamic => "slot_target_dynamic"
  | .slotScope => "slot_scope"
  | .scopedSlots => "scoped_slots"
  | .slotName => "slot_name"
  | .component => "component"
  | .staticClass => "static_class"
  | .classBinding => "class_binding"
  | .staticStyle => "static_style"
  | .styleBinding => "style_binding"
  | .events => "events"
  | .nativeEvents => "native_events"
  | .props => "props"
  | .attrs => "attrs"
  | .dynamicAttrs => "dynamic_attrs"
  | .directives => "directives"
  | .model => "model"
  | .inlineTemplate => "inline_template"
  | .plain => "plain"
  | .processed => "processed"
  | .hasBindings => "has_bindings"
  | .wrapData => "wrap_data"
  | .wrapListeners => "wrap_listeners"

/-- Whether a field of an element at `span` holds something: a value that was written, a list that
is not empty, a switch that is on. -/
def holds (span : Span) (e : Element) : Field → Bool
  | .start => span.start.present
  | .stop => span.stop.present
  | .tag => e.tag.present
  | .ns => e.ns.present
  | .attrsList => !e.attrsList.isEmpty
  | .attrsMap => !e.attrsMap.isEmpty
  | .rawAttrsMap => !e.rawAttrsMap.isEmpty
  | .children => !e.children.isEmpty
  | .pre => e.pre.truthy
  | .forSource => e.forSource.present
  | .forAlias => e.forAlias.present
  | .iterator1 => e.iterator1.present
  | .iterator2 => e.iterator2.present
  | .ifExpr => e.ifExpr.present
  | .elseIf => e.elseIf.present
  | .isElse => e.isElse.truthy
  | .conditions => !e.conditions.isEmpty
  | .once => e.once.truthy
  | .key => e.key.present
  | .ref => e.ref.present
  | .refInFor => e.refInFor.truthy
  | .slotTarget => e.slotTarget.present
  | .slotTargetDynamic => e.slotTargetDynamic.truthy
  | .slotScope => e.slotScope.present
  | .scopedSlots => !e.scopedSlots.isEmpty
  | .slotName => e.slotName.present
  | .component => e.component.present
  | .staticClass => e.staticClass.present
  | .classBinding => e.classBinding.present
  | .staticStyle => e.staticStyle.present
  | .styleBinding => e.styleBinding.present
  | .events => !e.events.isEmpty
  | .nativeEvents => !e.nativeEvents.isEmpty
  | .props => !e.props.isEmpty
  | .attrs => !(e.attrs.getD []).isEmpty
  | .dynamicAttrs => !(e.dynamicAttrs.getD []).isEmpty
  | .directives => !e.directives.isEmpty
  | .model => e.model.isSome
  | .inlineTemplate => e.inlineTemplate.truthy
  | .plain => e.plain.truthy
  | .processed => e.processed.truthy
  | .hasBindings => e.hasBindings.truthy
  | .wrapData => e.wrapData.isSome
  | .wrapListeners => e.wrapListeners.isSome

end Field

/-- The fields of an element that hold something. -/
def Element.populated (e : Element) (span : Span) : List Field :=
  Field.all.filter (Field.holds span e)

end TemplateCompiler
