import TemplateCompiler.Diagnostic.Basic
import TemplateCompiler.Json.Inspect

/-!
# Log records

What the compiler says about its own work, beside the diagnostics of a template.
-/

namespace TemplateCompiler

inductive LogLevel where
  | debug
  | info
  | warning
  deriving DecidableEq, Repr

/-- The part of the compiler that a record comes from. -/
inductive LogOrigin where
  | loader
  | analysis
  | generator
  | environment
  deriving DecidableEq, Repr

inductive LogRecord where
  | ignoredKeys (keys : List String) (path : String)
  | loaded (nodes : Nat)
  | staticRoots (count : Nat)
  | compiling (nodes : Nat)
  | generated (functions errors tips : Nat)
  | reported (d : Diagnostic)
  | unheard (w : Warning)
  deriving DecidableEq, Repr

namespace LogRecord

def level : LogRecord → LogLevel
  | .reported _ => .warning
  | .unheard w => if w.tip then .info else .warning
  | _ => .debug

def origin : LogRecord → LogOrigin
  | .ignoredKeys _ _ | .loaded _ => .loader
  | .staticRoots _ => .analysis
  | .unheard _ => .generator
  | .compiling _ | .generated _ _ _ | .reported _ => .environment

def message : LogRecord → String
  | .ignoredKeys keys path => "Ignoring unknown keys " ++ Json.inspectNames keys ++ " at " ++ path
  | .loaded n => "Loaded tree with " ++ toString n ++ " nodes"
  | .staticRoots n => "Static analysis marked " ++ toString n ++ " static root(s)"
  | .compiling n => "Compiling tree with " ++ toString n ++ " nodes"
  | .generated f e t =>
    "Generated render code: " ++ toString f ++ " static render fn(s), " ++ toString e ++
      " error(s), " ++ toString t ++ " tip(s)"
  | .reported d => d.summary
  | .unheard w => (if w.tip then "Template tip: " else "Template error: ") ++ w.message

end LogRecord

end TemplateCompiler
