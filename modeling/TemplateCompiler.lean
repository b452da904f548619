import TemplateCompiler.Analysis
import TemplateCompiler.Code.Basic
import TemplateCompiler.Code.Lift
import TemplateCompiler.Diagnostic.Basic
import TemplateCompiler.Diagnostic.Snippet
import TemplateCompiler.Diagnostic.Style
import TemplateCompiler.Environment
import TemplateCompiler.Failure
import TemplateCompiler.Generator.Basic
import TemplateCompiler.Generator.Children
import TemplateCompiler.Generator.Data
import TemplateCompiler.Generator.Element
import TemplateCompiler.Generator.Placement
import TemplateCompiler.Generator.Slots
import TemplateCompiler.Generator.Stages
import TemplateCompiler.Helper
import TemplateCompiler.Json.Basic
import TemplateCompiler.Json.Inspect
import TemplateCompiler.Json.Parser
import TemplateCompiler.Json.Printer
import TemplateCompiler.Json.Shortest
import TemplateCompiler.Listener.Emit
import TemplateCompiler.Listener.Grammar
import TemplateCompiler.Log
import TemplateCompiler.ModelPath
import TemplateCompiler.Plugin.Basic
import TemplateCompiler.Plugin.Model
import TemplateCompiler.Plugin.Standard
import TemplateCompiler.Registry
import TemplateCompiler.Table
import TemplateCompiler.Tag
import TemplateCompiler.Text.Blank
import TemplateCompiler.Text.Capital
import TemplateCompiler.Text.Hidden
import TemplateCompiler.Text.Lines
import TemplateCompiler.Text.Units
import TemplateCompiler.Text.Word
import TemplateCompiler.Tree.Basic
import TemplateCompiler.Tree.Binding
import TemplateCompiler.Tree.Builder
import TemplateCompiler.Tree.Element
import TemplateCompiler.Tree.Field
import TemplateCompiler.Tree.Loader
import TemplateCompiler.Tree.Shared
import TemplateCompiler.Tree.Walk
import TemplateCompiler.Proofs.Analysis.Passes
import TemplateCompiler.Proofs.Code.Lift
import TemplateCompiler.Proofs.Code.Marked
import TemplateCompiler.Proofs.Code.Plain
import TemplateCompiler.Proofs.Code.References
import TemplateCompiler.Proofs.Code.Unhoisted
import TemplateCompiler.Proofs.Environment.Compile
import TemplateCompiler.Proofs.Environment.Inlining
import TemplateCompiler.Proofs.Environment.Scope
import TemplateCompiler.Proofs.Generator.Coupled
import TemplateCompiler.Proofs.Generator.Coupling
import TemplateCompiler.Proofs.Generator.CouplingData
import TemplateCompiler.Proofs.Generator.Lifts
import TemplateCompiler.Proofs.Generator.Discipline
import TemplateCompiler.Proofs.Generator.Exact
import TemplateCompiler.Proofs.Generator.Hoistless
import TemplateCompiler.Proofs.Generator.Watch
import TemplateCompiler.Proofs.Plugin.Frame
import TemplateCompiler.Proofs.Tree.Links
import TemplateCompiler.Proofs.Tree.Loaded
import TemplateCompiler.Proofs.Tree.Regions
import TemplateCompiler.Proofs.Tree.Unflag
import TemplateCompiler.Proofs.Analysis.Repeated
import TemplateCompiler.Proofs.Environment.Reuse
import TemplateCompiler.Proofs.Analysis.Constants
import TemplateCompiler.Proofs.Tree.Built
import TemplateCompiler.Proofs.Generator.Once
import TemplateCompiler.Proofs.Text.Alphabet
import TemplateCompiler.Proofs.Json.Letters
import TemplateCompiler.Proofs.Json.RoundTrip
import TemplateCompiler.Proofs.Json.Balanced
import TemplateCompiler.Proofs.Plugin.MemberPath
import TemplateCompiler.Proofs.Plugin.Bracketed
import TemplateCompiler.Proofs.Code.BracketedParts
import TemplateCompiler.Proofs.Generator.Bracketed
import TemplateCompiler.Proofs.Environment.Balanced
import TemplateCompiler.Proofs.Tree.References
import TemplateCompiler.Proofs.Tree.Reading
import TemplateCompiler.Proofs.Tree.Adding
import TemplateCompiler.Proofs.Tree.Arena
import TemplateCompiler.Proofs.Tree.Walked
import TemplateCompiler.Proofs.Generator.Tasks
import TemplateCompiler.Proofs.Generator.Legible
import TemplateCompiler.Proofs.Generator.Ends
import TemplateCompiler.Proofs.Generator.Descent
import TemplateCompiler.Proofs.Plugin.Legible
import TemplateCompiler.Proofs.Analysis.Ends
import TemplateCompiler.Proofs.Environment.Termination
import TemplateCompiler.Proofs.Environment.Total
import TemplateCompiler.Proofs.Generator.Alike
import TemplateCompiler.Proofs.Analysis.Alike
import TemplateCompiler.Proofs.Environment.Flags
import TemplateCompiler.Proofs.Tree.Outlets
import TemplateCompiler.Proofs.Tree.Unique
import TemplateCompiler.Proofs.Code.Marks
import TemplateCompiler.Proofs.Generator.Yields
import TemplateCompiler.Proofs.Generator.UpdateHint
import TemplateCompiler.Proofs.Generator.Rebound
import TemplateCompiler.Proofs.Generator.Marks
import TemplateCompiler.Proofs.Generator.Ways
import TemplateCompiler.Proofs.Generator.Forwarded
import TemplateCompiler.Proofs.Generator.HoistCount
import TemplateCompiler.Proofs.Environment.Hoisting
import TemplateCompiler.Proofs.Text.Stencil
import TemplateCompiler.Proofs.Listener.Steady
import TemplateCompiler.Proofs.Naming.Uniform
import TemplateCompiler.Proofs.Tree.Written
import TemplateCompiler.Proofs.Code.Drawn
import TemplateCompiler.Proofs.Code.DrawnParts
import TemplateCompiler.Proofs.Plugin.Drawn
import TemplateCompiler.Proofs.Generator.Kept
import TemplateCompiler.Proofs.Generator.Drawn
import TemplateCompiler.Proofs.Environment.Naming
import TemplateCompiler.Proofs.Analysis.Roots
import TemplateCompiler.Proofs.Generator.Flattening
import TemplateCompiler.Proofs.Generator.Chain
import TemplateCompiler.Proofs.Generator.Literals
import TemplateCompiler.Proofs.Generator.Nesting
import TemplateCompiler.Proofs.Tree.Spelled
import TemplateCompiler.Proofs.Plugin.Spelled
import TemplateCompiler.Proofs.Code.Spelled
import TemplateCompiler.Proofs.Code.SpelledParts
import TemplateCompiler.Proofs.Generator.Verbatim
import TemplateCompiler.Proofs.Generator.Admitted
import TemplateCompiler.Proofs.Environment.Separators
import TemplateCompiler.Proofs.Environment.Templates
import TemplateCompiler.Proofs.Plugin.Index
import TemplateCompiler.Proofs.Plugin.Target
import TemplateCompiler.Proofs.Listener.Languages
import TemplateCompiler.Proofs.Listener.Guards
import TemplateCompiler.Proofs.Listener.Store
import TemplateCompiler.Proofs.Listener.Shared
import TemplateCompiler.Proofs.Listener.Kinds
import TemplateCompiler.Proofs.Generator.Dataless
import TemplateCompiler.Proofs.Tree.Refused
import TemplateCompiler.Proofs.Generator.SlotKeys
import TemplateCompiler.Proofs.Diagnostic.Span
import TemplateCompiler.Proofs.Diagnostic.Colors
import TemplateCompiler.Proofs.Environment.Registration
import TemplateCompiler.Proofs.Generator.Recalled
import TemplateCompiler.Proofs.Tree.Preorder
