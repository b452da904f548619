import TemplateCompiler.Proofs.Generator.Coupled
import TemplateCompiler.Proofs.Json.RoundTrip

/-!
# Literals

What a literal in generated code denotes. The printer escapes the characters that a string literal may not hold,
and the generator then writes the line separators by number wherever they stand in the printed text. A reader of
the result finds the value that was printed.
-/

namespace TemplateCompiler

open Text

namespace Json

/-- A literal holds neither line separators nor characters below the space. -/
theorem forall_escapeSeparators (v : Json) :
    ∀ c ∈ (escapeSeparators v.compact).toList, c ≠ '\u2028' ∧ c ≠ '\u2029' ∧ 32 ≤ c.toNat := by
  have hlow : ∀ c ∈ compactChars v, 32 ≤ c.toNat := by
    refine forall_compactChars (fun c hc => ?_) v fun _ _ hc => hc
    simp only [isPrintable, Bool.and_eq_true, decide_eq_true_eq] at hc
    exact hc.1
  intro d hd
  rw [escapeSeparators, compact, String.toList_ofList, String.toList_ofList] at hd
  obtain ⟨c, hc, hd⟩ := List.mem_flatMap.mp hd
  unfold separatorChars at hd
  split at hd
  · simp only [List.mem_cons, List.not_mem_nil, or_false] at hd
    rcases hd with rfl | rfl | rfl | rfl | rfl | rfl <;> decide
  split at hd
  · simp only [List.mem_cons, List.not_mem_nil, or_false] at hd
    rcases hd with rfl | rfl | rfl | rfl | rfl | rfl <;> decide
  · next hline hparagraph =>
    rw [List.mem_singleton.mp hd]
    exact ⟨hline, hparagraph, hlow c hc⟩

theorem parse_compact {v : Json} (hv : v.isWhole = true) : parse v.compact = some v := by
  have h := parse_spelled faithful_singleton hv
  rw [List.flatMap_singleton'] at h
  exact h

theorem parse_escapeSeparators {v : Json} (hv : v.isWhole = true) : parse (escapeSeparators v.compact) = some v := by
  have h := parse_spelled faithful_separatorChars hv
  rw [escapeSeparators, compact, String.toList_ofList]
  exact h

end Json

namespace Generator

theorem outcome_nodeAt {i : Nat} {g : Generation} {n : Node} (hn : g.tree.node? i = some n) :
    outcome (nodeAt i) g = (.ok n, g) := by
  rw [nodeAt, outcome_bind, outcome_get]
  simp only [hn, outcome_pure]

/-- What is emitted for a text node: one call, whose argument is the literal of the text. -/
theorem outcome_emitNode_text {self : Emit} {i : Nat} {g : Generation} {n : Node} {v : Json}
    (hn : g.tree.node? i = some n) (hv : n.content = .text v) : outcome (emitNode self i) g =
      (.ok (Code.callHelper .text (Code.text (Json.escapeSeparators v.compact))), g) := by
  rw [emitNode, outcome_bind_of_ok (outcome_nodeAt hn), hv]
  rfl

/-- A value with separators, quotes, backslashes and controls in its strings and keys. -/
def sampleLiteral : Json :=
  .object [("line\u2028\"end\"", .array [.int (-120), .string "a\\\u2029\n\x01\\u2028", .null, .object []]),
    ("\\", .bool true), ("a", .string "\x1f\u2029\\")]

/-- The sample as the text of a node. -/
def quotation : Generation where
  tree := { nodes := #[
    { content := .element { tag := "q", children := [1] } },
    { parent := some 0, content := .text sampleLiteral }] }

end Generator

end TemplateCompiler
