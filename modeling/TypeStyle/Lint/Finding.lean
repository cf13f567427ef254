-- SUMMARY: What a scan finds, and the report on it.
import TypeStyle.Report.Diagnostic
import TypeStyle.Syntax.TypeExpr

/-! # Findings -/

namespace TypeStyle

/-- A site that breaks a rule. The identity of its slot tells whether the type in
    it was replaced since. -/
structure Finding where
  site : NodeId
  slot : NodeId
  span : Span
  slotSpan : Span
  rule : Rule
  deriving DecidableEq, Repr

/-- The report on a finding. The placeholder can be offered at once; a type has to
    be resolved first. -/
def Finding.diagnostic (f : Finding) (severity : Severity) : Diagnostic where
  rule := f.rule
  severity := severity
  message := f.rule.message
  site := f.span
  slot := f.slotSpan
  notes :=
    match f.rule with
    | .useImplicit => []
    | .useExplicit => ["the type is not apparent from the declaration"]
  fix :=
    match f.rule with
    | .useImplicit => some (f.rule.quickFix ⟨f.slotSpan, TypeExpr.placeholder⟩)
    | .useExplicit => none

end TypeStyle
