-- SUMMARY: Reports on declaration sites and the fixes offered with them.
import TypeStyle.Report.Rule
import TypeStyle.Text.Edit

/-! # Diagnostics -/

namespace TypeStyle

/-- A fix offered to the user. -/
structure QuickFix where
  title : String
  /-- Fixes with the same key can be applied together. -/
  key : Option String := none
  edits : List Edit
  isPreferred : Bool := false
  deriving DecidableEq, Repr

def QuickFix.apply (fix : QuickFix) (source : String) : Option String :=
  Edit.applyAll source fix.edits

/-- The fix that the rule offers by itself: one edit, under the name of the rule. -/
def Rule.quickFix (r : Rule) (edit : Edit) : QuickFix where
  title := r.title
  key := some r.name
  edits := [edit]
  isPreferred := true

structure Diagnostic where
  rule : Rule
  severity : Severity
  message : String := ""
  /-- The whole declaration. -/
  site : Span
  /-- The type written in it. -/
  slot : Span
  notes : List String := []
  /-- The fix, when it needs no type to be resolved. -/
  fix : Option QuickFix := none
  deriving DecidableEq, Repr

namespace Diagnostic

/-- The lines of a report: what, where, then notes and fix. -/
def lines (d : Diagnostic) : List String :=
  [s!"{d.severity.text} [{d.rule.code}]: {d.message}",
    s!"  --> {d.site.text} (type at {d.slot.text})"] ++
    d.notes.map (fun note => s!"  = note: {note}") ++
    d.fix.toList.map fun fix => s!"  = fix: {fix.title}"

def text (d : Diagnostic) : String :=
  String.intercalate "\n" d.lines

end Diagnostic

end TypeStyle
