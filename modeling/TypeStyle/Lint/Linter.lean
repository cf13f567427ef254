-- SUMMARY: Judging sites, scanning trees and reporting what was found.
import TypeStyle.Lint.Finding
import TypeStyle.Lint.Preference

/-! # Scanning

A `Linter` judges the sites of a tree one by one, in the order of the source. It
can be stopped between two sites; what was found until then stays. -/

namespace TypeStyle

structure Linter where
  resolver : Resolver
  settings : Settings := {}
  /-- Whether the host wants the scan to stop, given the expressions whose types
      the scan has asked for so far; without it a scan always runs to its end. -/
  stop : Option (List ExprId → Bool) := none

namespace Linter

/-- The finding that a placed site breaks `rule`. -/
def finding? (t : SyntaxTree) (s : Site) (rule : Rule) : Option Finding := do
  let span ← t.spanOf s.id
  let slotSpan ← t.spanOf s.slot.id
  return ⟨s.id, s.slot.id, span, slotSpan, rule⟩

/-- Judges one site. A finding is made only under an enabled rule. -/
def judge (l : Linter) (t : SyntaxTree) (s : Site) : Option Finding :=
  match l.settings.policy.judge l.resolver t s with
  | none => none
  | some rule => if l.settings.isEnabled rule then finding? t s rule else none

def isStopped (l : Linter) (asked : List ExprId) : Bool :=
  match l.stop with
  | some stop => stop asked
  | none => false

/-- Judges sites until the linter is stopped, when the types of `asked` have been
    asked for already. -/
def scanSites (l : Linter) (t : SyntaxTree) (asked : List ExprId) : List Site → List Finding
  | [] => []
  | s :: rest =>
    if l.isStopped asked then
      []
    else
      (l.judge t s).toList ++
        l.scanSites t (asked ++ (l.settings.policy.asks? t s).toList) rest

def scan (l : Linter) (t : SyntaxTree) : List Finding :=
  l.scanSites t [] t.sites

/-- The report on a finding at the level of its rule; none if the rule is off. -/
def report? (l : Linter) (f : Finding) : Option Diagnostic :=
  (l.settings.level f.rule).severity?.map f.diagnostic

/-- The reports on everything that a scan finds. -/
def reports (l : Linter) (t : SyntaxTree) : List Diagnostic :=
  (l.scan t).filterMap l.report?

/-- The linter spelled out. -/
def describe (l : Linter) : String :=
  s!"Classifier \x7b ruleset: \"{l.settings.policy.text}\", " ++
    s!"config: {l.settings.describe}, cancellable: {l.stop.isSome}, .. \x7d"

theorem eq_of_finding? {t : SyntaxTree} {s : Site} {rule : Rule} {f : Finding}
    (h : finding? t s rule = some f) : f.rule = rule ∧ f.site = s.id ∧ f.slot = s.slot.id := by
  simp only [finding?, Option.bind_eq_bind, Option.bind_eq_some_iff, Option.pure_def,
    Option.some.injEq] at h
  obtain ⟨span, _, slotSpan, _, rfl⟩ := h
  exact ⟨rfl, rfl, rfl⟩

theorem rule_of_judge {l : Linter} {t : SyntaxTree} {s : Site} {f : Finding}
    (h : l.judge t s = some f) : l.settings.policy.judge l.resolver t s = some f.rule := by
  unfold judge at h
  split at h
  · cases h
  · next rule hrule =>
    split at h
    · rw [hrule, (eq_of_finding? h).1]
    · cases h

end Linter

end TypeStyle
