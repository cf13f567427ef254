-- SUMMARY: Linting several units with the same settings.
import TypeStyle.Lint.Linter
import TypeStyle.Text.Quoted

/-! # Batches

Units are linted each on its own; the reports come in the order of the units. -/

namespace TypeStyle

/-- A tree and the resolver that knows its types. -/
structure LintUnit where
  name : String
  tree : SyntaxTree
  resolver : Resolver

structure UnitReport where
  name : String
  findings : List Finding
  diagnostics : List Diagnostic
  deriving Repr

namespace LintUnit

/-- The unit spelled out. -/
def describe (u : LintUnit) : String :=
  s!"Unit \x7b name: {Text.quoted u.name}, sites: {u.tree.tables.sites.length}, .. \x7d"

def lint (settings : Settings) (stop : Option (List ExprId → Bool)) (u : LintUnit) : UnitReport :=
  let l : Linter := { resolver := u.resolver, settings, stop }
  let findings := l.scan u.tree
  { name := u.name, findings, diagnostics := findings.filterMap l.report? }

def lintAll (settings : Settings) (stop : Option (List ExprId → Bool)) (units : List LintUnit) :
    List UnitReport :=
  units.map (lint settings stop)

end LintUnit

end TypeStyle
