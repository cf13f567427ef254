-- SUMMARY: Fixtures: statements in a method, and sites named by their variables.
import TypeStyle.Lint.Repair
import TypeStyle.Tree.Draft

/-! # Fixtures

A fixture is a tree whose statements stand in one method. Its sites are addressed
by the variables they declare, and judged under the default settings. -/

namespace TypeStyle

namespace Draft

/-- Opens the method that a fixture's statements stand in. -/
def openMethod (d : Draft) : Draft :=
  (d.openBody (.classDef "Program" [])).openBody (.method "void" "M")

def closeMethod (d : Draft) : Draft := d.closeBody.closeBody

end Draft

namespace Fixture

/-- The source of a fixture with the given lines as its statements. -/
def source (lines : List String) : String :=
  let body := lines.map fun line => indentation 2 ++ line ++ "\n"
  "class Program \x7b\n    void M() \x7b\n" ++ String.join body ++ "    \x7d\n\x7d\n"

inductive Failure where
  | noSite (name source : String)
  | noFinding (name source : String)
  | fixFailed (error : FixError)
  | unexpectedFindings (findings : List Finding)
  deriving Repr

/-- What is said about a failure that names a variable. -/
def Failure.message? : Failure → Option String
  | noSite name source => some s!"no site declares `{name}` in\n{source}"
  | noFinding name source => some s!"no finding for `{name}` in\n{source}"
  | fixFailed _ | unexpectedFindings _ => none

def linter (r : Resolver) : Linter := { resolver := r }

/-- The first site, in the order of the source, that declares `name`. -/
def siteNamed (t : SyntaxTree) (name : String) : Except Failure Site :=
  match t.sites.find? fun s => s.shape.names.contains name with
  | some s => .ok s
  | none => .error (.noSite name t.source)

def findingNamed (r : Resolver) (t : SyntaxTree) (name : String) :
    Except Failure (Option Finding) := do
  return (linter r).judge t (← siteNamed t name)

/-- Fixes the site that declares `name` as it is judged. -/
def fixNamed (r : Resolver) (t : SyntaxTree) (name : String) : Except Failure Fix := do
  match ← findingNamed r t name with
  | none => .error (.noFinding name t.source)
  | some f => (r.fix t f).mapError .fixFailed

/-- Checks that a scan finds nothing. -/
def expectNoFindings (r : Resolver) (t : SyntaxTree) : Except Failure Unit :=
  match (linter r).scan t with
  | [] => .ok ()
  | findings => .error (.unexpectedFindings findings)

end Fixture

end TypeStyle
