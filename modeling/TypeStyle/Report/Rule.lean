-- SUMMARY: The two rules and what is said about them.
import TypeStyle.Report.Severity

/-! # Rules

Each rule asks for one of the two forms of a declaration's type. -/

namespace TypeStyle

inductive Rule where
  /-- Write the placeholder: the initializer shows the type. -/
  | useImplicit
  /-- Write the type: nothing else shows it. -/
  | useExplicit
  deriving DecidableEq, Repr

namespace Rule

def all : List Rule := [useImplicit, useExplicit]

/-- The place of a rule among the rules. -/
def rank : Rule → Nat
  | useImplicit => 1
  | useExplicit => 2

def code : Rule → String
  | useImplicit => "Y0001"
  | useExplicit => "Y0002"

def name : Rule → String
  | useImplicit => "UseImplicitType"
  | useExplicit => "UseExplicitType"

def title : Rule → String
  | useImplicit => "Use implicit type"
  | useExplicit => "Use explicit type"

def message : Rule → String
  | useImplicit => "use `var` instead of an explicit type"
  | useExplicit => "use an explicit type instead of `var`"

def description : Rule → String
  | useImplicit =>
    "The type is apparent from the initializer, so the declaration does not need to spell it out."
  | useExplicit =>
    "The type is not apparent from the declaration, so it should be written out."

def category : String := "Style"

def defaultLevel (_ : Rule) : Level := .warning

def isEnabledByDefault (r : Rule) : Bool := r.defaultLevel ≠ .off

/-- Reads a rule from its code or its name, without regard to case. -/
def ofText? (s : String) : Option Rule :=
  all.find? fun r => Text.sameIgnoringCase r.code s || Text.sameIgnoringCase r.name s

end Rule

end TypeStyle
