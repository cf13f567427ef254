-- SUMMARY: How loudly a rule reports.
import TypeStyle.Text.Blank

/-! # Severities and levels

A report has a severity. A rule has a level: the severity of its reports, or off. -/

namespace TypeStyle

inductive Severity where
  | error
  | warning
  | note
  deriving DecidableEq, Repr

def Severity.text : Severity → String
  | error => "error"
  | warning => "warning"
  | note => "note"

inductive Level where
  | off
  | note
  | warning
  | error
  deriving DecidableEq, Repr

namespace Level

def severity? : Level → Option Severity
  | off => none
  | note => some .note
  | warning => some .warning
  | error => some .error

def text : Level → String
  | off => "off"
  | note => "note"
  | warning => "warning"
  | error => "error"

/-- Reads a level, under any of its names. -/
def ofText? (s : String) : Option Level :=
  match Text.lower (Text.trim s) with
  | "off" | "none" | "silent" => some off
  | "note" | "info" | "suggestion" => some note
  | "warning" | "warn" => some warning
  | "error" => some error
  | _ => none

end Level

end TypeStyle
