-- SUMMARY: Which rules run, and how loudly.
import TypeStyle.Report.Rule

/-! # Settings

Settings are given as pairs of a key and a value, both read without regard to
case and to the blanks around them. -/

namespace TypeStyle

/-- Which declarations the lint has an opinion on. -/
inductive Policy where
  /-- Ask for the placeholder where the type is apparent. -/
  | implicitOnly
  /-- Also ask for the type wherever it is not apparent. -/
  | implicitOrExplicit
  deriving DecidableEq, Repr

namespace Policy

def text : Policy → String
  | implicitOnly => "implicit-only"
  | implicitOrExplicit => "implicit-or-explicit"

/-- Reads a policy, under any of its names; an underscore counts as a hyphen. -/
def ofText? (s : String) : Option Policy :=
  let normal := (Text.lower (Text.trim s)).toList.map fun c => if c = '_' then '-' else c
  match String.ofList normal with
  | "implicit-only" | "implicit" => some implicitOnly
  | "implicit-or-explicit" | "both" => some implicitOrExplicit
  | _ => none

/-- The rules that a policy can report. -/
def rules : Policy → List Rule
  | implicitOnly => [.useImplicit]
  | implicitOrExplicit => [.useImplicit, .useExplicit]

end Policy

inductive SettingError where
  | unknownPolicy (value : String)
  | unknownLevel (value : String)
  | unknownKey (key : String)
  deriving DecidableEq, Repr

def SettingError.message : SettingError → String
  | unknownPolicy value =>
    s!"unknown ruleset `{value}` (expected `implicit-only` or `implicit-or-explicit`)"
  | unknownLevel value =>
    s!"unknown rule level `{value}` (expected `off`, `note`, `warning` or `error`)"
  | unknownKey key => s!"unknown setting `{key}`"

def Policy.parse (s : String) : Except SettingError Policy :=
  match ofText? s with
  | some policy => .ok policy
  | none => .error (.unknownPolicy s)

def Level.parse (s : String) : Except SettingError Level :=
  match ofText? s with
  | some level => .ok level
  | none => .error (.unknownLevel s)

structure Settings where
  policy : Policy := .implicitOrExplicit
  implicit : Level := .warning
  explicit : Level := .warning
  deriving DecidableEq, Repr

namespace Settings

def level (s : Settings) : Rule → Level
  | .useImplicit => s.implicit
  | .useExplicit => s.explicit

def withLevel (s : Settings) (level : Level) : Rule → Settings
  | .useImplicit => { s with implicit := level }
  | .useExplicit => { s with explicit := level }

def isEnabled (s : Settings) (r : Rule) : Bool := s.level r ≠ .off

/-- Changes one setting: the policy, or the level of a rule named by its code or
    its name. -/
def set (s : Settings) (key value : String) : Except SettingError Settings :=
  let key := Text.trim key
  if Text.sameIgnoringCase key "ruleset" then
    (Policy.parse value).map fun policy => { s with policy }
  else
    match Rule.ofText? key with
    | some r => (Level.parse value).map fun level => s.withLevel level r
    | none => .error (.unknownKey key)

/-- The settings spelled out. -/
def describe (s : Settings) : String :=
  let policy := match s.policy with
    | .implicitOnly => "ImplicitOnly"
    | .implicitOrExplicit => "ImplicitOrExplicit"
  let level : Level → String
    | .off => "Off"
    | .note => "Note"
    | .warning => "Warning"
    | .error => "Error"
  s!"LintConfig \x7b ruleset: {policy}, implicit: {level s.implicit}, explicit: {level s.explicit} \x7d"

end Settings

end TypeStyle
