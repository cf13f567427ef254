-- SUMMARY: Spelling a resolved type as a written one.
import TypeStyle.Syntax.TypeExpr
import TypeStyle.Types.Ty

/-! # Spelling types

`Ty.spell` writes a type with simple names and lists the namespaces that these
names need. A type with a nameless part cannot be written; the namespaces are
then those met before that part. -/

namespace TypeStyle

/-- A type that has no name to write. -/
structure Nameless where
  ty : Ty
  deriving DecidableEq, Repr

def Nameless.message (n : Nameless) : String :=
  s!"type `{n.ty.text}` cannot be named"

/-- A written form, or the part that cannot be written, and the namespaces met on
    the way, in order and with repetitions. -/
structure Spelling (α : Type) where
  namespaces : List String
  result : Except Nameless α

namespace Ty

mutual

def spell : Ty → Spelling TypeExpr
  | predefined p => ⟨[], .ok (.keyword {} p.keyword)⟩
  | dynamic => ⟨[], .ok (.keyword {} "dynamic")⟩
  | named space name args =>
    let spelled := spellList args
    ⟨space.toList ++ spelled.namespaces, spelled.result.map (.generic name)⟩
  | array element =>
    let spelled := spell element
    ⟨spelled.namespaces, spelled.result.map (.array {})⟩
  | nullable inner =>
    let spelled := spell inner
    ⟨spelled.namespaces, spelled.result.map (.nullable {})⟩
  | tuple elements =>
    let spelled := spellList elements
    ⟨spelled.namespaces, spelled.result.map (.tuple {})⟩
  | anonymous => ⟨[], .error ⟨.anonymous⟩⟩
  | error => ⟨[], .error ⟨.error⟩⟩

def spellList : List Ty → Spelling (List TypeExpr)
  | [] => ⟨[], .ok []⟩
  | t :: ts =>
    let first := spell t
    match first.result with
    | .error nameless => ⟨first.namespaces, .error nameless⟩
    | .ok type =>
      let rest := spellList ts
      ⟨first.namespaces ++ rest.namespaces, rest.result.map (type :: ·)⟩

end

end Ty

end TypeStyle
