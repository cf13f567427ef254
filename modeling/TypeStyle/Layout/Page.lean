-- SUMMARY: The page of a whole tree: its tables of nodes filled into its statements.
import TypeStyle.Layout.Skeleton

/-! # Laying out a tree

A tree keeps its sites and expressions in tables. Filling the references of its
statements from the tables gives its page. A reference that names nothing is
written as `<missing>`, a fault. References may lead in a circle; a tree whose
statements reach a circle has no page. -/

namespace TypeStyle

/-- The sites and expressions of a tree. -/
structure Tables where
  sites : List Site
  exprs : Array Expr
  deriving Repr

namespace Tables

def site? (t : Tables) (id : NodeId) : Option Site :=
  t.sites.find? fun s => s.id = id

def expr? (t : Tables) (id : ExprId) : Option Expr :=
  t.exprs[id.index]?

/-- What is written for a reference that names nothing. -/
def missing (message : String) : Doc Ref :=
  .mark (.fault message) (.text "<missing>")

/-- The node that a reference names, as it is written. -/
def doc (t : Tables) : Ref → Doc Ref
  | .site id =>
    match t.site? id with
    | some s => s.doc
    | none => missing s!"unknown declaration site {id.text}"
  | .expr id =>
    match t.expr? id with
    | some e => .mark (.expr id) e.doc
    | none => missing s!"unknown expression {id.describe}"

/-- The page of a reference, following references at most `depth` deep. -/
def page? (t : Tables) : Nat → Ref → Option Page
  | 0, _ => none
  | depth + 1, r => (t.doc r).expand (t.page? depth)

/-- A depth that every chain of references stays within, unless it goes in a
    circle: a chain without repetition has each node of the tables at most once,
    and one reference at its end that names nothing. -/
def maxDepth (t : Tables) : Nat := t.sites.length + t.exprs.size + 1

/-- The page of the statements `items`. -/
def pageOf? (t : Tables) (items : List Stmt) : Option Page :=
  (Stmt.linesDoc 0 items).expand (t.page? t.maxDepth)

end Tables

/-- The text of a tree with the places of its nodes and faults. -/
structure Layout where
  source : String
  regions : List Region
  deriving Repr

namespace Layout

def ofPage (p : Page) : Layout := ⟨p.render, p.regions 0⟩

/-- The layout of statements over their tables; nothing if they have no page. -/
def of (t : Tables) (items : List Stmt) : Layout :=
  match t.pageOf? items with
  | some p => ofPage p
  | none => ⟨"", []⟩

end Layout

end TypeStyle
