-- SUMMARY: Syntax trees with their layout: looking nodes up, finding sites, and retyping one site.
import TypeStyle.Layout.Page

/-! # Syntax trees

A tree is never changed: `SyntaxTree.retype` gives a new one, in which one slot
holds another type and every other node keeps its identity. The layout is kept
with the tree, and is always that of its statements. -/

namespace TypeStyle

structure SyntaxTree where
  items : List Stmt
  tables : Tables
  supply : NodeSupply
  layout : Layout := .of tables items
  layout_eq : layout = .of tables items := by rfl

/-- A syntax error and its place. -/
structure Fault where
  span : Span
  message : String
  deriving DecidableEq, Repr

/-- A tree after the type of one site was replaced. -/
structure Retyped where
  tree : SyntaxTree
  old : TypeExpr
  new : TypeExpr

/-- The tables with another type in the slot of site `id`. -/
def Tables.setSlot (t : Tables) (id : NodeId) (slot : TypeExpr) : Tables :=
  { t with sites := t.sites.map fun s => if s.id = id then { s with slot } else s }

namespace SyntaxTree

def source (t : SyntaxTree) : String := t.layout.source

def site? (t : SyntaxTree) (id : NodeId) : Option Site := t.tables.site? id

def expr? (t : SyntaxTree) (id : ExprId) : Option Expr := t.tables.expr? id

/-- The namespaces imported at the top of the tree. -/
def imports (t : SyntaxTree) : List String :=
  t.items.filterMap fun
    | .usingNamespace name => some name
    | _ => none

/-! ## Places -/

/-- The text under `span`, empty if the span has no place in the source. -/
def text (t : SyntaxTree) (span : Span) : String :=
  (Text.slice? t.source span).getD ""

/-- The span of a site, slot or declarator. A node that is written several times
    is where it is written last. -/
def spanOf (t : SyntaxTree) (id : NodeId) : Option Span :=
  (t.layout.regions.filterMap fun r => if r.mark.node? = some id then some r.span else none).getLast?

/-- The span of an expression of the tree; the dummy span if it is not written. -/
def exprSpan (t : SyntaxTree) (id : ExprId) : Option Span :=
  if id.index < t.tables.exprs.size then
    let spans := t.layout.regions.filterMap fun r => if r.mark = .expr id then some r.span else none
    some (spans.getLast?.getD .dummy)
  else
    none

/-- The sites as they are written, from left to right, an outer site before the
    sites inside it. -/
def sites (t : SyntaxTree) : List Site :=
  t.layout.regions.filterMap fun r =>
    match r.mark with
    | .site id => t.site? id
    | _ => none

def faults (t : SyntaxTree) : List Fault :=
  t.layout.regions.filterMap fun r =>
    match r.mark with
    | .fault message => some ⟨r.span, message⟩
    | _ => none

def hasFaultIn (t : SyntaxTree) (span : Span) : Bool :=
  t.faults.any fun fault => span.containsSpan fault.span

/-- The written sites with their spans. -/
def placedSites (t : SyntaxTree) : List (Site × Span) :=
  t.sites.filterMap fun s => (t.spanOf s.id).map fun span => (s, span)

/-- The shorter of two placed sites, the first if neither is. -/
def shorter (best : Option (Site × Span)) (next : Site × Span) :
    Except ReversedSpan (Option (Site × Span)) :=
  match best with
  | none => .ok (some next)
  | some best => do
    if (← next.2.length) < (← best.2.length) then
      return some next
    else
      return some best

/-- The site written exactly at `span`, or else the innermost site around it. -/
def siteAt (t : SyntaxTree) (span : Span) : Except ReversedSpan (Option Site) :=
  match t.placedSites.find? fun (_, placed) => placed = span with
  | some (s, _) => .ok (some s)
  | none => do
    let around := t.placedSites.filter fun (_, placed) => placed.containsSpan span
    return (← around.foldlM shorter none).map Prod.fst

/-! ## Retyping -/

/-- Puts `type` into the slot of site `id`, with the trivia of the type that was
    there and with fresh identities. -/
def retype (t : SyntaxTree) (id : NodeId) (type : TypeExpr) : Option Retyped := do
  let site ← t.site? id
  let (new, supply) := (type.withTriviaOf site.slot).attach t.supply
  return { tree := { items := t.items, tables := t.tables.setSlot id new, supply }
           old := site.slot
           new }

theorem retype_isSome_iff {t : SyntaxTree} {id : NodeId} {type : TypeExpr} :
    (t.retype id type).isSome = true ↔ (t.site? id).isSome = true := by
  cases h : t.site? id <;> simp [retype, h]

end SyntaxTree

end TypeStyle
