-- SUMMARY: Trees under construction.
import TypeStyle.Tree.Basic

/-! # Drafts

A draft is a tree that is still being put together. Bodies are opened and closed
one inside the other, and a statement goes to the innermost open body. A draft
can be finished at any time: the statements of bodies that are still open then
follow those of the body around them, and what opened them is dropped. -/

namespace TypeStyle

/-- What a body belongs to. -/
inductive Header where
  | classDef (name : String) (typeParams : List String)
  | method (returns name : String)
  | foreach (site : NodeId) (collection : ExprId)
  | branch (condition : ExprId)
  deriving DecidableEq, Repr

def Header.close (body : List Stmt) : Header → Stmt
  | classDef name typeParams => .classDef name typeParams body
  | method returns name => .method returns name body
  | foreach site collection => .foreach site collection body
  | branch condition => .branch condition body

/-- An open body. -/
structure Frame where
  header : Header
  body : List Stmt
  deriving Repr

structure Draft where
  items : List Stmt
  /-- The open bodies, the innermost first. -/
  frames : List Frame
  tables : Tables
  supply : NodeSupply
  deriving Repr

namespace Draft

def empty : Draft := ⟨[], [], ⟨[], #[]⟩, .initial⟩

/-- Adds a statement to the innermost open body. -/
def push (d : Draft) (stmt : Stmt) : Draft :=
  match d.frames with
  | [] => { d with items := d.items ++ [stmt] }
  | f :: fs => { d with frames := { f with body := f.body ++ [stmt] } :: fs }

def openBody (d : Draft) (header : Header) : Draft :=
  { d with frames := ⟨header, []⟩ :: d.frames }

/-- Closes the innermost body; without an open body there is nothing to close. -/
def closeBody (d : Draft) : Draft :=
  match d.frames with
  | [] => d
  | f :: fs => push { d with frames := fs } (f.header.close f.body)

def finish (d : Draft) : SyntaxTree :=
  { items := d.items ++ d.frames.reverse.flatMap Frame.body
    tables := d.tables
    supply := d.supply }

/-! ## Sites and expressions -/

def addExpr (d : Draft) (e : Expr) : ExprId × Draft :=
  (⟨d.tables.exprs.size⟩,
    { d with tables := { d.tables with exprs := d.tables.exprs.push e } })

/-- Adds a site. Its type takes its identities before the site does, and gets a
    space after it if nothing else follows. -/
def addSite (d : Draft) (type : TypeExpr) (shape : Shape) : NodeId × Draft :=
  let (slot, supply) := type.attach d.supply
  let (id, supply) := supply.fresh
  (id, { d with
    tables := { d.tables with sites := d.tables.sites ++ [⟨id, slot.spacedAfter, shape⟩] }
    supply })

/-- Declarators with fresh identities. -/
def freshDeclarators : List (String × Option ExprId) → NodeSupply → List Declarator × NodeSupply
  | [], s => ([], s)
  | (name, init) :: rest, s =>
    let (id, s) := s.fresh
    let (declarators, s) := freshDeclarators rest s
    (⟨id, name, init⟩ :: declarators, s)

/-- Adds a declaration of variables, whose declarators take their identities
    first, as a statement. -/
def declare (d : Draft) (holder : Holder) (type : TypeExpr)
    (vars : List (String × Option ExprId)) : NodeId × Draft :=
  let (declarators, supply) := freshDeclarators vars d.supply
  let (id, d) := addSite { d with supply } type (.«variables» holder declarators)
  (id, d.push (.declaration id))

/-- Opens the body of a loop over `collection`, with a site of the given shape. -/
def openForeach (d : Draft) (type : TypeExpr) (shape : Shape) (collection : ExprId) :
    NodeId × Draft :=
  let (id, d) := d.addSite type shape
  (id, d.openBody (.foreach id collection))

def deconstruct (d : Draft) (type : TypeExpr) (parts : Pattern) (value : ExprId) :
    NodeId × Draft :=
  let (id, d) := d.addSite type (.pattern parts)
  (id, d.push (.deconstruction id value))

/-- Adds a call of the function `name`, the name before the call. -/
def addCall (d : Draft) (name : String) (args : List Arg) : ExprId × Draft :=
  let (callee, d) := d.addExpr (.ident name)
  d.addExpr (.call callee args)

/-- Adds an out argument that declares the variable `name`. -/
def addOutArg (d : Draft) (type : TypeExpr) (name : String) : Arg × Draft :=
  let (id, d) := d.addSite type (.outArg name)
  (.outSite id, d)

end Draft

end TypeStyle
