-- SUMMARY: Expressions, as far as a declaration's style depends on them.
import TypeStyle.Syntax.TypeExpr

/-! # Expressions

An initializer, a collection, a condition: an `Expr` is one node, and its parts
are named by their identities in the tree's table. Text that is no expression is
kept as `unparsed`. -/

namespace TypeStyle

/-- The features of a string literal. -/
structure StringForm where
  verbatim : Bool
  interpolated : Bool
  raw : Bool
  deriving DecidableEq, Repr

namespace StringForm

/-- Reads the features off the characters before the opening quote. -/
def ofMarker (marker : String) (raw : Bool) : StringForm where
  verbatim := marker.toList.contains '@'
  interpolated := marker.toList.contains '$'
  raw := raw

/-- The features as one number, a bit each. -/
def bits (f : StringForm) : Nat :=
  f.verbatim.toNat + 2 * f.interpolated.toNat + 4 * f.raw.toNat

end StringForm

inductive Operator where
  | add
  | sub
  | mul
  | div
  | eq
  | notEq
  | and
  | or
  | coalesce
  deriving DecidableEq, Repr

namespace Operator

def all : List Operator := [add, sub, mul, div, eq, notEq, and, or, coalesce]

def text : Operator → String
  | add => "+"
  | sub => "-"
  | mul => "*"
  | div => "/"
  | eq => "=="
  | notEq => "!="
  | and => "&&"
  | or => "||"
  | coalesce => "??"

def ofText? (s : String) : Option Operator :=
  all.find? fun op => op.text == s

end Operator

inductive Arg where
  | value (e : ExprId)
  /-- An out argument that names a variable declared elsewhere. -/
  | outExisting (name : String)
  /-- An out argument that declares its variable: a declaration site. -/
  | outSite (site : NodeId)
  deriving DecidableEq, Repr

inductive Expr where
  /-- A string literal; `marker` stands before the opening quote, and a raw
      literal has three quotes on either side. -/
  | str (marker contents : String) (raw : Bool)
  | number (text : String)
  | char (contents : String)
  | bool (value : Bool)
  | null
  | ident (name : String)
  | member (receiver : ExprId) (name : String)
  | call (callee : ExprId) (args : List Arg)
  | cast (type : TypeExpr) (operand : ExprId)
  | asType (operand : ExprId) (type : TypeExpr)
  | defaultOf (type : Option TypeExpr)
  | new (type : TypeExpr) (args : List Arg)
  | lambda (params : List String) (body : ExprId)
  | binary (op : Operator) (left right : ExprId)
  | unparsed (text : String)
  deriving DecidableEq, Repr

/-- The features of a string literal; nothing else has any. -/
def Expr.stringForm? : Expr → Option StringForm
  | .str marker _ raw => some (.ofMarker marker raw)
  | _ => none

end TypeStyle
