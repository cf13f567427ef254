-- SUMMARY: Declaration sites: the places where a declaration has a type slot.
import TypeStyle.Syntax.TypeExpr

/-! # Declaration sites

A site is a place that declares something and writes a type for it: a local or
field declaration, the variable of a foreach loop, an out argument, or a pattern.
Each has exactly one slot, the type written there. -/

namespace TypeStyle

/-- Where a declaration of variables stands. -/
inductive Holder where
  | statement (isConst isUsing : Bool)
  | field
  | eventField
  deriving DecidableEq, Repr

namespace Holder

def isConst : Holder → Bool
  | statement isConst _ => isConst
  | field | eventField => false

def isField : Holder → Bool
  | statement _ _ => false
  | field | eventField => true

end Holder

structure Declarator where
  id : NodeId
  name : String
  init : Option ExprId
  deriving DecidableEq, Repr

/-- The variables of a pattern declaration. -/
inductive Pattern where
  | single (name : String)
  | discard
  | group (parts : List Pattern)
  deriving Repr, Inhabited

namespace Pattern

/-- A group of names, in which `_` stands for a discard. -/
def ofNames (names : List String) : Pattern :=
  .group (names.map fun name => if name = "_" then discard else .single name)

mutual

def text : Pattern → String
  | single name => name
  | discard => "_"
  | group parts => "(" ++ textList parts ++ ")"

/-- The texts of several parts, separated by a comma and a space. -/
def textList : List Pattern → String
  | [] => ""
  | [p] => text p
  | p :: q :: ps => text p ++ ", " ++ textList (q :: ps)

end

mutual

/-- The variables that the pattern introduces, from left to right. -/
def names : Pattern → List String
  | single name => [name]
  | discard => []
  | group parts => namesList parts

def namesList : List Pattern → List String
  | [] => []
  | p :: ps => names p ++ namesList ps

end

end Pattern

inductive Shape where
  /-- Variables declared by a statement or as fields. -/
  | «variables» (holder : Holder) (declarators : List Declarator)
  | foreach (name : String)
  | outArg (name : String)
  | pattern (parts : Pattern)
  deriving Repr

structure Site where
  id : NodeId
  slot : TypeExpr
  shape : Shape
  deriving Repr

namespace Shape

/-- The only declarator of a declaration of variables, if it is the only one. -/
def single? : Shape → Option Declarator
  | «variables» _ [declarator] => some declarator
  | _ => none

/-- The names that the shape introduces, from left to right. -/
def names : Shape → List String
  | «variables» _ declarators => declarators.map Declarator.name
  | foreach name => [name]
  | outArg name => [name]
  | pattern parts => parts.names

end Shape

/-- The initializer of a declaration of exactly one variable. -/
def Site.initializer? (s : Site) : Option ExprId := do
  (← s.shape.single?).init

end TypeStyle
