-- SUMMARY: Identities of syntax nodes and the supply that hands them out.

/-! # Node identities

Declaration sites, declarators and the types written in a slot carry a `NodeId`;
expressions are numbered by an `ExprId`, their index in the tree's table. Node
identities come from one supply per tree, which never hands out a number twice. -/

namespace TypeStyle

structure NodeId where
  raw : Nat
  deriving DecidableEq, Repr, Inhabited

namespace NodeId

/-- The identity of a node that belongs to no tree. -/
def detached : NodeId := ⟨4294967295⟩

def isAttached (id : NodeId) : Bool := id ≠ detached

/-- The identity as messages show it. -/
def text (id : NodeId) : String := s!"#{id.raw}"

/-- The identity spelled out with its kind. -/
def describe (id : NodeId) : String :=
  if id.isAttached then s!"NodeId({id.raw})" else "NodeId::DETACHED"

end NodeId

structure ExprId where
  index : Nat
  deriving DecidableEq, Repr, Inhabited

/-- The identity spelled out with its kind. -/
def ExprId.describe (id : ExprId) : String := s!"ExprId({id.index})"

/-- Hands out node identities in increasing order. -/
structure NodeSupply where
  next : Nat
  deriving DecidableEq, Repr, Inhabited

namespace NodeSupply

def initial : NodeSupply := ⟨0⟩

def fresh (s : NodeSupply) : NodeId × NodeSupply := (⟨s.next⟩, ⟨s.next + 1⟩)

end NodeSupply

end TypeStyle
