-- SUMMARY: Statements and members, which refer to sites and expressions by identity.
import TypeStyle.Syntax.NodeId

/-! # Statements -/

namespace TypeStyle

inductive Stmt where
  | usingNamespace (name : String)
  | classDef (name : String) (typeParams : List String) (members : List Stmt)
  | method (returns name : String) (body : List Stmt)
  | declaration (site : NodeId)
  | foreach (site : NodeId) (collection : ExprId) (body : List Stmt)
  | deconstruction (site : NodeId) (value : ExprId)
  | branch (condition : ExprId) (body : List Stmt)
  | expr (e : ExprId)
  deriving Repr, Inhabited

end TypeStyle
