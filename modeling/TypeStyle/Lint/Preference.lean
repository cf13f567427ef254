-- SUMMARY: Which form of its type a declaration should have.
import TypeStyle.Lint.Obstacle
import TypeStyle.Lint.Settings
import TypeStyle.Types.Resolver

/-! # Preferred forms

A declaration of a variable reads best with the placeholder if its initializer
shows the type, keeps that type when it is assigned, and the placeholder means
what it says. The other sites have no initializer: there the placeholder never
shows the type. -/

namespace TypeStyle

/-- Whether the shape of an expression shows its type. -/
def Expr.isApparent : Expr → Bool
  | .str _ _ _ | .number _ | .cast _ _ | .asType _ _ | .new _ _ => true
  | .defaultOf type => type.isSome
  | .char _ | .bool _ | .null | .ident _ | .member _ _ | .call _ _ | .lambda _ _ | .binary _ _ _
  | .unparsed _ => false

namespace Resolver

/-- Whether a type named like the placeholder is visible at a site. -/
def seesPlaceholderType (r : Resolver) (t : SyntaxTree) (s : Site) : Bool :=
  (r.symbols t s TypeExpr.placeholder).any fun symbol => symbol.kind = .type && symbol.arity = 0

/-- Whether the placeholder at `s` would denote a visible type of that name
    instead of the inferred type `ty`. -/
def placeholderIsCaptured (r : Resolver) (t : SyntaxTree) (s : Site) (ty : Option Ty) : Bool :=
  r.seesPlaceholderType t s && ty.bind Ty.simpleName ≠ some TypeExpr.placeholder

/-- Whether the placeholder would read best at a site with initializer `init`. -/
def prefersImplicitFor (r : Resolver) (t : SyntaxTree) (s : Site) (init : ExprId) : Bool :=
  let type := (r.exprType t init).getD .unknown
  !type.isConverted && !r.placeholderIsCaptured t s type.own &&
    (t.expr? init).any Expr.isApparent

/-- Whether the placeholder would read best at a site. -/
def prefersImplicit (r : Resolver) (t : SyntaxTree) (s : Site) : Bool :=
  s.initializer?.any (r.prefersImplicitFor t s)

end Resolver

namespace Policy

/-- The rule that a site without obstacles breaks under a policy. -/
def broken? (p : Policy) (r : Resolver) (t : SyntaxTree) (s : Site) : Option Rule :=
  match p, s.shape with
  | implicitOnly, .«variables» _ _ =>
    if !s.slot.isImplicit && r.prefersImplicit t s then some .useImplicit else none
  | implicitOnly, _ => none
  | implicitOrExplicit, .«variables» _ _ =>
    match s.slot.isImplicit, r.prefersImplicit t s with
    | true, false => some .useExplicit
    | false, true => some .useImplicit
    | _, _ => none
  | implicitOrExplicit, _ => if s.slot.isImplicit then some .useExplicit else none

/-- The rule that a site breaks under a policy, if it can change at all. -/
def judge (p : Policy) (r : Resolver) (t : SyntaxTree) (s : Site) : Option Rule :=
  match t.obstacle? s with
  | some _ => none
  | none => p.broken? r t s

/-- The expression whose type has to be known to judge a site, if there is one. -/
def asks? (p : Policy) (t : SyntaxTree) (s : Site) : Option ExprId :=
  match t.obstacle? s with
  | some _ => none
  | none => if p = implicitOnly && s.slot.isImplicit then none else s.initializer?

end Policy

end TypeStyle
