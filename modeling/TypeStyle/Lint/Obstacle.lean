-- SUMMARY: What keeps a site from changing the form of its type.
import TypeStyle.Tree.Basic

/-! # Obstacles

A site can change between the placeholder and a written type only if it has a
place, holds no syntax error, and, when it declares variables, declares exactly
one, outside a class body, that is no constant and has an initializer. -/

namespace TypeStyle

inductive Obstacle where
  | unplaced
  | faults
  | constant
  | field
  | severalDeclarators
  | noInitializer
  deriving DecidableEq, Repr

def Obstacle.message : Obstacle → String
  | unplaced => "site is not laid out"
  | faults => "site contains syntax errors"
  | constant => "constants cannot be implicitly typed"
  | field => "fields cannot be implicitly typed"
  | severalDeclarators => "implicitly typed declarations need one declarator"
  | noInitializer => "implicitly typed declarations need an initializer"

/-- The obstacle in a shape itself. -/
def Shape.obstacle? : Shape → Option Obstacle
  | .«variables» (.statement true _) _ => some .constant
  | .«variables» .field _ | .«variables» .eventField _ => some .field
  | .«variables» (.statement false _) [d] => if d.init.isSome then none else some .noInitializer
  | .«variables» (.statement false _) _ => some .severalDeclarators
  | .foreach _ | .outArg _ | .pattern _ => none

/-- The first obstacle to changing the form of a site's type, if there is any. -/
def SyntaxTree.obstacle? (t : SyntaxTree) (s : Site) : Option Obstacle :=
  match t.spanOf s.id with
  | none => some .unplaced
  | some span => if t.hasFaultIn span then some .faults else s.shape.obstacle?

theorem SyntaxTree.shape_of_obstacle?_eq_none {t : SyntaxTree} {s : Site}
    (h : t.obstacle? s = none) : s.shape.obstacle? = none := by
  unfold SyntaxTree.obstacle? at h
  split at h
  · cases h
  · split at h
    · cases h
    · exact h

/-- Variables can change the form of their type only as one initialized local. -/
theorem Shape.eq_of_obstacle?_eq_none {holder : Holder} {ds : List Declarator}
    (h : (Shape.«variables» holder ds).obstacle? = none) :
    ∃ isUsing d e, holder = .statement false isUsing ∧ ds = [d] ∧ d.init = some e := by
  match holder, ds with
  | .statement true _, _ => simp [obstacle?] at h
  | .field, _ => simp [obstacle?] at h
  | .eventField, _ => simp [obstacle?] at h
  | .statement false _, [] => simp [obstacle?] at h
  | .statement false _, _ :: _ :: _ => simp [obstacle?] at h
  | .statement false isUsing, [d] =>
    cases hd : d.init with
    | none => simp [obstacle?, hd] at h
    | some e => exact ⟨isUsing, d, e, rfl, rfl, hd⟩

end TypeStyle
