-- SUMMARY: What a table of facts answers after a retyping.
import TypeStyle.Proofs.Tree.Identity
import TypeStyle.Types.Facts

/-! # Facts about a retyped tree

The type of an expression by itself, and the type inferred for a site, do not look at
slots, so a retyping leaves them alone. The conversion of an initializer looks at the
slot of one site, the first that it initializes. -/

namespace TypeStyle

namespace Facts

open SyntaxTree (Retypes)

variable {f : Facts} {t : SyntaxTree} {s : Site} {type : TypeExpr} {r : Retyped}

/-- The type of an expression by itself is a matter of the table of expressions. -/
theorem typeWithin_congr {t t' : SyntaxTree} (h : ∀ e, t'.expr? e = t.expr? e) (n : Nat)
    (e : ExprId) : f.typeWithin t' n e = f.typeWithin t n e := by
  induction n generalizing e with
  | zero => rfl
  | succ n ih =>
    unfold typeWithin
    simp only [h, ih]

theorem typeOf?_retype (h : t.Retypes s type r) (e : ExprId) :
    f.typeOf? r.tree e = f.typeOf? t e := by
  rw [typeOf?, typeOf?, h.exprs]
  exact typeWithin_congr h.expr? _ e

/-- The type inferred for a site is a matter of its shape and of the expressions. -/
theorem inferredType?_retype (h : t.Retypes s type r) {x y : Site} (hid : y.id = x.id)
    (hshape : y.shape = x.shape) : f.inferredType? r.tree y = f.inferredType? t x := by
  have htype : f.typeOf? r.tree = f.typeOf? t := funext (typeOf?_retype h)
  simp only [inferredType?, Site.initializer?, hshape, hid, h.items, htype]

/-- A site with the same slot keeps its declared type. -/
theorem declaredType?_retype (h : t.Retypes s type r) (x : Site) :
    f.declaredType? r.tree x = f.declaredType? t x := by
  simp only [declaredType?, inferredType?_retype h rfl rfl]

/-! ## Conversions -/

/-- The first site, in the order of the source, that an expression initializes. -/
def initialized? (t : SyntaxTree) (e : ExprId) : Option Site :=
  t.sites.find? fun s => s.initializer? = some e

theorem initialized?_retype (h : t.Retypes s type r) (e : ExprId) :
    initialized? r.tree e = (initialized? t e).map (Site.retyped s.id r.new) := by
  unfold initialized?
  rw [h.sites_eq, List.find?_map]
  simp only [Function.comp_def, Site.initializer?_retyped]

theorem initialized?_eq_some {e : ExprId} {x : Site} (h : initialized? t e = some x) :
    x ∈ t.sites ∧ x.initializer? = some e :=
  ⟨List.mem_of_find?_eq_some h, by simpa using List.find?_some h⟩

/-- The type that an expression is converted to by the sites it initializes. -/
def convertedType? (f : Facts) (t : SyntaxTree) (e : ExprId) : Option Ty :=
  match initialized? t e with
  | some s => if s.slot.isImplicit then f.typeOf? t e else f.writtenType? s.slot
  | none => f.typeOf? t e

theorem exprType?_eq (f : Facts) (t : SyntaxTree) (e : ExprId) :
    f.exprType? t e =
      some ((last? e f.exprTypes).getD ⟨f.typeOf? t e, f.convertedType? t e⟩) := by
  unfold exprType? convertedType? initialized?
  cases last? e f.exprTypes with
  | some known => rfl
  | none => cases t.sites.find? fun s => s.initializer? = some e <;> rfl

/-- A retyping changes the conversion of an expression only if the retyped site is the
    first that it initializes. -/
theorem convertedType?_retype_of_ne (h : t.Retypes s type r) {e : ExprId}
    (hne : ∀ x, initialized? t e = some x → x.id ≠ s.id) :
    f.convertedType? r.tree e = f.convertedType? t e := by
  unfold convertedType?
  rw [initialized?_retype h, typeOf?_retype h]
  cases hx : initialized? t e with
  | none => rfl
  | some x => simp only [Option.map_some, Site.retyped_of_ne (hne x hx)]

theorem convertedType?_of_implicit {e : ExprId} {x : Site} (hx : initialized? t e = some x)
    (himplicit : x.slot.isImplicit = true) : f.convertedType? t e = f.typeOf? t e := by
  simp [convertedType?, hx, himplicit]

theorem convertedType?_of_explicit {e : ExprId} {x : Site} (hx : initialized? t e = some x)
    (hexplicit : x.slot.isImplicit = false) : f.convertedType? t e = f.writtenType? x.slot := by
  simp [convertedType?, hx, hexplicit]

end Facts

end TypeStyle
