-- SUMMARY: What the resolver has answered about an initializer for which the placeholder is asked for.
import TypeStyle.Proofs.Lint.Meaning
import TypeStyle.Proofs.Tree.Run

/-! # When the placeholder is asked for

The placeholder is preferred for an apparent initializer that is not converted and whose
type the placeholder would still stand for. An initializer about which the resolver knows
nothing is not converted, so it passes unless a type named like the placeholder is
visible: then its type has to be one of that name. The name alone is compared. -/

namespace TypeStyle

/-- An expression that is not converted has no type, or is used at its own. -/
theorem ExprType.isConverted_eq_false_iff {e : ExprType} :
    e.isConverted = false ↔ e = .unknown ∨ ∃ ty, e = .exact ty := by
  obtain ⟨own, converted⟩ := e
  simp only [isConverted, unknown, exact, ne_eq, decide_not, Bool.not_eq_false',
    decide_eq_true_eq, mk.injEq]
  constructor
  · rintro rfl
    cases own with
    | none => exact .inl ⟨rfl, rfl⟩
    | some ty => exact .inr ⟨ty, rfl, rfl⟩
  · rintro (⟨rfl, rfl⟩ | ⟨ty, rfl, rfl⟩) <;> rfl

/-- No predefined type is called like the placeholder in its library. -/
theorem Predefined.libraryName_ne_placeholder (p : Predefined) :
    p.libraryName ≠ TypeExpr.placeholder := by
  cases p <;> decide

theorem Ty.simpleName_eq_placeholder_iff {ty : Ty} :
    ty.simpleName = some TypeExpr.placeholder ↔
      ∃ space args, ty = .named space TypeExpr.placeholder args := by
  cases ty with
  | predefined p => simp [simpleName, p.libraryName_ne_placeholder]
  | named space name args => simp [simpleName]
  | _ => simp [simpleName]

namespace Resolver

variable {r : Resolver} {t : SyntaxTree} {s : Site}

theorem seesPlaceholderType_iff : r.seesPlaceholderType t s = true ↔
    ∃ symbol ∈ r.symbols t s TypeExpr.placeholder, symbol.kind = .type ∧ symbol.arity = 0 := by
  simp [seesPlaceholderType]

/-- Where a type named like the placeholder is visible, only a type of that name is not
    captured. -/
theorem placeholderIsCaptured_eq_false_iff {own : Option Ty} :
    r.placeholderIsCaptured t s own = false ↔
      (r.seesPlaceholderType t s = true →
        ∃ space args, own = some (.named space TypeExpr.placeholder args)) := by
  cases own with
  | none => simp [placeholderIsCaptured]
  | some ty => simp [placeholderIsCaptured, Ty.simpleName_eq_placeholder_iff]

theorem prefersImplicitFor_iff {e : ExprId} :
    r.prefersImplicitFor t s e = true ↔
      ((r.exprType t e).getD .unknown).isConverted = false ∧
        r.placeholderIsCaptured t s ((r.exprType t e).getD .unknown).own = false ∧
          ∃ x, t.expr? e = some x ∧ x.isApparent = true := by
  simp [prefersImplicitFor, and_assoc, Option.any_eq_true]

/-- What has been answered about an initializer that the placeholder is preferred for. -/
theorem exprType_of_prefersImplicitFor {e : ExprId} (h : r.prefersImplicitFor t s e = true) :
    (r.exprType t e = none ∨ r.exprType t e = some .unknown ∨
        ∃ ty, r.exprType t e = some (.exact ty)) ∧
      (r.seesPlaceholderType t s = true →
        ∃ space args, r.exprType t e = some (.exact (.named space TypeExpr.placeholder args))) := by
  obtain ⟨hconverted, hcaptured, -⟩ := prefersImplicitFor_iff.mp h
  rw [placeholderIsCaptured_eq_false_iff] at hcaptured
  cases htype : r.exprType t e with
  | none =>
    refine ⟨.inl rfl, fun hsees => ?_⟩
    obtain ⟨_, _, hown⟩ := hcaptured hsees
    simp [htype, ExprType.unknown] at hown
  | some type =>
    rw [htype, Option.getD_some, ExprType.isConverted_eq_false_iff] at hconverted
    rw [htype, Option.getD_some] at hcaptured
    rcases hconverted with rfl | ⟨ty, rfl⟩
    · refine ⟨.inr (.inl rfl), fun hsees => ?_⟩
      obtain ⟨_, _, hown⟩ := hcaptured hsees
      cases hown
    · refine ⟨.inr (.inr ⟨ty, rfl⟩), fun hsees => ?_⟩
      obtain ⟨space, args, hown⟩ := hcaptured hsees
      exact ⟨space, args, congrArg some (congrArg ExprType.exact (Option.some.inj hown))⟩

end Resolver

/-! ## Findings that ask for the placeholder -/

namespace Linter

/-- A site is asked to be implicit only if its initializer has no type or keeps its own; and
    where a type named like the placeholder is visible, only if it has a type of that name. -/
theorem exprType_of_judge_useImplicit (l : Linter) {t : SyntaxTree} {s : Site} {g : Finding}
    (h : l.judge t s = some g) (hrule : g.rule = .useImplicit) :
    ∃ e, s.initializer? = some e ∧
      (l.resolver.exprType t e = none ∨ l.resolver.exprType t e = some .unknown ∨
        ∃ ty, l.resolver.exprType t e = some (.exact ty)) ∧
      ((∃ symbol ∈ l.resolver.symbols t s TypeExpr.placeholder,
          symbol.kind = .type ∧ symbol.arity = 0) →
        ∃ space args,
          l.resolver.exprType t e = some (.exact (.named space TypeExpr.placeholder args))) := by
  obtain ⟨hsrule, -⟩ := eq_of_judge h
  rw [hrule] at hsrule
  obtain ⟨-, -, hprefers⟩ := form_of_rule? hsrule
  obtain ⟨e, he, hinit⟩ := (Option.any_eq_true _ _).mp hprefers
  refine ⟨e, he, ?_⟩
  rw [← Resolver.seesPlaceholderType_iff]
  exact Resolver.exprType_of_prefersImplicitFor hinit

/-- The literal is said to have a type named like the placeholder, which is visible. -/
theorem exprType_of_judge_useImplicit_literalAndCall :
    let var : Ty := .named none "var" []
    let f : Facts := { exprTypes := [(⟨0⟩, .exact var)], typeSymbols := [("var", 0)] }
    let t := Draft.literalAndCall.finish
    ∃ s g, t.site? ⟨2⟩ = some s ∧ (f.linter {}).judge t s = some g ∧ s.initializer? = some ⟨0⟩ ∧
      ∃ space args, f.exprType? t ⟨0⟩ = some (.exact (.named space "var" args)) := by
  intro var f t
  let s : Site := ⟨⟨2⟩, .keyword { id := ⟨1⟩, trailing := [.space] } "int",
    .«variables» (.statement false false) [⟨⟨0⟩, "x", some ⟨0⟩⟩]⟩
  let g : Finding := ⟨⟨2⟩, ⟨1⟩, ⟨0, 9⟩, ⟨0, 3⟩, .useImplicit⟩
  have hjudge : (f.linter {}).judge t s = some g := by rfl
  obtain ⟨e, he, _, hcaptured⟩ := exprType_of_judge_useImplicit (f.linter {}) hjudge rfl
  cases he
  exact ⟨s, g, rfl, hjudge, rfl, hcaptured ⟨⟨"var", .type, 0⟩, List.mem_singleton_self _, rfl, rfl⟩⟩

/-- The placeholder is asked for where nothing is known of the initializer, where it is known
    to have no type, and where it has a generic type named like a visible type that is not. -/
theorem judge_useImplicit_unresolved :
    let t := Draft.literalAndCall.finish
    let t' := Draft.genericPlaceholder.finish
    let unanswered : Linter :=
      { resolver := ({ untyped := [⟨0⟩] } : Overlay).apply ({} : Facts).resolver }
    let typeless := ({ exprTypes := [(⟨0⟩, .unknown)] } : Facts).linter {}
    let visible := ({ typeSymbols := [("var", 0), ("var", 1)] } : Facts).linter {}
    (∃ s g, t.site? ⟨2⟩ = some s ∧ s.initializer? = some ⟨0⟩ ∧
        unanswered.judge t s = some g ∧ g.rule = .useImplicit ∧
        unanswered.resolver.exprType t ⟨0⟩ = none) ∧
      (∃ s g, t.site? ⟨2⟩ = some s ∧ s.initializer? = some ⟨0⟩ ∧
        typeless.judge t s = some g ∧ g.rule = .useImplicit ∧
        typeless.resolver.exprType t ⟨0⟩ = some .unknown) ∧
      ∃ s g, t'.site? ⟨3⟩ = some s ∧ s.initializer? = some ⟨0⟩ ∧
        visible.judge t' s = some g ∧ g.rule = .useImplicit ∧
        ⟨"var", .type, 0⟩ ∈ visible.resolver.symbols t' s "var" ∧
        visible.resolver.exprType t' ⟨0⟩ =
          some (.exact (.named none "var" [.predefined .int])) := by
  intro t t' unanswered typeless visible
  refine ⟨⟨_, _, rfl, rfl, rfl, rfl, rfl⟩, ⟨_, _, rfl, rfl, rfl, rfl, rfl⟩, ?_⟩
  exact ⟨_, _, rfl, rfl, rfl, rfl, List.mem_cons_self, rfl⟩

end Linter

end TypeStyle
