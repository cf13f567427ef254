-- SUMMARY: Which initialized locals are asked to write their type.
import TypeStyle.Proofs.Lint.Judgement
import TypeStyle.Proofs.Lint.Preference

/-! # When a written type is asked for

A local without obstacles is asked to write its type if it has the placeholder and the
placeholder is not preferred. The initializer may be the reason, because it does not show its
type, but so may the resolver: a conversion that it reports, or a visible type that captures
the placeholder, counts against the placeholder even where the type is apparent. -/

namespace TypeStyle

/-- The type of an expression is apparent from its shape. -/
def SyntaxTree.ShowsType (t : SyntaxTree) (e : ExprId) : Prop :=
  ∃ x, t.expr? e = some x ∧ x.isApparent = true

namespace Resolver

variable {r : Resolver} {t : SyntaxTree} {s : Site} {e : ExprId}

/-- An expression is said to be used at another type than its own. -/
def Converts (r : Resolver) (t : SyntaxTree) (e : ExprId) : Prop :=
  ∃ type, r.exprType t e = some type ∧ type.own ≠ type.converted

/-- A type named like the placeholder is visible at a site, and the initializer is not said to
    have a type of that name. -/
def Captures (r : Resolver) (t : SyntaxTree) (s : Site) (e : ExprId) : Prop :=
  (∃ symbol ∈ r.symbols t s TypeExpr.placeholder, symbol.kind = .type ∧ symbol.arity = 0) ∧
    ∀ type, r.exprType t e = some type →
      ∀ space args, type.own ≠ some (.named space TypeExpr.placeholder args)

theorem converts_iff :
    r.Converts t e ↔ ((r.exprType t e).getD .unknown).isConverted = true := by
  unfold Converts ExprType.isConverted
  cases r.exprType t e with
  | none => simp [ExprType.unknown]
  | some type => simp

theorem captures_iff : r.Captures t s e ↔
    r.placeholderIsCaptured t s ((r.exprType t e).getD .unknown).own = true := by
  rw [← Bool.not_eq_false, placeholderIsCaptured_eq_false_iff, Captures, ← seesPlaceholderType_iff,
    Classical.not_imp]
  refine and_congr_right fun _ => ?_
  cases r.exprType t e with
  | none => simp [ExprType.unknown]
  | some type => simp

/-- The placeholder is preferred for an initializer that shows its type, unless the resolver has
    something against it. -/
theorem prefersImplicitFor_iff_showsType : r.prefersImplicitFor t s e = true ↔
    t.ShowsType e ∧ ¬ r.Converts t e ∧ ¬ r.Captures t s e := by
  rw [prefersImplicitFor_iff, converts_iff, captures_iff, Bool.not_eq_true, Bool.not_eq_true]
  exact ⟨fun ⟨hconverts, hcaptures, hshows⟩ => ⟨hshows, hconverts, hcaptures⟩,
    fun ⟨hshows, hconverts, hcaptures⟩ => ⟨hconverts, hcaptures, hshows⟩⟩

end Resolver

namespace Linter

variable {l : Linter} {t : SyntaxTree} {s : Site}

/-- A site is judged to need a written type. -/
def AsksExplicit (l : Linter) (t : SyntaxTree) (s : Site) : Prop :=
  ∃ g, l.judge t s = some g ∧ g.rule = .useExplicit

/-- A written type is asked for exactly where the placeholder stands and is not preferred. -/
theorem asksExplicit_iff (hn : t.Numbered) (hs : t.site? s.id = some s)
    (hfree : t.obstacle? s = none) (hpolicy : l.settings.policy = .implicitOrExplicit)
    (henabled : l.settings.isEnabled .useExplicit = true) :
    l.AsksExplicit t s ↔ s.slot.isImplicit = true ∧ l.resolver.prefersImplicit t s = false := by
  constructor
  · rintro ⟨g, hg, hrule⟩
    obtain ⟨hsrule, -⟩ := eq_of_judge hg
    rw [hrule] at hsrule
    obtain ⟨-, hform, hprefers⟩ := form_of_rule? hsrule
    exact ⟨hform, hprefers⟩
  · rintro ⟨hform, hprefers⟩
    have hrule : l.rule? t s = some .useExplicit := by
      simp [rule?, Policy.judge, hfree, Policy.broken?_eq, Policy.verdict, hform, hprefers,
        hpolicy, Option.filter_some, henabled]
    obtain ⟨_, _, _, _, hg⟩ := judge_of_rule? hn hs hrule
    exact ⟨_, hg, rfl⟩

/-- A local without obstacles whose initializer does not show its type is asked to write it
    exactly if it has the placeholder. If the initializer does show its type, the local is asked
    all the same where the resolver reports a conversion or a captured placeholder, and only
    there. -/
theorem asksExplicit_of_local (l : Linter) (ht : t.Reachable) (hs : t.site? s.id = some s)
    {holder : Holder} {ds : List Declarator} (hshape : s.shape = .«variables» holder ds)
    (hfree : t.obstacle? s = none) (hpolicy : l.settings.policy = .implicitOrExplicit)
    (henabled : l.settings.isEnabled .useExplicit = true) :
    ∃ e, s.initializer? = some e ∧
      (¬ t.ShowsType e → (l.AsksExplicit t s ↔ s.slot.isImplicit = true)) ∧
      (t.ShowsType e → (l.AsksExplicit t s ↔ s.slot.isImplicit = true ∧
        (l.resolver.Converts t e ∨ l.resolver.Captures t s e))) := by
  obtain ⟨e, he⟩ : ∃ e, s.initializer? = some e := by
    have hlocal := SyntaxTree.shape_of_obstacle?_eq_none hfree
    rw [hshape] at hlocal
    obtain ⟨_, d, e, -, rfl, hinit⟩ := Shape.eq_of_obstacle?_eq_none hlocal
    exact ⟨e, by simp [Site.initializer?, hshape, Shape.single?, hinit]⟩
  have hprefers : l.resolver.prefersImplicit t s = false ↔
      ¬ (t.ShowsType e ∧ ¬ l.resolver.Converts t e ∧ ¬ l.resolver.Captures t s e) := by
    rw [← Resolver.prefersImplicitFor_iff_showsType, Bool.not_eq_true, Resolver.prefersImplicit, he,
      Option.any_some]
  rw [asksExplicit_iff ht.numbered hs hfree hpolicy henabled, hprefers]
  refine ⟨e, he, fun hhidden => ?_, fun hshown => ?_⟩
  · exact and_iff_left fun h => hhidden h.1
  · refine and_congr_right fun _ => ?_
    rw [not_and, ← not_or, Classical.not_not]
    exact ⟨fun h => h hshown, fun h _ => h⟩

end Linter

namespace Draft

/-- The draft of `var s = "";` and, on the next line, `var y = f();`. -/
def implicitLocals : Draft :=
  let d := (empty.addExpr (.str "" "" false)).2
  let d := (d.declare (.statement false false) (.implicit {}) [("s", some ⟨0⟩)]).2
  let d := (d.addExpr (.ident "f")).2
  let d := (d.addExpr (.call ⟨1⟩ [])).2
  (d.declare (.statement false false) (.implicit {}) [("y", some ⟨2⟩)]).2

theorem built_implicitLocals : implicitLocals.Built := by
  have hstring := Built.empty.call (.addExpr _ (.str "" "" false))
  have hs := hstring.call (.declare _ (.statement false false) (.implicit {}) [("s", some ⟨0⟩)])
  have hcall := (hs.call (.addExpr _ (.ident "f"))).call (.addExpr _ (.call ⟨1⟩ []))
  exact hcall.call (.declare _ (.statement false false) (.implicit {}) [("y", some ⟨2⟩)])

end Draft

namespace Linter

/-- Of `var s = "";` and `var y = f();`, the second is asked to write its type in both cases, and
    the first only where a type named like the placeholder is visible. -/
theorem asksExplicit_of_local_implicitLocals :
    let t := Draft.implicitLocals.finish
    let plain := ({} : Facts).linter {}
    let captured := ({ typeSymbols := [("var", 0)] } : Facts).linter {}
    ∃ s y, t.site? ⟨2⟩ = some s ∧ t.site? ⟨5⟩ = some y ∧
      ¬ plain.AsksExplicit t s ∧ captured.AsksExplicit t s ∧
      plain.AsksExplicit t y ∧ captured.AsksExplicit t y := by
  intro t plain captured
  let s : Site := ⟨⟨2⟩, .implicit { id := ⟨1⟩, trailing := [.space] },
    .«variables» (.statement false false) [⟨⟨0⟩, "s", some ⟨0⟩⟩]⟩
  let y : Site := ⟨⟨5⟩, .implicit { id := ⟨4⟩, trailing := [.space] },
    .«variables» (.statement false false) [⟨⟨3⟩, "y", some ⟨2⟩⟩]⟩
  have ht : t.Reachable := .finish Draft.built_implicitLocals
  have hs : t.site? s.id = some s := by rfl
  have hy : t.site? y.id = some y := by rfl
  have hshows : t.ShowsType ⟨0⟩ := ⟨.str "" "" false, by rfl, rfl⟩
  have hhides : ¬ t.ShowsType ⟨2⟩ := by
    rintro ⟨x, hx, happarent⟩
    cases hx
    cases happarent
  refine ⟨s, y, hs, hy, ?_, ?_, ?_, ?_⟩
  · obtain ⟨e, he, -, hshown⟩ := asksExplicit_of_local plain ht hs rfl (by rfl) rfl rfl
    cases he
    rw [hshown hshows]
    rintro ⟨-, ⟨type, htype, hconverts⟩ | ⟨⟨symbol, hsymbol, -⟩, -⟩⟩
    · have hexact : plain.resolver.exprType t ⟨0⟩ = some (.exact (.predefined .string)) := by rfl
      obtain rfl := Option.some.inj (hexact.symm.trans htype)
      exact hconverts rfl
    · cases hsymbol
  · obtain ⟨e, he, -, hshown⟩ := asksExplicit_of_local captured ht hs rfl (by rfl) rfl rfl
    cases he
    refine (hshown hshows).mpr ⟨rfl, .inr ⟨⟨⟨"var", .type, 0⟩, List.mem_cons_self, rfl, rfl⟩, ?_⟩⟩
    intro type htype space args hown
    have hexact : captured.resolver.exprType t ⟨0⟩ = some (.exact (.predefined .string)) := by rfl
    obtain rfl := Option.some.inj (hexact.symm.trans htype)
    cases hown
  · obtain ⟨e, he, hhidden, -⟩ := asksExplicit_of_local plain ht hy rfl (by rfl) rfl rfl
    cases he
    exact (hhidden hhides).mpr rfl
  · obtain ⟨e, he, hhidden, -⟩ := asksExplicit_of_local captured ht hy rfl (by rfl) rfl rfl
    cases he
    exact (hhidden hhides).mpr rfl

/-- A local whose string literal shows its type is asked to write the type where a type named
    like the placeholder is visible, and where the literal is said to be converted. -/
theorem asksExplicit_of_showsType :
    let t := Draft.implicitLocals.finish
    let captured := ({ typeSymbols := [("var", 0)] } : Facts).linter {}
    let converted := ({ exprTypes := [(⟨0⟩, ⟨some (.predefined .string),
      some (.named (some "System") "IComparable" [])⟩)] } : Facts).linter {}
    ∃ s, t.site? ⟨2⟩ = some s ∧ t.obstacle? s = none ∧ s.initializer? = some ⟨0⟩ ∧
      t.ShowsType ⟨0⟩ ∧
      ¬ (captured.AsksExplicit t s ↔ s.slot.isImplicit = true ∧ ¬ t.ShowsType ⟨0⟩) ∧
      ¬ (converted.AsksExplicit t s ↔ s.slot.isImplicit = true ∧ ¬ t.ShowsType ⟨0⟩) := by
  intro t captured converted
  let s : Site := ⟨⟨2⟩, .implicit { id := ⟨1⟩, trailing := [.space] },
    .«variables» (.statement false false) [⟨⟨0⟩, "s", some ⟨0⟩⟩]⟩
  let g : Finding := ⟨⟨2⟩, ⟨1⟩, ⟨0, 10⟩, ⟨0, 3⟩, .useExplicit⟩
  have hshows : t.ShowsType ⟨0⟩ := ⟨.str "" "" false, by rfl, rfl⟩
  refine ⟨s, by rfl, by rfl, rfl, hshows, ?_, ?_⟩
  · have hasks : captured.AsksExplicit t s := ⟨g, by rfl, rfl⟩
    exact fun h => (h.mp hasks).2 hshows
  · have hasks : converted.AsksExplicit t s := ⟨g, by rfl, rfl⟩
    exact fun h => (h.mp hasks).2 hshows

end Linter

end TypeStyle
