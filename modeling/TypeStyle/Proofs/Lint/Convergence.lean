-- SUMMARY: Over a table of facts a fix stands alone, so a repair of all findings converges.
import TypeStyle.Proofs.Lint.Meaning
import TypeStyle.Proofs.Lint.Repair

/-! # Convergence

Whether the placeholder is preferred can depend on a slot: an initializer converts to
the type written in the first site that it initializes, and several sites may share
it. A fix that a judgement asks for never changes the preference of any site, its own
included. If the placeholder is put into the first site, then the initializer was not
converted before and is not converted after. If a type is put there, then something
other than a conversion speaks against the placeholder, for every site that shares the
initializer. -/

namespace TypeStyle

namespace Facts

open SyntaxTree (Retypes)

variable {f : Facts} {t : SyntaxTree} {s : Site} {type : TypeExpr} {r : Retyped} {rule : Rule}

/-- A retyping does not change the type that is wanted for another site. -/
theorem wantedType_retype (h : t.Retypes s type r) (x : Site) (rule : Rule) :
    f.resolver.wantedType r.tree x rule = f.resolver.wantedType t x rule := by
  have hdeclared : f.resolver.declaredType r.tree x = f.resolver.declaredType t x :=
    declaredType?_retype h x
  have hspell : f.resolver.spell r.tree x = f.resolver.spell t x := by
    funext ty
    simp only [resolver, spellFor, SyntaxTree.importsNamespace, h.imports_eq]
  cases rule with
  | useImplicit => rfl
  | useExplicit => simp only [Resolver.wantedType, hdeclared, hspell]

/-! ## Preferences -/

/-- Whether the placeholder suits an expression of type `own`, conversions apart: it is
    not captured, and the expression shows its type. -/
def suits (f : Facts) (t : SyntaxTree) (own : Option Ty) (e : ExprId) : Bool :=
  let isVisible := (f.symbolsNamed TypeExpr.placeholder).any fun symbol =>
    symbol.kind = .type && symbol.arity = 0
  !(isVisible && own.bind Ty.simpleName ≠ some TypeExpr.placeholder) &&
    (t.expr? e).any Expr.isApparent

/-- The preference at a site with initializer `e` is a matter of `e` alone. -/
theorem prefersImplicitFor_resolver (f : Facts) (t : SyntaxTree) (s : Site) (e : ExprId) :
    f.resolver.prefersImplicitFor t s e =
      let type := (last? e f.exprTypes).getD ⟨f.typeOf? t e, f.convertedType? t e⟩
      !type.isConverted && f.suits t type.own e := by
  have htype : f.resolver.exprType t e = f.exprType? t e := rfl
  rw [Resolver.prefersImplicitFor, htype, exprType?_eq]
  simp only [Option.getD_some, Bool.and_assoc]
  rfl

theorem suits_retype (h : t.Retypes s type r) (own : Option Ty) (e : ExprId) :
    f.suits r.tree own e = f.suits t own e := by
  rw [suits, suits, h.expr?]

/-- The placeholder is preferred for the same initializers before and after a fix. -/
theorem prefersImplicitFor_fix (h : t.Retypes s type r)
    (hold : s.slot.isImplicit = decide (rule = .useExplicit))
    (hprefers : f.resolver.prefersImplicit t s = decide (rule = .useImplicit))
    (hform : type.isImplicit = decide (rule = .useImplicit)) (x y : Site) (e : ExprId) :
    f.resolver.prefersImplicitFor r.tree y e = f.resolver.prefersImplicitFor t x e := by
  rw [prefersImplicitFor_resolver, prefersImplicitFor_resolver, typeOf?_retype h]
  simp only [suits_retype h]
  cases hknown : last? e f.exprTypes with
  | some known => rfl
  | none =>
    by_cases hfirst : initialized? t e = some s
    · have hinit := (initialized?_eq_some hfirst).2
      have hsame : f.resolver.prefersImplicitFor t s e = decide (rule = .useImplicit) := by
        rw [← hprefers, Resolver.prefersImplicit, hinit, Option.any_some]
      rw [prefersImplicitFor_resolver, hknown] at hsame
      have hfirst' : initialized? r.tree e = some { s with slot := r.new } := by
        rw [initialized?_retype h, hfirst, Option.map_some, Site.retyped_self]
      cases rule with
      | useImplicit =>
        have hnew : f.convertedType? r.tree e = f.typeOf? r.tree e := by
          apply convertedType?_of_implicit hfirst'
          rw [h.isImplicit_new, hform]
          rfl
        have hconv : f.typeOf? t e = f.convertedType? t e := by
          simp [ExprType.isConverted] at hsame
          exact hsame.1
        rw [hnew, typeOf?_retype h, ← hconv]
      | useExplicit =>
        have hconv : f.convertedType? t e = f.typeOf? t e := convertedType?_of_implicit hfirst hold
        have hsuits : f.suits t (f.typeOf? t e) e = false := by
          simpa [ExprType.isConverted, hconv] using hsame
        simp [hsuits]
    · rw [convertedType?_retype_of_ne h]
      intro x' hx' hid
      have hsite := (SyntaxTree.mem_sites_iff.mp (initialized?_eq_some hx').1).1
      rw [hid, h.site] at hsite
      rw [Option.some.inj hsite] at hfirst
      exact hfirst hx'

theorem prefersImplicit_fix (h : t.Retypes s type r)
    (hold : s.slot.isImplicit = decide (rule = .useExplicit))
    (hprefers : f.resolver.prefersImplicit t s = decide (rule = .useImplicit))
    (hform : type.isImplicit = decide (rule = .useImplicit)) {x y : Site}
    (hshape : y.shape = x.shape) :
    f.resolver.prefersImplicit r.tree y = f.resolver.prefersImplicit t x := by
  simp only [Resolver.prefersImplicit, Site.initializer?, hshape]
  congr 1
  funext e
  exact prefersImplicitFor_fix h hold hprefers hform x y e

/-! ## Fixes -/

/-- Over a table of facts a fix settles its site and leaves every other site alone. -/
theorem fixesAlone_linter (f : Facts) (settings : Settings) : (f.linter settings).FixesAlone := by
  intro t s type r rule hn h hrule htype id
  obtain ⟨_, hold, hp⟩ := Linter.form_of_rule? hrule
  have hform := Resolver.isImplicit_of_wantedType f.spellsUsually_resolver htype
  have hprefers : ∀ x y : Site, y.shape = x.shape →
      f.resolver.prefersImplicit r.tree y = f.resolver.prefersImplicit t x :=
    fun _ _ => prefersImplicit_fix h hold hp hform
  unfold Linter.outcome?
  split
  · next hid =>
    have hsettled : (f.linter settings).rule? r.tree { s with slot := r.new } = none := by
      refine Linter.rule?_eq_none ((hprefers s _ rfl).trans (hp.trans ?_))
      rw [h.isImplicit_new, hform]
    rw [hid, h.site?_self, Option.bind_some, hsettled]
    rfl
  · next hid =>
    rw [h.site?_of_ne hid]
    cases hs : t.site? id with
    | none => rfl
    | some x =>
      have hxid := Tables.id_of_site? hs
      have hx : t.site? x.id = some x := by rwa [hxid]
      have hx' : r.tree.site? x.id = some x := by rw [h.site?_of_ne (by rwa [hxid]), hx]
      have hsame : (f.linter settings).rule? r.tree x = (f.linter settings).rule? t x :=
        Linter.rule?_congr (h.obstacle?_eq hn hx hx' rfl rfl) rfl (hprefers x x rfl)
      have hwanted : (f.linter settings).resolver.wantedType r.tree x =
          (f.linter settings).resolver.wantedType t x := funext (wantedType_retype h x)
      simp only [Option.bind_some, hsame, hwanted]

/-- Repairing all that a scan finds converges: what a second scan finds are the sites
    whose fixes failed, each for lack of a type to write, and a second repair changes
    nothing. -/
theorem repair_scan_converges (f : Facts) (settings : Settings) {t : SyntaxTree}
    (ht : t.Reachable) :
    let l := f.linter settings
    let first := l.repair t (l.scan t)
    let second := l.repair first.tree (l.scan first.tree)
    (∀ id, (∃ g ∈ l.scan first.tree, g.site = id) ↔ ∃ e, (id, .failed e) ∈ first.skipped) ∧
      (∀ g ∈ l.scan first.tree, g.rule = .useExplicit) ∧
      second.applied = [] ∧ second.tree.source = first.tree.source := by
  intro l first second
  have hl : l.FixesAlone := f.fixesAlone_linter settings
  have hprogress := Linter.progress_repair hl ht.numbered (l.scan t)
  have hagain : ∀ g ∈ l.scan first.tree, ∃ e, l.outcome? first.tree g.site = some (g.rule, some e) ∧
      (g.site, .failed e) ∈ first.skipped := by
    intro g hg
    obtain ⟨fe, ho⟩ := (Linter.exists_mem_scan_iff rfl hprogress.numbered).mp ⟨g, hg, rfl, rfl⟩
    obtain ⟨e, rfl, he, _⟩ := (Linter.outcome?_repair_scan hl rfl ht.numbered).mp ho
    exact ⟨e, ho, he⟩
  have hsecond := Linter.repair_of_failing (l := l) hprogress.numbered fun g hg =>
    (hagain g hg).imp fun _ h => h.1
  refine ⟨?_, ?_, hsecond.2, congrArg SyntaxTree.source hsecond.1⟩
  · intro id
    constructor
    · rintro ⟨g, hg, rfl⟩
      exact (hagain g hg).imp fun _ h => h.2
    · rintro ⟨e, he⟩
      obtain ⟨rule, ho⟩ := hprogress.failed id e he
      have hstill := (Linter.outcome?_repair_scan hl rfl ht.numbered).mpr ⟨e, rfl, he, ho⟩
      obtain ⟨g, hg, hid, _⟩ := (Linter.exists_mem_scan_iff rfl hprogress.numbered).mpr ⟨_, hstill⟩
      exact ⟨g, hg, hid⟩
  · intro g hg
    obtain ⟨e, ho, _⟩ := hagain g hg
    obtain ⟨s, _, _, hrule, hfail⟩ := Linter.outcome?_eq_some ho
    cases hg' : g.rule with
    | useExplicit => rfl
    | useImplicit =>
      rw [hg'] at hrule hfail
      rw [Linter.failure?_wantedType_useImplicit hrule] at hfail
      cases hfail

/-- Nothing is known of the function, so the type of its result stays to be found. -/
theorem repair_scan_converges_literalAndCall :
    let l := ({} : Facts).linter {}
    let first := l.repair Draft.literalAndCall.finish (l.scan Draft.literalAndCall.finish)
    first.applied = [⟨2⟩] ∧ first.skipped = [(⟨5⟩, .failed (.unresolvedType ⟨5⟩))] ∧
      ∃ g ∈ l.scan first.tree, g.site = ⟨5⟩ := by
  intro l first
  have hskipped : first.skipped = [(⟨5⟩, .failed (.unresolvedType ⟨5⟩))] := by rfl
  have hconverges := repair_scan_converges {} {} (.finish Draft.built_literalAndCall)
  refine ⟨by rfl, hskipped, (hconverges.1 ⟨5⟩).mpr ⟨.unresolvedType ⟨5⟩, ?_⟩⟩
  exact hskipped ▸ List.mem_singleton_self _

end Facts

end TypeStyle
