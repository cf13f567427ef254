-- SUMMARY: A fix keeps the declared type of every site.
import TypeStyle.Proofs.Lint.Judgement
import TypeStyle.Proofs.Types.Facts
import TypeStyle.Proofs.Types.Spelling

/-! # Declared types

A fix must not change what a declaration means. Where it writes the placeholder, the
preference said that the initializer is not converted, and with the site the only one
to convert it, the written type was the type of the initializer. Where it writes a
type, the type is the inferred one, and is read back as what it was spelled from. -/

namespace TypeStyle

namespace Facts

open SyntaxTree (Retypes)

/-- A linter over a table of facts, without a stop. -/
def linter (f : Facts) (settings : Settings) : Linter :=
  { resolver := f.resolver, settings }

variable {f : Facts} {t : SyntaxTree} {s : Site} {type : TypeExpr} {r : Retyped}

/-! ## Inferred types -/

/-- The type inferred for a site with an initializer is that of the initializer. -/
theorem inferredType?_of_initializer? {e : ExprId} (h : s.initializer? = some e) :
    f.inferredType? t s = f.typeOf? t e := by
  obtain ⟨id, slot, shape⟩ := s
  cases shape with
  | «variables» holder declarators => simp [inferredType?, h]
  | foreach name => cases h
  | outArg name => cases h
  | pattern parts => cases h

/-- Without facts about expressions, an initializer whose site prefers the placeholder
    has the type that it converts to. -/
theorem typeOf?_eq_convertedType? (hknown : f.exprTypes = [])
    (h : f.resolver.prefersImplicit t s = true) :
    ∃ e, s.initializer? = some e ∧ f.typeOf? t e = f.convertedType? t e := by
  unfold Resolver.prefersImplicit at h
  cases he : s.initializer? with
  | none => simp [he] at h
  | some e =>
    have htype : f.resolver.exprType t e = some ⟨f.typeOf? t e, f.convertedType? t e⟩ := by
      apply (exprType?_eq f t e).trans
      rw [hknown]
      rfl
    rw [he, Option.any_some, Resolver.prefersImplicitFor, htype] at h
    simp only [Option.getD_some, Bool.and_eq_true, Bool.not_eq_true', ExprType.isConverted,
      decide_eq_false_iff_not, ne_eq, not_not] at h
    exact ⟨e, rfl, h.1.1⟩

/-- No two written sites have the same initializer. -/
def InitializersDiffer (t : SyntaxTree) : Prop :=
  ∀ x ∈ t.sites, ∀ y ∈ t.sites, x.initializer?.isSome = true → x.initializer? = y.initializer? →
    x.id = y.id

theorem initialized?_eq_self (hdiffer : InitializersDiffer t) (hs : s ∈ t.sites) {e : ExprId}
    (he : s.initializer? = some e) : initialized? t e = some s := by
  have hsome : (initialized? t e).isSome = true :=
    List.find?_isSome.mpr ⟨s, hs, by simpa using he⟩
  obtain ⟨x, hx⟩ := Option.isSome_iff_exists.mp hsome
  obtain ⟨hmem, hinit⟩ := initialized?_eq_some hx
  have hid := hdiffer x hmem s hs (Option.isSome_of_eq_some hinit) (hinit.trans he.symm)
  have hsite := (SyntaxTree.mem_sites_iff.mp hmem).1
  rw [hid, (SyntaxTree.mem_sites_iff.mp hs).1] at hsite
  rw [hx, hsite]

/-- The placeholder in the slot of a site that prefers it stands for the type that was
    written there. -/
theorem inferredType?_of_prefersImplicit (hknown : f.exprTypes = [])
    (hdiffer : InitializersDiffer t) (hs : s ∈ t.sites) (hexplicit : s.slot.isImplicit = false)
    (h : f.resolver.prefersImplicit t s = true) :
    f.inferredType? t s = f.writtenType? s.slot := by
  obtain ⟨e, he, hconv⟩ := typeOf?_eq_convertedType? hknown h
  calc f.inferredType? t s
      = f.typeOf? t e := inferredType?_of_initializer? he
    _ = f.convertedType? t e := hconv
    _ = f.writtenType? s.slot := convertedType?_of_explicit (initialized?_eq_self hdiffer hs he) hexplicit

/-- A new slot denotes what the type that was put there denotes. -/
theorem writtenType?_new (h : t.Retypes s type r) : f.writtenType? r.new = f.writtenType? type := by
  rw [h.new, writtenType?_attach, TypeExpr.withTriviaOf, writtenType?_withInfo]

/-- The type that is wanted in place of the placeholder denotes the declared type. -/
theorem writtenType?_of_wantedType
    (hnames : ∀ ty, f.declaredType? t s = some ty → f.Names ty.namedParts)
    (h : f.resolver.wantedType t s .useExplicit = .ok type) :
    f.writtenType? type = f.declaredType? t s := by
  obtain ⟨ty, spelled, info, hdeclared, hspelled, rfl⟩ :=
    Resolver.spelled_of_wantedType f.spellsUsually_resolver h
  have hdeclared : f.declaredType? t s = some ty := hdeclared
  rw [writtenType?_withInfo, writtenType?_of_spell (hnames ty hdeclared) hspelled, hdeclared]

/-! ## Fixes -/

/-- The fixed site keeps its declared type. -/
theorem declaredType?_fixed (hknown : f.exprTypes = []) (hdiffer : InitializersDiffer t)
    (hs : s ∈ t.sites) {rule : Rule} (hold : s.slot.isImplicit = decide (rule = .useExplicit))
    (hprefers : f.resolver.prefersImplicit t s = decide (rule = .useImplicit))
    (hwanted : f.resolver.wantedType t s rule = .ok type) (h : t.Retypes s type r)
    (hnames : rule = .useExplicit → ∀ ty, f.declaredType? t s = some ty → f.Names ty.namedParts) :
    f.declaredType? r.tree { s with slot := r.new } = f.declaredType? t s := by
  cases rule with
  | useImplicit =>
    have hnew : r.new.isImplicit = true := by
      rw [h.isImplicit_new, Resolver.isImplicit_of_wantedType f.spellsUsually_resolver hwanted]
      rfl
    have hold : s.slot.isImplicit = false := hold
    have hinferred : f.inferredType? r.tree { s with slot := r.new } = f.inferredType? t s :=
      inferredType?_retype h rfl rfl
    simp only [declaredType?, hnew, hold, hinferred, if_true, Bool.false_eq_true, if_false]
    rw [inferredType?_of_prefersImplicit hknown hdiffer hs hold hprefers]
  | useExplicit =>
    have hnew : r.new.isImplicit = false := by
      rw [h.isImplicit_new, Resolver.isImplicit_of_wantedType f.spellsUsually_resolver hwanted]
      rfl
    have hwritten : f.writtenType? r.new = f.declaredType? t s :=
      (writtenType?_new h).trans (writtenType?_of_wantedType (hnames rfl) hwanted)
    rw [declaredType?]
    dsimp only
    cases hknown : last? s.id f.siteTypes with
    | some known => simp [declaredType?, hknown]
    | none => simp only [hnew, Bool.false_eq_true, if_false, hwritten]

/-- A fix for a finding of a scan keeps the declared type of every written site. -/
theorem declaredType?_fix (f : Facts) (settings : Settings) {t : SyntaxTree} {g : Finding} {fix : Fix}
    (hknown : f.exprTypes = []) (hdiffer : InitializersDiffer t)
    (hg : g ∈ (f.linter settings).scan t) (hfix : f.resolver.fix t g = .ok fix)
    (hnames : g.rule = .useExplicit → ∀ s, t.site? g.site = some s →
      ∀ ty, f.declaredType? t s = some ty → f.Names ty.namedParts) :
    ∀ s ∈ t.sites, ∃ s', fix.tree.site? s.id = some s' ∧
      f.declaredType? fix.tree s' = f.declaredType? t s := by
  obtain ⟨s, type, r, hs, hid, hwanted, hr, htree⟩ := Resolver.retypes_of_fix hfix
  obtain ⟨x, hx, hxs, hjudge⟩ := Linter.exists_site_of_mem_scan hg
  obtain ⟨hrule, hsite, _⟩ := Linter.eq_of_judge hjudge
  rw [hsite, hxs] at hs
  cases hs
  obtain ⟨_, hold, hprefers⟩ := Linter.form_of_rule? hrule
  intro y hy
  have hys := (SyntaxTree.mem_sites_iff.mp hy).1
  rw [htree]
  by_cases hyx : y.id = s.id
  · rw [hyx, hxs] at hys
    cases hys
    refine ⟨_, hr.site?_self, declaredType?_fixed hknown hdiffer hx hold hprefers hwanted hr ?_⟩
    intro hexplicit
    exact hnames hexplicit s (by rw [hsite, hxs])
  · exact ⟨y, by rw [hr.site?_of_ne hyx, hys], declaredType?_retype hr y⟩

/-- The result of the function is written out as a list of integers, and stays one. -/
theorem declaredType?_fix_literalAndCall :
    let ints : Ty := .named (some "System") "List" [.predefined .int]
    let f : Facts := { methods := [("f", ints)], namespaces := [("List", "System")] }
    let t := Draft.literalAndCall.finish
    let g : Finding := ⟨⟨5⟩, ⟨4⟩, ⟨11, 22⟩, ⟨11, 14⟩, .useExplicit⟩
    ∃ fix s', f.resolver.fix t g = .ok fix ∧ fix.tree.source = "int x = 1;\nList<int> y = f();\n" ∧
      fix.tree.site? ⟨5⟩ = some s' ∧ f.declaredType? fix.tree s' = some ints := by
  intro ints f t g
  have hg : g ∈ (f.linter {}).scan t := by
    have hscan : (f.linter {}).scan t = [⟨⟨2⟩, ⟨1⟩, ⟨0, 9⟩, ⟨0, 3⟩, .useImplicit⟩, g] := by rfl
    simp [hscan]
  have hdiffer : InitializersDiffer t := by
    unfold InitializersDiffer
    decide +kernel
  have hnames : ∀ s, t.site? g.site = some s →
      ∀ ty, f.declaredType? t s = some ty → f.Names ty.namedParts := by
    intro s hs ty hty
    have hints : (t.site? g.site).bind (f.declaredType? t) = some ints := by rfl
    rw [hs, Option.bind_some, hty] at hints
    cases hints
    unfold Names
    decide +kernel
  cases hfix : f.resolver.fix t g with
  | error e =>
    have hok : (f.resolver.fix t g).toBool = true := by rfl
    rw [hfix] at hok
    cases hok
  | ok fix =>
    have hsource : (f.resolver.fix t g).toOption.map (fun fix => fix.tree.source) =
        some "int x = 1;\nList<int> y = f();\n" := by rfl
    rw [hfix] at hsource
    obtain ⟨s, hs, hty⟩ : ∃ s ∈ t.sites, s.id = ⟨5⟩ ∧ f.declaredType? t s = some ints := by
      decide +kernel
    obtain ⟨s', hs', hsame⟩ := declaredType?_fix f {} rfl hdiffer hg hfix (fun _ => hnames) s hs
    rw [hty.1] at hs'
    exact ⟨fix, s', rfl, Option.some.inj hsource, hs', hsame.trans hty.2⟩

end Facts

end TypeStyle
