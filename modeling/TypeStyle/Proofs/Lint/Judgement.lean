-- SUMMARY: What judgements, scans and fixes come to, one specification for each.
import TypeStyle.Lint.Repair
import TypeStyle.Proofs.Lint.Obstacle
import TypeStyle.Proofs.Types.Spelling

/-! # Judgements, scans and fixes

A site breaks a rule if its form is not the preferred one, whatever its shape is. A
scan without a stop reports the judgement of every written site. A fix that succeeds
is a retyping. -/

namespace TypeStyle

/-! ## Judgements -/

namespace Policy

/-- The rule that is broken by a form, placeholder or not, which is not preferred. -/
def verdict (p : Policy) (isImplicit prefersImplicit : Bool) : Option Rule :=
  match isImplicit, prefersImplicit with
  | false, true => some .useImplicit
  | true, false => if p = implicitOrExplicit then some .useExplicit else none
  | true, true | false, false => none

/-- What a policy asks for depends on the form and the preference alone: a site without
    initializer never prefers the placeholder. -/
theorem broken?_eq (p : Policy) (r : Resolver) (t : SyntaxTree) (s : Site) :
    p.broken? r t s = p.verdict s.slot.isImplicit (r.prefersImplicit t s) := by
  have hother : s.initializer? = none → r.prefersImplicit t s = false := by
    intro h
    simp [Resolver.prefersImplicit, h]
  obtain ⟨id, slot, shape⟩ := s
  cases shape with
  | «variables» holder declarators =>
    cases p <;> simp only [broken?, verdict] <;>
      cases slot.isImplicit <;> cases r.prefersImplicit t _ <;> rfl
  | foreach name =>
    rw [hother rfl]
    cases p <;> simp only [broken?, verdict] <;> cases slot.isImplicit <;> rfl
  | outArg name =>
    rw [hother rfl]
    cases p <;> simp only [broken?, verdict] <;> cases slot.isImplicit <;> rfl
  | pattern parts =>
    rw [hother rfl]
    cases p <;> simp only [broken?, verdict] <;> cases slot.isImplicit <;> rfl

theorem verdict_eq_some {p : Policy} {isImplicit prefersImplicit : Bool} {rule : Rule}
    (h : p.verdict isImplicit prefersImplicit = some rule) :
    isImplicit = decide (rule = .useExplicit) ∧ prefersImplicit = decide (rule = .useImplicit) := by
  cases isImplicit <;> cases prefersImplicit
  · cases h
  · cases h
    exact ⟨rfl, rfl⟩
  · simp only [verdict, Option.ite_none_right_eq_some, Option.some.injEq] at h
    obtain ⟨_, rfl⟩ := h
    exact ⟨rfl, rfl⟩
  · cases h

/-- The preferred form breaks no rule. -/
theorem verdict_self (p : Policy) (b : Bool) : p.verdict b b = none := by
  cases b <;> rfl

theorem judge_eq_some {p : Policy} {r : Resolver} {t : SyntaxTree} {s : Site} {rule : Rule}
    (h : p.judge r t s = some rule) :
    t.obstacle? s = none ∧ p.verdict s.slot.isImplicit (r.prefersImplicit t s) = some rule := by
  unfold judge at h
  cases hobstacle : t.obstacle? s with
  | some o => simp [hobstacle] at h
  | none =>
    rw [hobstacle, broken?_eq] at h
    exact ⟨rfl, h⟩

end Policy

namespace Linter

variable {l : Linter} {t : SyntaxTree} {s : Site} {g : Finding}

/-- The rule that a site is reported under. -/
def rule? (l : Linter) (t : SyntaxTree) (s : Site) : Option Rule :=
  (l.settings.policy.judge l.resolver t s).filter l.settings.isEnabled

/-- A site that is reported has no obstacle, and its form is not the preferred one. -/
theorem form_of_rule? {rule : Rule} (h : l.rule? t s = some rule) :
    t.obstacle? s = none ∧ s.slot.isImplicit = decide (rule = .useExplicit) ∧
      l.resolver.prefersImplicit t s = decide (rule = .useImplicit) := by
  obtain ⟨hfree, hverdict⟩ := Policy.judge_eq_some (Option.filter_eq_some_iff.mp h).1
  exact ⟨hfree, Policy.verdict_eq_some hverdict⟩

/-- A site is judged by its rule, and found if it has a place. -/
theorem judge_eq (l : Linter) (t : SyntaxTree) (s : Site) :
    l.judge t s = (l.rule? t s).bind (finding? t s) := by
  unfold judge rule?
  cases l.settings.policy.judge l.resolver t s with
  | none => rfl
  | some rule => cases h : l.settings.isEnabled rule <;> simp [Option.filter_some, h]

theorem judge_of_rule? (hn : t.Numbered) (hs : t.site? s.id = some s) {rule : Rule}
    (h : l.rule? t s = some rule) :
    ∃ span slotSpan, t.spanOf s.id = some span ∧ t.spanOf s.slot.id = some slotSpan ∧
      l.judge t s = some ⟨s.id, s.slot.id, span, slotSpan, rule⟩ := by
  have hmem := hn.mem_sites_of_obstacle? hs (form_of_rule? h).1
  have hm := (SyntaxTree.mem_sites_iff.mp hmem).2
  obtain ⟨span, hspan⟩ := Option.isSome_iff_exists.mp ((hn.mem_marks_iff_placed hs).mp hm)
  obtain ⟨slotSpan, hslot⟩ := Option.isSome_iff_exists.mp (hn.slot_placed hs hm)
  refine ⟨span, slotSpan, hspan, hslot, ?_⟩
  simp [judge_eq, h, finding?, hspan, hslot]

theorem judge_of_rule?_eq_none (h : l.rule? t s = none) : l.judge t s = none := by
  rw [judge_eq, h, Option.bind_none]

/-- A site in its preferred form breaks no rule. -/
theorem rule?_eq_none (h : l.resolver.prefersImplicit t s = s.slot.isImplicit) :
    l.rule? t s = none := by
  have hjudge : l.settings.policy.judge l.resolver t s = none := by
    unfold Policy.judge
    split
    · rfl
    · rw [Policy.broken?_eq, h, Policy.verdict_self]
  rw [rule?, hjudge, Option.filter_none]

/-- The rule of a site is a matter of its obstacle, its form and its preference. -/
theorem rule?_congr {t' : SyntaxTree} {s' : Site} (hobstacle : t'.obstacle? s' = t.obstacle? s)
    (hform : s'.slot.isImplicit = s.slot.isImplicit)
    (hprefers : l.resolver.prefersImplicit t' s' = l.resolver.prefersImplicit t s) :
    l.rule? t' s' = l.rule? t s := by
  unfold rule? Policy.judge
  rw [hobstacle, Policy.broken?_eq, Policy.broken?_eq, hform, hprefers]

/-- A judgement is a finding under a rule that is enabled. -/
theorem finding?_of_judge (h : l.judge t s = some g) :
    l.rule? t s = some g.rule ∧ l.settings.isEnabled g.rule = true ∧
      finding? t s g.rule = some g := by
  rw [judge_eq, Option.bind_eq_some_iff] at h
  obtain ⟨rule, hrule, hfinding⟩ := h
  obtain ⟨rfl, -⟩ := eq_of_finding? hfinding
  exact ⟨hrule, (Option.filter_eq_some_iff.mp hrule).2, hfinding⟩

/-- A finding has the spans of its site and slot. -/
theorem spans_of_finding? {rule : Rule} (h : finding? t s rule = some g) :
    t.spanOf s.id = some g.span ∧ t.spanOf s.slot.id = some g.slotSpan := by
  simp only [finding?, Option.bind_eq_bind, Option.bind_eq_some_iff, Option.pure_def,
    Option.some.injEq] at h
  obtain ⟨span, hspan, slotSpan, hslot, rfl⟩ := h
  exact ⟨hspan, hslot⟩

/-- What a finding says of its site. -/
theorem eq_of_judge (h : l.judge t s = some g) :
    l.rule? t s = some g.rule ∧ g.site = s.id ∧ g.slot = s.slot.id ∧
      t.spanOf s.slot.id = some g.slotSpan := by
  obtain ⟨hrule, -, hfinding⟩ := finding?_of_judge h
  obtain ⟨-, hsite, hslot⟩ := eq_of_finding? hfinding
  exact ⟨hrule, hsite, hslot, (spans_of_finding? hfinding).2⟩

theorem spanOf_of_judge (h : l.judge t s = some g) : t.spanOf s.id = some g.span :=
  (spans_of_finding? (finding?_of_judge h).2.2).1

/-! ## Scans -/

theorem scanSites_sublist (l : Linter) (t : SyntaxTree) (asked : List ExprId) (ss : List Site) :
    (l.scanSites t asked ss).Sublist (ss.filterMap (l.judge t)) := by
  induction ss generalizing asked with
  | nil => exact List.Sublist.refl _
  | cons s ss ih =>
    have hcons : (s :: ss).filterMap (l.judge t) =
        (l.judge t s).toList ++ ss.filterMap (l.judge t) := by
      cases h : l.judge t s <;> simp [h]
    rw [scanSites, hcons]
    split
    · exact List.nil_sublist _
    · exact (ih _).append_left _

/-- A scan reports judgements of written sites, in the order in which they are written. -/
theorem scan_sublist (l : Linter) (t : SyntaxTree) :
    (l.scan t).Sublist (t.sites.filterMap (l.judge t)) :=
  l.scanSites_sublist t [] t.sites

theorem scanSites_of_stop_eq_none (hstop : l.stop = none) (asked : List ExprId) (ss : List Site) :
    l.scanSites t asked ss = ss.filterMap (l.judge t) := by
  induction ss generalizing asked with
  | nil => rfl
  | cons s ss ih =>
    rw [scanSites, isStopped, hstop]
    cases h : l.judge t s <;> simp [h, ih]

/-- A scan that cannot be stopped reports all of them. -/
theorem scan_of_stop_eq_none (hstop : l.stop = none) : l.scan t = t.sites.filterMap (l.judge t) :=
  scanSites_of_stop_eq_none hstop [] t.sites

theorem exists_site_of_mem_scan (h : g ∈ l.scan t) :
    ∃ s ∈ t.sites, t.site? s.id = some s ∧ l.judge t s = some g := by
  obtain ⟨s, hs, hjudge⟩ := List.mem_filterMap.mp ((l.scan_sublist t).mem h)
  exact ⟨s, hs, (SyntaxTree.mem_sites_iff.mp hs).1, hjudge⟩

end Linter

/-! ## Fixes -/

namespace Resolver

variable {r : Resolver} {t : SyntaxTree} {g : Finding} {s : Site}

/-- The type that is wanted in place of the placeholder is the declared one, spelled for the
    site. -/
theorem spellFor_of_wantedType {type : TypeExpr} (hr : r.SpellsUsually)
    (h : r.wantedType t s .useExplicit = .ok type) :
    ∃ ty, r.declaredType t s = some ty ∧ spellFor r.isImported t s ty = .ok type := by
  simp only [Resolver.wantedType] at h
  split at h
  · cases h
  · split at h
    · cases h
    · next ty hdeclared =>
      split at h
      · cases h
      · next type' hspell =>
        cases h
        rw [hr] at hspell
        exact ⟨ty, hdeclared, hspell⟩

theorem spelled_of_wantedType {type : TypeExpr} (hr : r.SpellsUsually)
    (h : r.wantedType t s .useExplicit = .ok type) :
    ∃ ty spelled info, r.declaredType t s = some ty ∧ ty.spell.result = .ok spelled ∧
      type = spelled.withInfo info := by
  obtain ⟨ty, hdeclared, hspell⟩ := spellFor_of_wantedType hr h
  obtain ⟨spelled, info, hspelled, heq⟩ := spell_of_spellFor hspell
  exact ⟨ty, spelled, info, hdeclared, hspelled, heq⟩

/-- The type that is wanted has the form that the rule asks for. -/
theorem isImplicit_of_wantedType {rule : Rule} {type : TypeExpr} (hr : r.SpellsUsually)
    (h : r.wantedType t s rule = .ok type) : type.isImplicit = decide (rule = .useImplicit) := by
  cases rule with
  | useImplicit =>
    simp only [Resolver.wantedType] at h
    split at h
    · cases h
    · cases h
      rfl
  | useExplicit =>
    obtain ⟨ty, spelled, info, _, hspelled, rfl⟩ := spelled_of_wantedType hr h
    rw [TypeExpr.isImplicit_withInfo, Ty.isImplicit_of_spell hspelled]
    rfl

/-- What a fix that succeeds has done. -/
theorem eq_of_fix {fix : Fix} (h : r.fix t g = .ok fix) :
    ∃ s type retyped, t.site? g.site = some s ∧ s.id = g.site ∧
      r.wantedType t s g.rule = .ok type ∧ t.Retypes s type retyped ∧
      fix = ⟨retyped.tree, s.id, g.rule, retyped.old, retyped.new,
        Edit.between t.source retyped.tree.source⟩ := by
  unfold Resolver.fix at h
  cases hs : t.site? g.site with
  | none => simp [hs] at h
  | some s =>
    simp only [hs] at h
    split at h
    · cases h
    · cases hobstacle : t.obstacle? s with
      | some o => simp [hobstacle] at h
      | none =>
        cases hwanted : r.wantedType t s g.rule with
        | error e => simp [hobstacle, hwanted] at h
        | ok type =>
          cases hretype : t.retype s.id type with
          | none => simp [hobstacle, hwanted, hretype] at h
          | some retyped =>
            simp only [hobstacle, hwanted, hretype, Except.ok.injEq] at h
            have hid := Tables.id_of_site? hs
            have hs' : t.site? s.id = some s := by rwa [hid]
            exact ⟨s, type, retyped, rfl, hid, hwanted, SyntaxTree.retypes_of_site? hs' hretype,
              h.symm⟩

/-- A fix that succeeds is a retyping of the site of the finding. -/
theorem retypes_of_fix {fix : Fix} (h : r.fix t g = .ok fix) :
    ∃ s type retyped, t.site? g.site = some s ∧ s.id = g.site ∧
      r.wantedType t s g.rule = .ok type ∧ t.Retypes s type retyped ∧ fix.tree = retyped.tree := by
  obtain ⟨s, type, retyped, hs, hid, hwanted, hr, rfl⟩ := eq_of_fix h
  exact ⟨s, type, retyped, hs, hid, hwanted, hr, rfl⟩

/-- A fix offers the smallest edit from the source it found to the source it leaves. -/
theorem edit_of_fix {fix : Fix} (h : r.fix t g = .ok fix) :
    fix.edit = Edit.between t.source fix.tree.source := by
  obtain ⟨_, _, _, _, _, _, _, rfl⟩ := eq_of_fix h
  rfl

/-- A finding that fits the tree is fixed exactly if the wanted type can be given. -/
theorem fix_of_wantedType (hs : t.site? g.site = some s) (hslot : s.slot.id = g.slot)
    (hfree : t.obstacle? s = none) :
    (∀ e, r.wantedType t s g.rule = .error e → r.fix t g = .error e) ∧
      ∀ type, r.wantedType t s g.rule = .ok type →
        ∃ fix retyped, r.fix t g = .ok fix ∧ fix.site = g.site ∧ fix.tree = retyped.tree ∧
          fix.new = retyped.new ∧ t.Retypes s type retyped := by
  constructor
  · intro e he
    simp [Resolver.fix, hs, hslot, hfree, he]
  · intro type htype
    have hid := Tables.id_of_site? hs
    have hs' : t.site? s.id = some s := by rwa [hid]
    obtain ⟨retyped, hretype, hretypes⟩ := SyntaxTree.exists_retypes hs' type
    refine ⟨⟨retyped.tree, s.id, g.rule, retyped.old, retyped.new,
      Edit.between t.source retyped.tree.source⟩, retyped, ?_, hid, rfl, rfl, hretypes⟩
    simp [Resolver.fix, hs, hslot, hfree, htype, hretype]

end Resolver

end TypeStyle
