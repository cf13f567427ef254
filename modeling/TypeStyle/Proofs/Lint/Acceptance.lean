-- SUMMARY: A finding can be applied to the tree it was made for, unless the type to be written is unknown or has no name.
import TypeStyle.Proofs.Lint.Judgement
import TypeStyle.Proofs.Tree.Splice
import TypeStyle.Proofs.Types.Nameless

/-! # Accepted findings

Judging a site and fixing it look at the site on their own, each with its own checks. A finding
passes all checks of the fix. What can still go wrong is the type to be written: the resolver
may know none, or one with a part that has no name. -/

namespace TypeStyle

namespace Resolver

variable {r : Resolver} {t : SyntaxTree} {s : Site}

/-- A written type can always be replaced by the placeholder. -/
theorem wantedType_useImplicit (h : s.slot.isImplicit = false) :
    r.wantedType t s .useImplicit = .ok (.implicit {}) := by
  simp [wantedType, h]

/-- What comes of asking for the type of a site, given the type that the resolver knows. -/
inductive Asked (s : Site) : Option Ty → Except FixError TypeExpr → Prop where
  | unresolved : Asked s none (.error (.unresolvedType s.id))
  | nameless {ty leaf : Ty} : ty.isNameable = false → ty.nameless? = some leaf →
      Asked s (some ty) (.error (.nameless s.id leaf.text))
  | spelled {ty : Ty} {type : TypeExpr} : ty.isNameable = true → Asked s (some ty) (.ok type)

/-- The placeholder can be replaced by the type that is known, unless a leaf of it has no name. -/
theorem asked_wantedType (hr : r.SpellsUsually) (h : s.slot.isImplicit = true) :
    Asked s (r.declaredType t s) (r.wantedType t s .useExplicit) := by
  simp only [wantedType, h, Bool.not_true, Bool.false_eq_true, if_false]
  cases r.declaredType t s with
  | none => exact .unresolved
  | some ty =>
    have hspell : r.spell t s ty = spellFor r.isImported t s ty := by rw [hr]
    have hblames := ty.blames_spellFor r.isImported t s
    rw [← hspell] at hblames
    cases hleaf : ty.nameless? with
    | none =>
      rw [hleaf] at hblames
      obtain ⟨type, htype⟩ := hblames
      simp only [htype]
      exact .spelled (ty.isNameable_iff.mpr hleaf)
    | some leaf =>
      rw [hleaf] at hblames
      have herror : r.spell t s ty = .error ⟨leaf⟩ := hblames
      simp only [herror]
      refine .nameless (Bool.eq_false_iff.mpr fun hnameable => ?_) hleaf
      rw [ty.isNameable_iff, hleaf] at hnameable
      cases hnameable

/-- A type of which all leaves have names can be written in place of the placeholder. -/
theorem exists_wantedType (hr : r.SpellsUsually) (h : s.slot.isImplicit = true) {ty : Ty}
    (hdeclared : r.declaredType t s = some ty) (hnameable : ty.isNameable = true) :
    ∃ type, r.wantedType t s .useExplicit = .ok type := by
  have hasked := asked_wantedType (t := t) hr h
  rw [hdeclared] at hasked
  generalize r.wantedType t s .useExplicit = wanted at hasked
  cases hasked with
  | nameless hnot _ =>
    rw [hnameable] at hnot
    cases hnot
  | spelled _ => exact ⟨_, rfl⟩

/-- What a fix at a site that fits leaves there. -/
theorem slot_of_fix (hr : r.SpellsUsually) {g : Finding} {fix : Fix} (hs : t.site? g.site = some s)
    (hfix : r.fix t g = .ok fix) :
    fix.old = s.slot ∧ (fix.tree.site? g.site).map Site.slot = some fix.new ∧
      fix.new.isImplicit = decide (g.rule = .useImplicit) ∧
      fix.new.info.leading = s.slot.info.leading ∧
      fix.new.info.trailing = s.slot.info.trailing := by
  obtain ⟨x, type, retyped, hx, hid, hwanted, hretypes, rfl⟩ := eq_of_fix hfix
  obtain rfl := Option.some.inj (hs.symm.trans hx)
  refine ⟨hretypes.old, ?_, ?_, hretypes.trivia_new⟩
  · rw [← hid, hretypes.site?_self, Option.map_some]
  · rw [hretypes.isImplicit_new, isImplicit_of_wantedType hr hwanted]

end Resolver

namespace Linter

variable {l : Linter} {t : SyntaxTree} {s : Site} {g : Finding}

/-- The outcome of applying a finding to the tree it was made for, with the resolver that it was
    made with. The finding is never refused. It fails if it asks for a type and that is not known,
    or has a leaf without a name: the first of these leaves, from left to right, is named in the
    error. If it succeeds then the new slot has the form that was asked for, and the trivia that
    the old slot had. -/
theorem fix_of_judge (hl : l.resolver.SpellsUsually) (hs : t.site? s.id = some s)
    (hg : l.judge t s = some g) :
    (∀ id reason, l.resolver.fix t g ≠ .error (.invalidSite id reason)) ∧
    (g.rule = .useImplicit → ∃ fix, l.resolver.fix t g = .ok fix) ∧
    (g.rule = .useExplicit →
      ((∃ fix, l.resolver.fix t g = .ok fix) ↔
        ∃ ty, l.resolver.declaredType t s = some ty ∧ ty.isNameable = true) ∧
      (l.resolver.fix t g = .error (.unresolvedType s.id) ↔
        l.resolver.declaredType t s = none) ∧
      ∀ ty, l.resolver.declaredType t s = some ty → ty.isNameable = false →
        ∃ leaf, ty.leaves.find? (fun leaf => !leaf.isNameable) = some leaf ∧
          l.resolver.fix t g = .error (.nameless s.id leaf.text)) ∧
    ∀ fix, l.resolver.fix t g = .ok fix →
      fix.old = s.slot ∧ (fix.tree.site? s.id).map Site.slot = some fix.new ∧
        (fix.new.isImplicit = true ↔ g.rule = .useImplicit) ∧
        fix.new.info.leading = s.slot.info.leading ∧
        fix.new.info.trailing = s.slot.info.trailing := by
  obtain ⟨hrule, hsite, hslot, -⟩ := eq_of_judge hg
  obtain ⟨hfree, hform, -⟩ := form_of_rule? hrule
  have hs' : t.site? g.site = some s := by rw [hsite, hs]
  obtain ⟨hfails, hsucceeds⟩ := Resolver.fix_of_wantedType (r := l.resolver) hs' hslot.symm hfree
  have hok : ∀ type, l.resolver.wantedType t s g.rule = .ok type →
      ∃ fix, l.resolver.fix t g = .ok fix := by
    intro type htype
    obtain ⟨fix, _, hfix, _⟩ := hsucceeds type htype
    exact ⟨fix, hfix⟩
  have hafter : ∀ fix, l.resolver.fix t g = .ok fix →
      fix.old = s.slot ∧ (fix.tree.site? s.id).map Site.slot = some fix.new ∧
        (fix.new.isImplicit = true ↔ g.rule = .useImplicit) ∧
        fix.new.info.leading = s.slot.info.leading ∧
        fix.new.info.trailing = s.slot.info.trailing := by
    intro fix hfix
    obtain ⟨hold, hnew, himplicit, htrivia⟩ := Resolver.slot_of_fix hl hs' hfix
    rw [hsite] at hnew
    exact ⟨hold, hnew, by rw [himplicit, decide_eq_true_iff], htrivia⟩
  cases hgrule : g.rule with
  | useImplicit =>
    rw [hgrule] at hform hok hafter
    obtain ⟨fix, hfix⟩ := hok _ (Resolver.wantedType_useImplicit hform)
    refine ⟨fun id reason => by simp [hfix], fun _ => ⟨fix, hfix⟩, by simp, hafter⟩
  | useExplicit =>
    rw [hgrule] at hform hok hafter hfails
    have hasked := Resolver.asked_wantedType (t := t) hl hform
    generalize l.resolver.declaredType t s = declared at hasked ⊢
    generalize l.resolver.wantedType t s .useExplicit = wanted at hasked hok hfails
    cases hasked with
    | unresolved =>
      have hfix := hfails _ rfl
      exact ⟨by simp [hfix], by simp, fun _ => ⟨by simp [hfix], by simp [hfix], by simp⟩, hafter⟩
    | @nameless ty leaf hnameable hleaf =>
      have hfix := hfails _ rfl
      refine ⟨by simp [hfix], by simp, fun _ => ⟨?_, by simp [hfix], ?_⟩, hafter⟩
      · simp [hfix, hnameable]
      · rintro _ ⟨⟩ -
        exact ⟨leaf, hleaf, hfix⟩
    | @spelled ty type hnameable =>
      obtain ⟨fix, hfix⟩ := hok type rfl
      refine ⟨by simp [hfix], by simp, fun _ => ⟨?_, by simp [hfix], ?_⟩, hafter⟩
      · simp [hfix, hnameable]
      · rintro _ ⟨⟩ hnot
        rw [hnameable] at hnot
        cases hnot

/-- The first declaration gets the placeholder. In the second the type of the call has two leaves
    without a name, and the first of them is in the error. -/
theorem fix_of_judge_literalAndCall :
    let pair : Ty := .named (some "System") "Pair" [.array .error, .anonymous]
    let l : Linter := { resolver := ({ methods := [("f", pair)] } : Facts).resolver }
    let t := Draft.literalAndCall.finish
    let x : Finding := ⟨⟨2⟩, ⟨1⟩, ⟨0, 9⟩, ⟨0, 3⟩, .useImplicit⟩
    let y : Finding := ⟨⟨5⟩, ⟨4⟩, ⟨11, 22⟩, ⟨11, 14⟩, .useExplicit⟩
    l.scan t = [x, y] ∧ (∃ fix, l.resolver.fix t x = .ok fix ∧ fix.new.isImplicit = true) ∧
      l.resolver.fix t y = .error (.nameless ⟨5⟩ "<error>") := by
  intro pair l t x y
  let sx : Site := ⟨⟨2⟩, .keyword { id := ⟨1⟩, trailing := [.space] } "int",
    .«variables» (.statement false false) [⟨⟨0⟩, "x", some ⟨0⟩⟩]⟩
  let sy : Site := ⟨⟨5⟩, .implicit { id := ⟨4⟩, trailing := [.space] },
    .«variables» (.statement false false) [⟨⟨3⟩, "y", some ⟨2⟩⟩]⟩
  have hl : l.resolver.SpellsUsually := Facts.spellsUsually_resolver _
  have hx : l.judge t sx = some x := by rfl
  have hy : l.judge t sy = some y := by rfl
  obtain ⟨-, himplicit, -, hafter⟩ := fix_of_judge hl rfl hx
  obtain ⟨fix, hfix⟩ := himplicit rfl
  obtain ⟨-, -, hexplicit, -⟩ := fix_of_judge hl rfl hy
  obtain ⟨leaf, hleaf, herror⟩ := (hexplicit rfl).2.2 pair (by rfl) (by rfl)
  have hfirst : pair.leaves.find? (fun leaf => !leaf.isNameable) = some .error := by rfl
  obtain rfl := Option.some.inj (hleaf.symm.trans hfirst)
  exact ⟨by rfl, ⟨fix, hfix, (hafter fix hfix).2.2.1.mpr rfl⟩, herror⟩

end Linter

end TypeStyle
