-- SUMMARY: A type that gave way to the placeholder comes back when the placeholder is written out again.
import TypeStyle.Proofs.Lint.Acceptance
import TypeStyle.Proofs.Lint.Meaning
import TypeStyle.Proofs.Lint.QuickFix

/-! # There and back

Putting the placeholder into a slot discards the type that was written there. It is not lost:
the placeholder was asked for because the initializer shows the type, so the declared type is
as before, and writing it out gives a slot that denotes it. The slot has kept its trivia, so if
the type is spelled the way it was written then the source is what it was. -/

namespace TypeStyle

namespace SyntaxTree

variable {t : SyntaxTree} {s : Site} {type : TypeExpr} {r : Retyped}

/-- The identity of a new slot is on no mark of the page before. -/
theorem Retypes.slot_new_not_mem_marks (h : t.Retypes s type r) (hn : t.Numbered) :
    .slot r.new.id ∉ t.page.marks := by
  intro hm
  obtain ⟨ref, href⟩ := mem_marks_page hm
  obtain ⟨x, hx, -, -, hmine⟩ := Tables.site_of_mem_marks_doc href rfl
  exact h.id_new_not_mem hn (List.mem_flatMap.mpr ⟨x, hx, hmine⟩)

/-- Retyping a slot twice, in the end with the text that was there at first. -/
theorem Retypes.source_back (h : t.Retypes s type r) (hn : t.Numbered) {type' : TypeExpr}
    {r' : Retyped} (h' : r.tree.Retypes { s with slot := r.new } type' r')
    (hplain : ∀ slot, { s with slot }.isDistributed = false) (htext : type'.text = s.slot.text) :
    r'.tree.source = t.source := by
  have hpage := h.page_eq hn (hplain s.slot) (hplain type)
  have hpage' := h'.page_eq (h.numbered hn) (hplain r.new) (hplain type')
  have hspells := hn.spells_page h.site (hplain s.slot)
  dsimp only at hpage'
  rw [hpage, Doc.respell_respell (h.slot_new_not_mem_marks hn), htext] at hpage'
  rw [source_eq, source_eq, hpage', Page.render_respell_self hspells]

end SyntaxTree

namespace Facts

variable {f : Facts} {t : SyntaxTree}

/-- The placeholder is replaced by the declared type of its site, spelled, if that can be written
    and the table knows where its names come from. The new slot denotes the type. -/
theorem fix_useExplicit {s : Site} {g : Finding} {ty : Ty} (hs : t.site? g.site = some s)
    (hslot : s.slot.id = g.slot) (hrule : g.rule = .useExplicit) (hfree : t.obstacle? s = none)
    (himplicit : s.slot.isImplicit = true) (hdeclared : f.declaredType? t s = some ty)
    (hnameable : ty.isNameable = true) (hnames : f.Names ty.namedParts) :
    ∃ spelled type fix r, ty.spell.result = .ok spelled ∧ type.text = spelled.text ∧
      t.Retypes s type r ∧ f.resolver.fix t g = .ok fix ∧ fix.tree = r.tree ∧ fix.new = r.new ∧
      f.writtenType? r.new = some ty := by
  obtain ⟨type, hwanted⟩ :=
    Resolver.exists_wantedType f.spellsUsually_resolver himplicit hdeclared hnameable
  obtain ⟨fix, r, hfix, -, htree, hnew, hr⟩ :=
    (Resolver.fix_of_wantedType hs hslot hfree).2 type (hrule ▸ hwanted)
  obtain ⟨ty', spelled, info, hty', hspelled, rfl⟩ :=
    Resolver.spelled_of_wantedType f.spellsUsually_resolver hwanted
  obtain rfl : ty' = ty := Option.some.inj (hty'.symm.trans hdeclared)
  refine ⟨spelled, _, fix, r, hspelled, spelled.text_withInfo info, hr, hfix, htree, hnew, ?_⟩
  rw [writtenType?_new hr, writtenType?_withInfo, writtenType?_of_spell hnames hspelled]

/-- A finding of a scan that asks for the placeholder can be applied. If the declared type is one
    that can be written, with simple names of which the table knows where they come from, then it
    can be written again into the slot that has the placeholder now. The new slot denotes what the
    slot denoted at first, and if that had the text that the type is spelled with then the source
    is the same, byte for byte. -/
theorem fix_back (hexprs : f.exprTypes = []) (hsites : f.siteTypes = [])
    (settings : Settings) (stop : Option (List ExprId → Bool)) (ht : t.Reachable)
    (hdiffer : InitializersDiffer t) {g : Finding}
    (hg : g ∈ (Linter.mk f.resolver settings stop).scan t) (hrule : g.rule = .useImplicit) :
    ∃ s fix, t.site? g.site = some s ∧ f.resolver.fix t g = .ok fix ∧
      ∀ ty, f.declaredType? t s = some ty → ty.isNameable = true → f.Names ty.namedParts →
        ∀ span slotSpan, ∃ spelled back, ty.spell.result = .ok spelled ∧
          f.resolver.fix fix.tree ⟨g.site, fix.new.id, span, slotSpan, .useExplicit⟩ = .ok back ∧
          back.new.text = spelled.text ∧ f.writtenType? back.new = some ty ∧
          f.writtenType? s.slot = some ty ∧
          (s.slot.text = spelled.text → back.tree.source = t.source) := by
  have hn := ht.numbered
  obtain ⟨s, hmem, hs, hjudge⟩ := Linter.exists_site_of_mem_scan hg
  obtain ⟨hsrule, hsite, hslot, -⟩ := Linter.eq_of_judge hjudge
  rw [hrule] at hsrule
  obtain ⟨hfree, hform, hprefers⟩ := Linter.form_of_rule? hsrule
  have hexplicit : s.slot.isImplicit = false := hform
  have hs' : t.site? g.site = some s := by rw [hsite, hs]
  have hwanted : f.resolver.wantedType t s .useImplicit = .ok (.implicit {}) :=
    Resolver.wantedType_useImplicit hexplicit
  obtain ⟨fix, r, hfix, -, htree, hnew, hr⟩ :=
    (Resolver.fix_of_wantedType hs' hslot.symm hfree).2 _ (hrule ▸ hwanted)
  refine ⟨s, fix, hs', hfix, ?_⟩
  intro ty hdeclared hnameable hnames span slotSpan
  -- The site with the placeholder is declared with the same type, and nothing is in its way.
  let s' : Site := { s with slot := r.new }
  have himplicit : s'.slot.isImplicit = true := hr.isImplicit_new
  have hfree' : r.tree.obstacle? s' = none := by
    rw [hr.obstacle?_eq (y := s') hn hs hr.site?_self rfl rfl, hfree]
  have hdeclared' : f.declaredType? r.tree s' = some ty := by
    rw [← hdeclared]
    exact declaredType?_fixed hexprs hdiffer hmem hform hprefers hwanted hr (by simp)
  have hback : r.tree.site? g.site = some s' := by
    rw [hsite]
    exact hr.site?_self
  obtain ⟨spelled, type, back, r', hspelled, htext, hr', hfix', htree', hnew', hwritten⟩ :=
    fix_useExplicit (g := ⟨g.site, fix.new.id, span, slotSpan, .useExplicit⟩) hback
      (congrArg TypeExpr.id hnew.symm) rfl hfree' himplicit hdeclared' hnameable hnames
  refine ⟨spelled, back, hspelled, ?_, ?_, ?_, ?_, ?_⟩
  · rw [htree, hfix']
  · rw [hnew', hr'.text_new, htext]
  · rw [hnew', hwritten]
  · rw [← hdeclared, declaredType?, hsites]
    simp [hexplicit, last?]
  · intro hsame
    rw [htree']
    exact hr.source_back hn hr' (Linter.isDistributed_of_useImplicit hsrule)
      (htext.trans hsame.symm)

/-- A generic type named like the placeholder gives way to the placeholder, and comes back. -/
theorem fix_back_genericPlaceholder :
    let f : Facts := {}
    let t := Draft.genericPlaceholder.finish
    let g : Finding := ⟨⟨3⟩, ⟨1⟩, ⟨0, 27⟩, ⟨0, 8⟩, .useImplicit⟩
    ∃ fix back, (f.linter {}).scan t = [g] ∧ f.resolver.fix t g = .ok fix ∧
      fix.tree.source = "var x = new var<int>();\n" ∧
      f.resolver.fix fix.tree ⟨⟨3⟩, fix.new.id, ⟨0, 22⟩, ⟨0, 3⟩, .useExplicit⟩ = .ok back ∧
      back.tree.source = "var<int> x = new var<int>();\n" ∧
      f.writtenType? back.new = some (.named none "var" [.predefined .int]) := by
  intro f t g
  let ty : Ty := .named none "var" [.predefined .int]
  have hscan : (f.linter {}).scan t = [g] := by rfl
  have hdiffer : InitializersDiffer t := by
    unfold InitializersDiffer
    decide +kernel
  have hnames : f.Names ty.namedParts := by
    unfold Names
    decide +kernel
  obtain ⟨s, fix, hs, hfix, hback⟩ := fix_back (f := f) rfl rfl {} none
    (.finish Draft.built_genericPlaceholder) hdiffer (hscan ▸ List.mem_singleton_self g) rfl
  obtain rfl : s = ⟨⟨3⟩, _, _⟩ := Option.some.inj (hs.symm.trans rfl)
  have hsource : (f.resolver.fix t g).toOption.map (fun fix => fix.tree.source) =
      some "var x = new var<int>();\n" := by rfl
  rw [hfix] at hsource
  obtain ⟨spelled, back, hspelled, hok, -, hwritten, -, hsame⟩ :=
    hback ty (by rfl) (by rfl) hnames ⟨0, 22⟩ ⟨0, 3⟩
  cases hspelled
  exact ⟨fix, back, hscan, hfix, Option.some.inj hsource, hok, hsame (by rfl), hwritten⟩

end Facts

end TypeStyle
