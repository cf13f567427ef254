-- SUMMARY: The quick fixes offered with reports, applied as text edits, give the source that a repair gives.
import TypeStyle.Proofs.Layout.Pieces
import TypeStyle.Proofs.Lint.Policies
import TypeStyle.Proofs.Lint.Repair
import TypeStyle.Proofs.Lint.Turn
import TypeStyle.Proofs.Text.Bytewise
import TypeStyle.Proofs.Tree.Splice
import TypeStyle.Types.Facts

/-! # Quick fixes

A report that asks for the placeholder offers an edit of its slot, found in the layout
of the scanned tree. A repair lays the tree out again after each fix. Both replace the
text under the same slot marks of the scanned tree's page: the edits all at once, and
the repair one mark after the other.

A fix also offers an edit of its own, found by comparing the two sources. -/

namespace TypeStyle

/-- The edits of the quick fixes that the reports on findings offer. -/
def quickEdits (severity : Finding → Severity) (gs : List Finding) : List Edit :=
  gs.flatMap fun g => ((g.diagnostic (severity g)).fix.map QuickFix.edits).getD []

theorem quickEdits_of_useImplicit (severity : Finding → Severity) {gs : List Finding}
    (h : ∀ g ∈ gs, g.rule = .useImplicit) :
    quickEdits severity gs = gs.map fun g => ⟨g.slotSpan, TypeExpr.placeholder⟩ := by
  induction gs with
  | nil => rfl
  | cons g gs ih =>
    have hrest := ih fun g' hg' => h g' (List.mem_cons_of_mem _ hg')
    have hfirst : ((g.diagnostic (severity g)).fix.map QuickFix.edits).getD [] =
        [⟨g.slotSpan, TypeExpr.placeholder⟩] := by
      simp [Finding.diagnostic, h g List.mem_cons_self, Rule.quickFix]
    unfold quickEdits at hrest ⊢
    rw [List.flatMap_cons, hfirst, hrest]
    rfl

/-- The marks of the slots of findings. -/
def slotMarks (gs : List Finding) (m : Mark) : Bool :=
  gs.any fun g => m = .slot g.slot

theorem slotMarks_iff {gs : List Finding} {m : Mark} :
    slotMarks gs m = true ↔ ∃ g ∈ gs, m = .slot g.slot := by
  simp [slotMarks]

/-- The slot of a finding is still in the site. -/
def Finding.Current (t : SyntaxTree) (g : Finding) : Prop :=
  ∃ s, t.site? g.site = some s ∧ s.slot.id = g.slot

/-- A finding says of a written site where its slot is. -/
def Finding.Fits (t : SyntaxTree) (g : Finding) : Prop :=
  ∃ s ∈ t.sites, g.site = s.id ∧ g.slot = s.slot.id ∧ t.spanOf s.slot.id = some g.slotSpan

theorem Finding.Fits.current {t : SyntaxTree} {g : Finding} (h : g.Fits t) : g.Current t := by
  obtain ⟨s, hs, hid, hslot, _⟩ := h
  exact ⟨s, by rw [hid, (SyntaxTree.mem_sites_iff.mp hs).1], hslot.symm⟩

/-! ## Fixing one site -/

namespace SyntaxTree.Retypes

variable {t : SyntaxTree} {s : Site} {type : TypeExpr} {r : Retyped}

/-- The findings at other sites stay current. -/
theorem current_of_ne (h : t.Retypes s type r) {g : Finding} (hne : g.site ≠ s.id)
    (hg : g.Current t) : g.Current r.tree := by
  obtain ⟨x, hx, hslot⟩ := hg
  exact ⟨x, by rw [h.site?_of_ne hne, hx], hslot⟩

/-- The new slot is not one that was there before. -/
theorem slotMarks_new (h : t.Retypes s type r) (hn : t.Numbered) {gs : List Finding}
    (hgs : ∀ g ∈ gs, g.Current t) : slotMarks gs (.slot r.new.id) = false := by
  apply Bool.eq_false_iff.mpr
  intro hmem
  obtain ⟨g, hg, heq⟩ := slotMarks_iff.mp hmem
  obtain ⟨x, hx, hslot⟩ := hgs g hg
  apply h.id_new_not_mem hn
  rw [Mark.slot.inj heq, ← hslot]
  exact List.mem_flatMap.mpr ⟨x, Tables.mem_of_site? hx, x.slotId_mem_nodeIds⟩

end SyntaxTree.Retypes

namespace Linter

variable {l : Linter} {t : SyntaxTree} {s : Site} {type : TypeExpr} {r : Retyped}

theorem fits_of_mem_scan {g : Finding} (h : g ∈ l.scan t) : g.Fits t := by
  obtain ⟨s, hs, _, hjudge⟩ := exists_site_of_mem_scan h
  obtain ⟨_, hsite, hslot, hspan⟩ := eq_of_judge hjudge
  exact ⟨s, hs, hsite, hslot, hspan⟩

/-- The placeholder is only asked for in declarations of variables. -/
theorem isDistributed_of_useImplicit (h : l.rule? t s = some .useImplicit) (slot : TypeExpr) :
    { s with slot }.isDistributed = false := by
  have hjudge : l.settings.policy.judge l.resolver t s = some .useImplicit :=
    (Option.filter_eq_some_iff.mp h).1
  obtain ⟨-, _, _, _, hshape, -⟩ := Policy.flips_of_judge hjudge
  simp only [Site.isDistributed, hshape]

/-- Putting the placeholder into a slot respells the slot. -/
theorem page_of_useImplicit (hn : t.Numbered) (hr : t.Retypes s type r)
    (hrule : l.rule? t s = some .useImplicit)
    (htype : l.resolver.wantedType t s .useImplicit = .ok type) :
    r.tree.page = t.page.respell (.slot s.slot.id) (.slot r.new.id) TypeExpr.placeholder := by
  obtain rfl : type = .implicit {} := by
    simp only [Resolver.wantedType] at htype
    split at htype
    · cases htype
    · cases htype
      rfl
  have hpage := hr.page_eq hn (isDistributed_of_useImplicit hrule s.slot)
    (isDistributed_of_useImplicit hrule _)
  rwa [TypeExpr.text] at hpage

end Linter

/-! ## Fixing one site after the other -/

namespace Repair

variable {l : Linter}

/-- A repair that puts the placeholder into slots, and skips nothing, replaces the text
    under their marks. -/
theorem source_foldl {gs : List Finding} (hrule : ∀ g ∈ gs, g.rule = .useImplicit)
    (hnodup : (gs.map Finding.site).Nodup) {R : Repair} (hn : R.tree.Numbered)
    (hcurrent : ∀ g ∈ gs, g.Current R.tree) (hskipped : (gs.foldl (step l) R).skipped = []) :
    (gs.foldl (step l) R).tree.source =
      Piece.newText (R.tree.page.pieces (slotMarks gs) TypeExpr.placeholder) := by
  induction gs generalizing R with
  | nil =>
    have hnone : ∀ m ∈ R.tree.page.marks, slotMarks [] m = false := fun _ _ => rfl
    rw [List.foldl_nil, SyntaxTree.source_eq, Page.newText_pieces_of_not_mem hnone]
  | cons g gs ih =>
    rw [List.foldl_cons] at hskipped ⊢
    rw [List.map_cons, List.nodup_cons] at hnodup
    have hgrule := hrule g List.mem_cons_self
    have hlater := skipped_foldl (l := l) gs (step l R g)
    rw [hskipped] at hlater
    have hnone : (step l R g).skipped = [] := (List.append_eq_nil_iff.mp hlater.symm).1
    have hstep := step_spec (l := l) (g := g) hn
    generalize step l R g = R' at hskipped hnone hstep ⊢
    cases hstep with
    | missing _ => simp [skip] at hnone
    | outdated _ => simp [skip] at hnone
    | failed _ => simp [skip] at hnone
    | @applied s type r fix hsiteId hsrule htype hr _ htree =>
      obtain ⟨s', hs', hslot⟩ := hcurrent g List.mem_cons_self
      rw [← hsiteId, hr.site] at hs'
      obtain rfl := Option.some.inj hs'
      rw [hgrule] at hsrule htype
      have hpage := Linter.page_of_useImplicit hn hr hsrule htype
      have hnew : slotMarks gs (.slot r.new.id) = false :=
        hr.slotMarks_new hn fun g' hg' => hcurrent g' (List.mem_cons_of_mem _ hg')
      have hrest : ∀ g' ∈ gs, g'.Current r.tree := by
        intro g' hg'
        apply hr.current_of_ne _ (hcurrent g' (List.mem_cons_of_mem _ hg'))
        intro heq
        rw [hsiteId] at heq
        exact hnodup.1 (heq ▸ List.mem_map_of_mem hg')
      have htree' : (R.record fix).tree = r.tree := htree
      have hsource := ih (R := R.record fix) (fun g' hg' => hrule g' (List.mem_cons_of_mem _ hg'))
        hnodup.2 (htree' ▸ hr.numbered hn) (htree' ▸ hrest) hskipped
      rw [hsource, htree', hpage, Page.newText_pieces_respell hnew, hslot]
      rfl

end Repair

/-! ## All edits at once -/

section

variable {t : SyntaxTree} {gs : List Finding}

theorem SyntaxTree.Numbered.flatUnder_slotMarks (hn : t.Numbered) (hfits : ∀ g ∈ gs, g.Fits t)
    (hplain : ∀ g ∈ gs, ∀ s, t.site? g.site = some s → s.isDistributed = false) :
    Page.FlatUnder (slotMarks gs) t.page := by
  intro m hm
  obtain ⟨g, hg, rfl⟩ := slotMarks_iff.mp hm
  obtain ⟨s, hs, hsite, hslot, _⟩ := hfits g hg
  have hs' := (SyntaxTree.mem_sites_iff.mp hs).1
  rw [hslot]
  exact ⟨_, hn.spells_page hs' (hplain g hg s (by rw [hsite, hs']))⟩

theorem SyntaxTree.Numbered.count_slot_of_fits (hn : t.Numbered)
    (honce : (t.sites.map Site.id).Nodup) {g : Finding} (h : g.Fits t) :
    t.page.marks.count (.slot g.slot) = 1 := by
  obtain ⟨s, hs, _, hslot, _⟩ := h
  rw [hslot]
  apply hn.count_slot_of_once (SyntaxTree.mem_sites_iff.mp hs).1
  exact List.count_eq_one_of_mem honce (List.mem_map_of_mem hs)

/-- The slots of findings at different sites are marked once each, if every site is
    written once. -/
theorem SyntaxTree.Numbered.perm_slotMarks (hn : t.Numbered) (honce : (t.sites.map Site.id).Nodup)
    (hfits : ∀ g ∈ gs, g.Fits t) (hnodup : (gs.map Finding.site).Nodup) :
    (t.page.marks.filter (slotMarks gs)).Perm (gs.map fun g => .slot g.slot) := by
  have hcount : ∀ g ∈ gs, t.page.marks.count (.slot g.slot) = 1 :=
    fun g hg => hn.count_slot_of_fits honce (hfits g hg)
  refine (List.perm_ext_iff_of_nodup ?_ ?_).mpr ?_
  · apply List.nodup_iff_count_le_one.mpr
    intro m
    by_cases hm : slotMarks gs m = true
    · obtain ⟨g, hg, rfl⟩ := slotMarks_iff.mp hm
      exact Nat.le_of_eq ((List.count_filter hm).trans (hcount g hg))
    · have hnot : m ∉ t.page.marks.filter (slotMarks gs) := fun hmem => hm (List.mem_filter.mp hmem).2
      rw [List.count_eq_zero_of_not_mem hnot]
      exact Nat.zero_le _
  · refine List.Nodup.map_on ?_ (List.Nodup.of_map _ hnodup)
    intro g hg g' hg' heq
    obtain ⟨s, hs, hsite, hslot, _⟩ := hfits g hg
    obtain ⟨s', hs', hsite', hslot', _⟩ := hfits g' hg'
    have hmem := Tables.mem_of_site? (SyntaxTree.mem_sites_iff.mp hs).1
    have hmem' := Tables.mem_of_site? (SyntaxTree.mem_sites_iff.mp hs').1
    have hsame : s.slot.id = s'.slot.id := by rw [← hslot, ← hslot', Mark.slot.inj heq]
    obtain rfl := Tables.Numbered.eq_of_mem hn hmem hmem' s.slotId_mem_nodeIds
      (hsame ▸ s'.slotId_mem_nodeIds)
    exact List.inj_on_of_nodup_map hnodup hg hg' (hsite.trans hsite'.symm)
  · intro m
    rw [List.mem_filter, slotMarks_iff, List.mem_map]
    constructor
    · rintro ⟨_, g, hg, rfl⟩
      exact ⟨g, hg, rfl⟩
    · rintro ⟨g, hg, rfl⟩
      exact ⟨List.count_pos_iff.mp (by rw [hcount g hg]; exact Nat.one_pos), g, hg, rfl⟩

/-- The edit of a slot, found by its mark. -/
def slotEdit (t : SyntaxTree) (x : String) : Mark → Edit
  | .slot id => ⟨(t.spanOf id).getD .dummy, x⟩
  | _ => ⟨.dummy, x⟩

/-- The edits of the pieces of the page are those of the findings, in some order. -/
theorem SyntaxTree.Numbered.perm_edits (hn : t.Numbered) (honce : (t.sites.map Site.id).Nodup)
    (hfits : ∀ g ∈ gs, g.Fits t)
    (hplain : ∀ g ∈ gs, ∀ s, t.site? g.site = some s → s.isDistributed = false)
    (hnodup : (gs.map Finding.site).Nodup) (x : String) :
    (Piece.edits 0 (t.page.pieces (slotMarks gs) x)).Perm (gs.map fun g => ⟨g.slotSpan, x⟩) := by
  have hperm := (hn.perm_slotMarks honce hfits hnodup).map (slotEdit t x)
  have hedits : Piece.edits 0 (t.page.pieces (slotMarks gs) x) =
      (t.page.marks.filter (slotMarks gs)).map (slotEdit t x) := by
    rw [Page.edits_pieces (hn.flatUnder_slotMarks hfits hplain), ← Page.regions_map_mark 0,
      List.filter_map, List.map_map, ← List.filterMap_eq_map, List.filterMap_filter]
    apply List.filterMap_congr
    intro r hr
    by_cases hm : slotMarks gs r.mark = true
    · obtain ⟨g, hg, heq⟩ := slotMarks_iff.mp hm
      obtain ⟨m, span⟩ := r
      dsimp only at heq hm
      subst heq
      have hspan := hn.spanOf_eq rfl (Nat.le_of_eq (hn.count_slot_of_fits honce (hfits g hg))) hr
      simp [hm, slotEdit, hspan]
    · simp [hm]
  have hfound : (gs.map fun g => Mark.slot g.slot).map (slotEdit t x) =
      gs.map fun g => ⟨g.slotSpan, x⟩ := by
    rw [List.map_map]
    apply List.map_congr_left
    intro g hg
    obtain ⟨s, _, _, hslot, hspan⟩ := hfits g hg
    simp [slotEdit, hslot, hspan]
  rw [hedits, ← hfound]
  exact hperm

end

/-! ## Agreement -/

namespace Linter

variable {l : Linter} {t : SyntaxTree} {gs : List Finding}

theorem sites_of_judgements_sublist (l : Linter) (t : SyntaxTree) (ss : List Site) :
    ((ss.filterMap (l.judge t)).map Finding.site).Sublist (ss.map Site.id) := by
  induction ss with
  | nil => exact List.Sublist.refl _
  | cons s ss ih =>
    cases hjudge : l.judge t s with
    | none =>
      rw [List.filterMap_cons_none hjudge, List.map_cons]
      exact ih.cons _
    | some g =>
      rw [List.filterMap_cons_some hjudge, List.map_cons, List.map_cons, (eq_of_judge hjudge).2.1]
      exact ih.cons_cons _

/-- The findings of a scan are at different sites, if every site is written once. -/
theorem nodup_site_scan (l : Linter) (honce : (t.sites.map Site.id).Nodup) :
    ((l.scan t).map Finding.site).Nodup :=
  (((l.scan_sublist t).map Finding.site).trans (l.sites_of_judgements_sublist t t.sites)).nodup honce

/-- The edits of findings that ask for the placeholder, in any order, give the source
    that a repair gives if it skips none of them. -/
theorem applyAll_of_repair (ht : t.Reachable) (honce : (t.sites.map Site.id).Nodup)
    (hgs : gs.Sublist ((l.scan t).filter fun g => g.rule = .useImplicit))
    (hskipped : (l.repair t gs).skipped = []) {es : List Edit} {severity : Finding → Severity}
    (hes : es.Perm (quickEdits severity gs)) :
    Edit.applyAll t.source es = some (l.repair t gs).tree.source := by
  have hn := ht.numbered
  have hmem : ∀ g ∈ gs, g ∈ l.scan t ∧ g.rule = .useImplicit := by
    intro g hg
    simpa using hgs.mem hg
  have hrule : ∀ g ∈ gs, g.rule = .useImplicit := fun g hg => (hmem g hg).2
  have hfits : ∀ g ∈ gs, g.Fits t := fun g hg => fits_of_mem_scan (hmem g hg).1
  have hnodup : (gs.map Finding.site).Nodup := by
    have hsub : gs.Sublist (l.scan t) := hgs.trans List.filter_sublist
    exact (hsub.map Finding.site).nodup (l.nodup_site_scan honce)
  have hplain : ∀ g ∈ gs, ∀ s, t.site? g.site = some s → s.isDistributed = false := by
    intro g hg s hs
    obtain ⟨x, _, hx, hjudge⟩ := exists_site_of_mem_scan (hmem g hg).1
    obtain ⟨hxrule, hid, _⟩ := eq_of_judge hjudge
    rw [hid, hx] at hs
    obtain rfl := Option.some.inj hs
    rw [hrule g hg] at hxrule
    exact isDistributed_of_useImplicit hxrule x.slot
  have hsource : (l.repair t gs).tree.source =
      Piece.newText (t.page.pieces (slotMarks gs) TypeExpr.placeholder) :=
    Repair.source_foldl hrule hnodup (R := { tree := t }) hn (fun g hg => (hfits g hg).current)
      hskipped
  have hperm := hn.perm_edits honce hfits hplain hnodup TypeExpr.placeholder
  rw [quickEdits_of_useImplicit severity hrule] at hes
  rw [hsource, SyntaxTree.source_eq, ← Page.oldText_pieces (slotMarks gs) TypeExpr.placeholder]
  have htext : ∀ e ∈ Piece.edits 0 (t.page.pieces (slotMarks gs) TypeExpr.placeholder),
      e.text = TypeExpr.placeholder := by
    intro e he
    obtain ⟨g, _, rfl⟩ := List.mem_map.mp (hperm.mem_iff.mp he)
    rfl
  exact Edit.applyAll_of_perm (hes.trans hperm.symm) htext

/-- A finding of a scan that asks for the placeholder can be fixed, and a repair of it
    alone is its fix. -/
theorem repair_singleton {g : Finding} (hg : g ∈ l.scan t)
    (hrule : g.rule = .useImplicit) :
    ∃ fix, l.resolver.fix t g = .ok fix ∧ (l.repair t [g]).tree = fix.tree ∧
      (l.repair t [g]).skipped = [] := by
  obtain ⟨s, _, hs, hjudge⟩ := exists_site_of_mem_scan hg
  obtain ⟨hsrule, hid, hslot, _⟩ := eq_of_judge hjudge
  rw [hrule] at hsrule
  have hs' : t.site? g.site = some s := by rw [hid, hs]
  obtain ⟨hfree, hform, _⟩ := form_of_rule? hsrule
  have hexplicit : s.slot.isImplicit = false := hform
  have htype : l.resolver.wantedType t s g.rule = .ok (.implicit {}) := by
    simp [Resolver.wantedType, hrule, hexplicit]
  obtain ⟨fix, r, hfix, _⟩ := (Resolver.fix_of_wantedType hs' hslot.symm hfree).2 _ htype
  have hstep : l.repair t [g] = Repair.record { tree := t } fix := by
    simp [repair, Repair.step, hs', hjudge, hfix]
  exact ⟨fix, hfix, by rw [hstep, Repair.record], by rw [hstep, Repair.record]⟩

/-- In a tree in which no site is written twice, the edits of the quick fixes agree with
    repairs and with single fixes. -/
theorem applyAll_quickEdits (l : Linter) {t : SyntaxTree} (ht : t.Reachable)
    (honce : (t.sites.map Site.id).Nodup) (severity : Finding → Severity) :
    (∀ gs : List Finding, gs.Sublist ((l.scan t).filter fun g => g.rule = .useImplicit) →
      (l.repair t gs).skipped = [] → ∀ es : List Edit, es.Perm (quickEdits severity gs) →
        Edit.applyAll t.source es = some (l.repair t gs).tree.source) ∧
      ∀ g ∈ l.scan t, g.rule = .useImplicit → ∃ fix, l.resolver.fix t g = .ok fix ∧
        Edit.applyAll t.source (quickEdits severity [g]) = some fix.tree.source := by
  refine ⟨fun gs hgs hskipped es hes => applyAll_of_repair ht honce hgs hskipped hes, ?_⟩
  intro g hg hrule
  obtain ⟨fix, hfix, htree, hskipped⟩ := repair_singleton hg hrule
  have hmem : g ∈ (l.scan t).filter fun g => g.rule = .useImplicit := by simp [hg, hrule]
  refine ⟨fix, hfix, ?_⟩
  rw [← htree]
  exact applyAll_of_repair ht honce (List.singleton_sublist.mpr hmem) hskipped (List.Perm.refl _)

end Linter

namespace Draft

/-- The draft of `int x = 1;` and, on the next line, `string s = "é";`. -/
def twoLiterals : Draft :=
  let d := (empty.addExpr (.number "1")).2
  let d := (d.declare (.statement false false) (.keyword {} "int") [("x", some ⟨0⟩)]).2
  let d := (d.addExpr (.str "" "é" false)).2
  (d.declare (.statement false false) (.keyword {} "string") [("s", some ⟨1⟩)]).2

theorem built_twoLiterals : twoLiterals.Built := by
  have hnumber := Built.empty.call (.addExpr _ (.number "1"))
  have hx := hnumber.call (.declare _ (.statement false false) (.keyword {} "int") [("x", some ⟨0⟩)])
  have hstring := hx.call (.addExpr _ (.str "" "é" false))
  exact hstring.call (.declare _ (.statement false false) (.keyword {} "string") [("s", some ⟨1⟩)])

end Draft

namespace Linter

/-- Both types are replaced, the second edit coming first. -/
theorem applyAll_quickEdits_twoLiterals :
    let l : Linter := { resolver := ({} : Facts).resolver }
    let t := Draft.twoLiterals.finish
    Edit.applyAll t.source [⟨⟨11, 17⟩, "var"⟩, ⟨⟨0, 3⟩, "var"⟩] =
      some (l.repair t (l.scan t)).tree.source ∧
    (l.repair t (l.scan t)).tree.source = "var x = 1;\nvar s = \"é\";\n" := by
  intro l t
  have hall : (l.scan t).filter (fun g => g.rule = .useImplicit) = l.scan t := by rfl
  have hedits : quickEdits (fun _ => .warning) (l.scan t) =
      [⟨⟨0, 3⟩, "var"⟩, ⟨⟨11, 17⟩, "var"⟩] := by rfl
  have honce : (t.sites.map Site.id).Nodup := by decide +kernel
  refine ⟨?_, by rfl⟩
  refine (applyAll_quickEdits l (.finish Draft.built_twoLiterals) honce fun _ => .warning).1
    (l.scan t) ?_ (by rfl) _ ?_
  · rw [hall]
  · rw [hedits]
    exact List.Perm.swap _ _ _

end Linter

/-! ## The edit of a fix -/

namespace Resolver

/-- The smallest edit between two texts whose offsets fit into a span is found on bytes
    without a failing step, and leads from the one to the other. So does the edit of a
    fix from the old source to the new. -/
theorem apply_quickFix (r : Resolver) :
    (∀ old new : String, old.utf8ByteSize ≤ Edit.maxOffset →
      Edit.bytewise? old new = some (Edit.between old new) ∧
        (Edit.between old new).span.start ≤ (Edit.between old new).span.stop ∧
        Text.IsBoundary old.toList (Edit.between old new).span.start ∧
        Text.IsBoundary old.toList (Edit.between old new).span.stop ∧
        Edit.applyAll old [Edit.between old new] = some new) ∧
      ∀ (t : SyntaxTree) (g : Finding) (fix : Fix), r.fix t g = .ok fix →
        fix.quickFix.apply t.source = some fix.tree.source := by
  constructor
  · intro old new hfits
    obtain ⟨hle, hstart, hstop⟩ := Edit.span_between old new
    exact ⟨Edit.bytewise?_eq_between hfits, hle, hstart, hstop, Edit.applyAll_between old new⟩
  · intro t g fix hfix
    have hedits : fix.quickFix.edits = [Edit.between t.source fix.tree.source] := by
      rw [← edit_of_fix hfix]
      rfl
    rw [QuickFix.apply, hedits]
    exact Edit.applyAll_between t.source fix.tree.source

/-- Two letters that differ in their second byte alone are replaced as a whole, and the type
    of `x` becomes the placeholder. -/
theorem apply_quickFix_literalAndCall :
    let r := ({} : Facts).resolver
    let t := Draft.literalAndCall.finish
    Edit.bytewise? "é = é;" "è = é;" = some ⟨⟨0, 2⟩, "è"⟩ ∧
      Edit.applyAll "é = é;" [⟨⟨0, 2⟩, "è"⟩] = some "è = é;" ∧
      ∃ fix, r.fix t ⟨⟨2⟩, ⟨1⟩, ⟨0, 9⟩, ⟨0, 3⟩, .useImplicit⟩ = .ok fix ∧
        fix.edit = ⟨⟨0, 3⟩, "var"⟩ ∧
        fix.quickFix.apply t.source = some "var x = 1;\nvar y = f();\n" := by
  intro r t
  obtain ⟨htexts, hfixes⟩ := apply_quickFix r
  obtain ⟨hbytes, _, _, _, happly⟩ := htexts "é = é;" "è = é;" (by decide)
  have hedit : Edit.between "é = é;" "è = é;" = ⟨⟨0, 2⟩, "è"⟩ := by decide +kernel
  rw [hedit] at hbytes happly
  refine ⟨hbytes, happly, ?_⟩
  cases hfix : r.fix t ⟨⟨2⟩, ⟨1⟩, ⟨0, 9⟩, ⟨0, 3⟩, .useImplicit⟩ with
  | error e =>
    have hok : (r.fix t ⟨⟨2⟩, ⟨1⟩, ⟨0, 9⟩, ⟨0, 3⟩, .useImplicit⟩).toBool = true := by rfl
    rw [hfix] at hok
    cases hok
  | ok fix =>
    have hresult : (r.fix t ⟨⟨2⟩, ⟨1⟩, ⟨0, 9⟩, ⟨0, 3⟩, .useImplicit⟩).toOption.map
        (fun fix => (fix.edit, fix.tree.source)) =
          some (⟨⟨0, 3⟩, "var"⟩, "var x = 1;\nvar y = f();\n") := by
      decide +kernel
    rw [hfix] at hresult
    obtain ⟨hfixEdit, hsource⟩ := Prod.mk.inj (Option.some.inj hresult)
    refine ⟨fix, rfl, hfixEdit, ?_⟩
    rw [hfixes t _ fix hfix, hsource]

end Resolver

end TypeStyle
