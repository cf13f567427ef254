-- SUMMARY: A scan finds and reports sites in the order of the source, and a queue changes nothing about the reports.
import TypeStyle.Proofs.Lint.QuickFix
import TypeStyle.Proofs.Report.Queue
import TypeStyle.Proofs.Tree.Sequence

/-! # The order of a scan

Sites are numbered as they are built, an inner site before the one around it. They are listed
as they are laid out. If each is laid out once then that is the order in which they begin, and
a scan and its reports inherit it. -/

namespace TypeStyle

namespace Linter

variable {l : Linter} {t : SyntaxTree} {g : Finding} {d : Diagnostic}

theorem site_of_report? (h : l.report? g = some d) : d.site = g.span := by
  obtain ⟨severity, -, rfl⟩ := Option.map_eq_some_iff.mp h
  rfl

/-- A scan finds sites in the order in which they begin. -/
theorem pairwise_scan (hn : t.Numbered) (honce : (t.sites.map Site.id).Nodup) (l : Linter) :
    (l.scan t).Pairwise fun g g' => g.span.start < g'.span.start := by
  have hall : (t.sites.filterMap (l.judge t)).Pairwise fun g g' => g.span.start < g'.span.start := by
    refine List.pairwise_filterMap.mpr ((hn.pairwise_sites honce).imp ?_)
    rintro s s' ⟨span, span', hspan, hspan', hprecedes⟩ g hg g' hg'
    have hstart : span = g.span := Option.some.inj (hspan.symm.trans (spanOf_of_judge hg))
    have hstart' : span' = g'.span := Option.some.inj (hspan'.symm.trans (spanOf_of_judge hg'))
    rw [← hstart, ← hstart']
    exact hprecedes.start_lt
  exact hall.sublist (l.scan_sublist t)

theorem ascending_reports (hn : t.Numbered) (honce : (t.sites.map Site.id).Nodup) (l : Linter) :
    Queue.Ascending (l.reports t) := by
  refine List.pairwise_filterMap.mpr ((l.pairwise_scan hn honce).imp ?_)
  intro g g' hlt d hd d' hd'
  rw [site_of_report? hd, site_of_report? hd']
  exact hlt

/-- In a tree in which no site is laid out twice, the sites that are listed are those that have a
    span, in the order in which they begin. So a scan has at most one finding for each site, in
    that order, and a queue takes every report and hands them out as they were made. -/
theorem scan_in_order (ht : t.Reachable) (honce : (t.sites.map Site.id).Nodup) :
    (∀ s, s ∈ t.sites ↔ s ∈ t.tables.sites ∧ (t.spanOf s.id).isSome = true) ∧
    t.sites.Pairwise (fun s s' => ∃ span span', t.spanOf s.id = some span ∧
      t.spanOf s'.id = some span' ∧ span.start < span'.start) ∧
    ∀ l : Linter,
      ((l.scan t).map Finding.site).Nodup ∧
      (l.scan t).Pairwise (fun g g' => g.span.start < g'.span.start) ∧
      (∀ before d after, l.reports t = before ++ d :: after →
        (Queue.empty.addAll before).accepts d = true) ∧
      (Queue.empty.addAll (l.reports t)).size = (l.reports t).length ∧
      (Queue.empty.addAll (l.reports t)).flush = (l.reports t, Queue.empty) := by
  have hn := ht.numbered
  refine ⟨fun s => hn.mem_sites_iff_placed, (hn.pairwise_sites honce).imp ?_, fun l => ?_⟩
  · rintro s s' ⟨span, span', hspan, hspan', hprecedes⟩
    exact ⟨span, span', hspan, hspan', hprecedes.start_lt⟩
  · have hascending := l.ascending_reports hn honce
    refine ⟨l.nodup_site_scan honce, l.pairwise_scan hn honce, ?_, ?_, hascending.flush_addAll⟩
    · intro before d after heq
      rw [heq] at hascending
      exact hascending.accepts
    · rw [Queue.size, hascending.pending_addAll]

/-- The site of `z` has the smallest identity and is inside that of `x`: it is listed second. -/
theorem scan_in_order_nestedOutArg :
    let t := Draft.nestedOutArg.finish
    let l : Linter := { resolver := ({} : Facts).resolver }
    t.sites.map Site.id = [⟨4⟩, ⟨1⟩, ⟨7⟩] ∧
      (l.scan t).map (fun g => g.span.start) = [0, 10, 22] ∧
      (Queue.empty.addAll (l.reports t)).flush.1.map Diagnostic.site =
        [⟨0, 20⟩, ⟨10, 19⟩, ⟨22, 31⟩] := by
  intro t l
  have hids : t.sites.map Site.id = [⟨4⟩, ⟨1⟩, ⟨7⟩] := by rfl
  have honce : (t.sites.map Site.id).Nodup := by
    rw [hids]
    decide
  obtain ⟨-, -, hscan⟩ := scan_in_order (.finish Draft.built_nestedOutArg) honce
  obtain ⟨-, -, -, -, hflush⟩ := hscan l
  refine ⟨hids, by rfl, ?_⟩
  rw [hflush]
  rfl

end Linter

end TypeStyle
