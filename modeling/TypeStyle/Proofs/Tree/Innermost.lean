-- SUMMARY: A query by position finds the site at the position, or else the innermost site around it.
import TypeStyle.Proofs.Tree.Provider
import TypeStyle.Proofs.Tree.Sequence

/-! # The innermost site

A query compares lengths only. That the shortest of the sites around a position is inside all
the others is a fact about pages: spans of different sites neither touch nor coincide, so those
that share a position are nested, each one strictly inside the next. -/

namespace TypeStyle

/-- `inner` begins after `outer` does, and ends before it. -/
structure Span.Within (inner outer : Span) : Prop where
  start_lt : outer.start < inner.start
  stop_lt : inner.stop < outer.stop

namespace Span

variable {a b q : Span}

/-- Of two spans around a position, the one that begins later is inside the other. -/
theorem Precedes.within (h : a.Precedes b) (hq : q.start ≤ q.stop)
    (ha : a.containsSpan q = true) (hb : b.containsSpan q = true) : b.Within a := by
  have ha := containsSpan_iff.mp ha
  have hb := containsSpan_iff.mp hb
  refine ⟨h.start_lt, h.apart.resolve_right fun hgap => ?_⟩
  omega

end Span

namespace SyntaxTree

variable {t : SyntaxTree} {s s' : Site} {span span' q : Span}

/-- The tree has the site `s`, and it is written at `span`. -/
structure Stands (t : SyntaxTree) (s : Site) (span : Span) : Prop where
  site : t.site? s.id = some s
  place : t.spanOf s.id = some span

theorem Numbered.mem_placedSites_iff_stands (h : t.Numbered) :
    (s, span) ∈ t.placedSites ↔ t.Stands s span := by
  rw [mem_placedSites]
  constructor
  · rintro ⟨hs, hspan⟩
    exact ⟨(mem_sites_iff.mp hs).1, hspan⟩
  · rintro ⟨hs, hspan⟩
    have hm := (h.mem_marks_iff_placed hs).mpr (Option.isSome_of_eq_some hspan)
    exact ⟨mem_sites_iff.mpr ⟨hs, hm⟩, hspan⟩

theorem Stands.start_le (h : t.Stands s span) : span.start ≤ span.stop := by
  obtain ⟨m, -, hr⟩ := exists_region_of_spanOf h.place
  exact (Page.regions_bounds hr).2.1

/-! ## The shortest of placed sites -/

/-- One turn of the search keeps the shorter of two sites. -/
theorem shorter_eq {best next : Site × Span} (hbest : best.2.start ≤ best.2.stop)
    (hnext : next.2.start ≤ next.2.stop) :
    shorter (some best) next = .ok (some
      (if next.2.stop - next.2.start < best.2.stop - best.2.start then next else best)) := by
  simp only [shorter, Span.length, if_pos hbest, if_pos hnext, bind, Except.bind]
  split
  · rfl
  · rfl

/-- The search does not fail, and none of the sites is shorter than the one it finds. -/
theorem exists_shortest {placed : List (Site × Span)} {best : Site × Span}
    (hordered : ∀ x ∈ best :: placed, x.2.start ≤ x.2.stop) :
    ∃ found ∈ best :: placed, placed.foldlM shorter (some best) = .ok (some found) ∧
      ∀ x ∈ best :: placed, found.2.stop - found.2.start ≤ x.2.stop - x.2.start := by
  induction placed generalizing best with
  | nil =>
    refine ⟨best, List.mem_singleton_self _, rfl, fun x hx => ?_⟩
    exact Nat.le_of_eq (by rw [List.mem_singleton.mp hx])
  | cons next rest ih =>
    obtain ⟨hbest, hnext, hrest⟩ : best.2.start ≤ best.2.stop ∧ next.2.start ≤ next.2.stop ∧
        ∀ x ∈ rest, x.2.start ≤ x.2.stop := by
      simpa only [List.forall_mem_cons] using hordered
    rw [List.foldlM_cons, shorter_eq hbest hnext]
    split
    · next hlt =>
      obtain ⟨found, hmem, heq, hmin⟩ := ih (List.forall_mem_cons.mpr ⟨hnext, hrest⟩)
      obtain ⟨hle, hmin⟩ := List.forall_mem_cons.mp hmin
      refine ⟨found, List.mem_cons_of_mem _ hmem, heq, ?_⟩
      simp only [List.forall_mem_cons]
      exact ⟨by omega, hle, hmin⟩
    · next hlt =>
      obtain ⟨found, hmem, heq, hmin⟩ := ih (List.forall_mem_cons.mpr ⟨hbest, hrest⟩)
      obtain ⟨hle, hmin⟩ := List.forall_mem_cons.mp hmin
      refine ⟨found, ?_, heq, ?_⟩
      · exact (List.mem_cons.mp hmem).elim (· ▸ List.mem_cons_self)
          fun h => List.mem_cons_of_mem _ (List.mem_cons_of_mem _ h)
      · simp only [List.forall_mem_cons]
        exact ⟨hle, by omega, hmin⟩

/-! ## The innermost site -/

/-- The site `s`, at `span`, is around `q` and strictly inside every other site around `q`. -/
structure Innermost (t : SyntaxTree) (q : Span) (s : Site) (span : Span) : Prop where
  stands : t.Stands s span
  around : span.containsSpan q = true
  within : ∀ s' span', t.Stands s' span' → s' ≠ s → span'.containsSpan q = true →
    span.Within span'

/-- The shortest of the sites around a position is the innermost. -/
theorem Numbered.innermost_of_shortest (h : t.Numbered) (hq : q.start ≤ q.stop)
    (hs : t.Stands s span) (haround : span.containsSpan q = true)
    (hmin : ∀ s' span', t.Stands s' span' → span'.containsSpan q = true →
      span.stop - span.start ≤ span'.stop - span'.start) : t.Innermost q s span := by
  refine ⟨hs, haround, fun s' span' hs' hne haround' => ?_⟩
  have hid : s.id ≠ s'.id := by
    intro heq
    have hsame := hs'.site
    rw [← heq, hs.site] at hsame
    exact hne (Option.some.inj hsame).symm
  rcases h.precedes_or_precedes hs.site hs'.site hid hs.place hs'.place with hlt | hlt
  · -- Then `s'` is strictly inside `s`, so it is the shorter one.
    have hinside := hlt.within hq haround haround'
    have hstart := hinside.start_lt
    have hstop := hinside.stop_lt
    have := hmin s' span' hs' haround'
    have := hs'.start_le
    omega
  · exact hlt.within hq haround' haround

/-- If no site is written exactly at `q`, the query is the search for the shortest site
    around `q`. -/
theorem Numbered.siteAt_of_not_stands (h : t.Numbered) (hexact : ∀ s, ¬ t.Stands s q) :
    (t.siteAt q = .ok none ∧ ∀ s span, t.Stands s span → span.containsSpan q = false) ∨
    ∃ s span, t.siteAt q = .ok (some s) ∧ t.Stands s span ∧ span.containsSpan q = true ∧
      ∀ s' span', t.Stands s' span' → span'.containsSpan q = true →
        span.stop - span.start ≤ span'.stop - span'.start := by
  unfold siteAt
  split
  · next s _ hfind =>
    obtain rfl : _ = q := by simpa using List.find?_some hfind
    exact absurd (h.mem_placedSites_iff_stands.mp (List.mem_of_find?_eq_some hfind)) (hexact s)
  · generalize haround : t.placedSites.filter _ = around
    have hmem : ∀ s span,
        (s, span) ∈ around ↔ t.Stands s span ∧ span.containsSpan q = true := by
      intro s span
      rw [← haround, List.mem_filter, h.mem_placedSites_iff_stands]
    cases around with
    | nil =>
      refine .inl ⟨rfl, fun s span hs => Bool.eq_false_iff.mpr fun hcontains => ?_⟩
      exact List.not_mem_nil ((hmem s span).mpr ⟨hs, hcontains⟩)
    | cons first rest =>
      have hordered : ∀ x ∈ first :: rest, x.2.start ≤ x.2.stop :=
        fun x hx => ((hmem x.1 x.2).mp hx).1.start_le
      obtain ⟨⟨s, span⟩, hfound, heq, hmin⟩ := exists_shortest hordered
      obtain ⟨hs, hcontains⟩ := (hmem s span).mp hfound
      have hturns : (first :: rest).foldlM shorter none = .ok (some (s, span)) := heq
      refine .inr ⟨s, span, by simp only [hturns]; rfl, hs, hcontains, fun s' span' hs' hcontains' => ?_⟩
      exact hmin (s', span') ((hmem s' span').mpr ⟨hs', hcontains'⟩)

/-- A query by position never asks for the length of a reversed span. It finds the site that is
    written exactly there, which is one at most, and otherwise the innermost site around the
    position, if there is any around it. -/
theorem siteAt_innermost (ht : t.Reachable) (q : Span) :
    (∀ s span, t.Stands s span → ∃ n, span.length = .ok n) ∧
    ∃ found, t.siteAt q = .ok found ∧
      (∀ s, t.Stands s q → found = some s) ∧
      (q.start ≤ q.stop → (∀ s, ¬ t.Stands s q) →
        (found = none ↔ ∀ s span, t.Stands s span → span.containsSpan q = false) ∧
        ∀ s, found = some s → ∃ span, t.Innermost q s span) := by
  have hn := ht.numbered
  refine ⟨fun s span hs => ⟨_, Span.length_eq_ok_iff.mpr (Nat.add_sub_cancel' hs.start_le)⟩, ?_⟩
  by_cases hexact : ∃ s, t.Stands s q
  · obtain ⟨s, hs⟩ := hexact
    have hfound := hn.siteAt_spanOf hs.site hs.place
    refine ⟨some s, hfound, fun s' hs' => ?_, fun _ hnot => absurd hs (hnot s)⟩
    rw [hn.eq_of_spanOf hs.site hs'.site hs.place hs'.place]
  · have hnot : ∀ s, ¬ t.Stands s q := fun s hs => hexact ⟨s, hs⟩
    rcases hn.siteAt_of_not_stands hnot with ⟨hfound, hclear⟩ | ⟨s, span, hfound, hs, haround, hmin⟩
    · refine ⟨none, hfound, fun s hs => absurd hs (hnot s), fun _ _ => ?_⟩
      exact ⟨iff_of_true rfl hclear, fun s hs => nomatch hs⟩
    · refine ⟨some s, hfound, fun s' hs' => absurd hs' (hnot s'), fun hq _ => ⟨?_, ?_⟩⟩
      · refine iff_of_false (Option.some_ne_none s) fun hclear => ?_
        exact Bool.eq_false_iff.mp (hclear s span hs) haround
      · rintro _ ⟨rfl⟩
        exact ⟨span, hn.innermost_of_shortest hq hs haround hmin⟩

/-- Both sites are written more than once, and stand where they are written last. A position in
    the out argument finds that, one before it the declaration around it, and one in text that
    was written earlier finds nothing. -/
theorem siteAt_innermost_sharedNodes :
    let t := Draft.sharedNodes.finish
    (∃ z, t.siteAt ⟨50, 52⟩ = .ok (some z) ∧ z.id = ⟨1⟩ ∧ t.Innermost ⟨50, 52⟩ z ⟨48, 57⟩) ∧
    (∃ x, t.siteAt ⟨40, 41⟩ = .ok (some x) ∧ x.id = ⟨4⟩ ∧ t.Innermost ⟨40, 41⟩ x ⟨38, 58⟩) ∧
    (∀ s span, t.Stands s span → span.containsSpan ⟨12, 14⟩ = false) := by
  intro t
  obtain ⟨known, hprovided⟩ := Draft.provided_sharedNodes
  have ht : t.Reachable := .finish hprovided.built
  have hspans : t.placedSites.map Prod.snd =
      [⟨38, 58⟩, ⟨48, 57⟩, ⟨48, 57⟩, ⟨38, 58⟩, ⟨48, 57⟩] := by rfl
  have hnot : ∀ q ∉ t.placedSites.map Prod.snd, ∀ s, ¬ t.Stands s q := fun q hq s hs =>
    hq (List.mem_map.mpr ⟨(s, q), ht.numbered.mem_placedSites_iff_stands.mpr hs, rfl⟩)
  have hinner : ∀ q ∉ t.placedSites.map Prod.snd, q.start ≤ q.stop → ∀ s span,
      t.siteAt q = .ok (some s) → t.spanOf s.id = some span → t.Innermost q s span := by
    intro q hq hordered s span hs hspan
    obtain ⟨-, found, hfound, -, hrest⟩ := siteAt_innermost ht q
    obtain rfl := Except.ok.inj (hfound.symm.trans hs)
    obtain ⟨place, hplace⟩ := (hrest hordered (hnot q hq)).2 s rfl
    obtain rfl := Option.some.inj (hplace.stands.place.symm.trans hspan)
    exact hplace
  rw [hspans] at hnot hinner
  refine ⟨?_, ?_, ?_⟩
  · obtain ⟨z, hz, hid, hspan⟩ : ∃ z, t.siteAt ⟨50, 52⟩ = .ok (some z) ∧ z.id = ⟨1⟩ ∧
        t.spanOf z.id = some ⟨48, 57⟩ := ⟨_, by rfl, by rfl, by rfl⟩
    exact ⟨z, hz, hid, hinner _ (by decide) (by decide) z _ hz hspan⟩
  · obtain ⟨x, hx, hid, hspan⟩ : ∃ x, t.siteAt ⟨40, 41⟩ = .ok (some x) ∧ x.id = ⟨4⟩ ∧
        t.spanOf x.id = some ⟨38, 58⟩ := ⟨_, by rfl, by rfl, by rfl⟩
    exact ⟨x, hx, hid, hinner _ (by decide) (by decide) x _ hx hspan⟩
  · obtain ⟨-, found, hfound, -, hrest⟩ := siteAt_innermost ht ⟨12, 14⟩
    have hnone : t.siteAt ⟨12, 14⟩ = .ok none := by rfl
    exact (hrest (by decide) (hnot _ (by decide))).1.mp (Except.ok.inj (hfound.symm.trans hnone))

end SyntaxTree

end TypeStyle
