-- SUMMARY: Different sites have different spans, and written sites are listed in the order in which they begin.
import TypeStyle.Proofs.Layout.Ascent
import TypeStyle.Proofs.Tree.Mark
import TypeStyle.Proofs.Tree.Splice

/-! # Sites of a tree in order

The span of a site is that of one of its marks, so two sites are told by their spans even if
they are written many times. A tree that writes each of its sites once lists them in the order
in which they begin. -/

namespace TypeStyle

namespace SyntaxTree

variable {t : SyntaxTree} {s s' : Site} {span span' : Span}

theorem inOrder_page (t : SyntaxTree) : t.page.InOrder := t.laid_page.inOrder

/-- The span of a site is the place of one of its own marks. -/
theorem Numbered.site_region (h : t.Numbered) (hs : t.site? s.id = some s)
    (hspan : t.spanOf s.id = some span) : ⟨.site s.id, span⟩ ∈ t.page.regions 0 :=
  h.mark_of_spanOf ((h.mem_marks_iff_placed hs).mpr (Option.isSome_of_eq_some hspan)) rfl hspan

/-- Of two sites one comes before the other. -/
theorem Numbered.precedes_or_precedes (h : t.Numbered) (hs : t.site? s.id = some s)
    (hs' : t.site? s'.id = some s') (hne : s.id ≠ s'.id) (hspan : t.spanOf s.id = some span)
    (hspan' : t.spanOf s'.id = some span') : span.Precedes span' ∨ span'.Precedes span := by
  let related : Region → Region → Prop := fun r q =>
    ∀ id id', r.mark = .site id → q.mark = .site id' →
      r.span.Precedes q.span ∨ q.span.Precedes r.span
  have hpairwise : (t.page.regions 0).Pairwise related :=
    (t.inOrder_page 0).imp fun hrq id id' hid hid' => .inl (hrq id id' hid hid')
  have : Std.Symm related := ⟨fun _ _ hrq id id' hid hid' => (hrq id' id hid' hid).symm⟩
  have hregions : (⟨.site s.id, span⟩ : Region) ≠ ⟨.site s'.id, span'⟩ :=
    fun heq => hne (Mark.site.inj (Region.mk.inj heq).1)
  exact hpairwise.forall (h.site_region hs hspan) (h.site_region hs' hspan') hregions _ _ rfl rfl

/-- A span belongs to one site. -/
theorem Numbered.eq_of_spanOf (h : t.Numbered) (hs : t.site? s.id = some s)
    (hs' : t.site? s'.id = some s') (hspan : t.spanOf s.id = some span)
    (hspan' : t.spanOf s'.id = some span) : s = s' := by
  by_cases hid : s.id = s'.id
  · rw [hid, hs'] at hs
    exact (Option.some.inj hs).symm
  · rcases h.precedes_or_precedes hs hs' hid hspan hspan' with hlt | hlt
    · exact absurd hlt.start_lt (Nat.lt_irrefl _)
    · exact absurd hlt.start_lt (Nat.lt_irrefl _)

theorem mem_placedSites {x : Site × Span} :
    x ∈ t.placedSites ↔ x.1 ∈ t.sites ∧ t.spanOf x.1.id = some x.2 := by
  obtain ⟨s, span⟩ := x
  simp only [placedSites, List.mem_filterMap, Option.map_eq_some_iff, Prod.mk.injEq]
  constructor
  · rintro ⟨_, hs, _, hspan, rfl, rfl⟩
    exact ⟨hs, hspan⟩
  · rintro ⟨hs, hspan⟩
    exact ⟨s, hs, span, hspan, rfl, rfl⟩

/-- The site at the span of a site is that site. -/
theorem Numbered.siteAt_spanOf (h : t.Numbered) (hs : t.site? s.id = some s)
    (hspan : t.spanOf s.id = some span) : t.siteAt span = .ok (some s) := by
  have hm := (h.mem_marks_iff_placed hs).mpr (Option.isSome_of_eq_some hspan)
  have hplaced : (s, span) ∈ t.placedSites :=
    mem_placedSites.mpr ⟨mem_sites_iff.mpr ⟨hs, hm⟩, hspan⟩
  unfold siteAt
  split
  · next s' span' hfind =>
    have hexact : span' = span := by simpa using List.find?_some hfind
    subst hexact
    obtain ⟨hs', hspan'⟩ := mem_placedSites.mp (List.mem_of_find?_eq_some hfind)
    rw [h.eq_of_spanOf hs (mem_sites_iff.mp hs').1 hspan hspan']
  · next hfind =>
    have hnone := List.find?_eq_none.mp hfind _ hplaced
    simp at hnone

/-! ## The list of sites -/

theorem Numbered.mem_sites_iff_placed (h : t.Numbered) :
    s ∈ t.sites ↔ s ∈ t.tables.sites ∧ (t.spanOf s.id).isSome = true := by
  rw [mem_sites_iff]
  constructor
  · rintro ⟨hs, hm⟩
    exact ⟨Tables.mem_of_site? hs, (h.mem_marks_iff_placed hs).mp hm⟩
  · rintro ⟨hmem, hspan⟩
    have hs : t.site? s.id = some s := Tables.Numbered.site?_eq h hmem
    exact ⟨hs, (h.mem_marks_iff_placed hs).mpr hspan⟩

/-- Sites that are written once each are listed in order. -/
theorem Numbered.pairwise_sites (h : t.Numbered) (honce : (t.sites.map Site.id).Nodup) :
    t.sites.Pairwise fun s s' => ∃ span span', t.spanOf s.id = some span ∧
      t.spanOf s'.id = some span' ∧ span.Precedes span' := by
  -- A site that is listed for a region is written there only, so the region gives its span.
  have hspan : ∀ r ∈ t.page.regions 0, ∀ s, t.siteOf? r.mark = some s →
      r.mark = .site s.id ∧ t.spanOf s.id = some r.span := by
    intro r hr s hs
    obtain ⟨m, span⟩ := r
    cases m with
    | site id =>
      obtain rfl := Tables.id_of_site? hs
      have hmem : s ∈ t.sites :=
        mem_sites_iff.mpr ⟨hs, Page.mem_marks_of_mem_regions hr⟩
      have hcount : t.page.marks.count (.site s.id) = 1 := by
        rw [← count_site_marks hs]
        exact List.count_eq_one_of_mem honce (List.mem_map_of_mem hmem)
      exact ⟨rfl, h.spanOf_eq rfl (Nat.le_of_eq hcount) hr⟩
    | _ => cases hs
  rw [sites_eq, ← Page.regions_map_mark 0, List.filterMap_map, List.pairwise_filterMap]
  refine (t.inOrder_page 0).imp_of_mem fun {r q} hr hq hrq s hs s' hs' => ?_
  obtain ⟨hmark, hplace⟩ := hspan r hr s hs
  obtain ⟨hmark', hplace'⟩ := hspan q hq s' hs'
  exact ⟨r.span, q.span, hplace, hplace', hrq _ _ hmark hmark'⟩

end SyntaxTree

end TypeStyle
