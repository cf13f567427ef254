-- SUMMARY: The obstacle of a site is read off the page of the site, and no retyping changes it.
import TypeStyle.Lint.Obstacle
import TypeStyle.Proofs.Layout.Fence
import TypeStyle.Proofs.Tree.Mark

/-! # Obstacles

Whether a fault lies in the span of a site depends on spans, which every retyping
moves. Since faults never touch a site from outside, it is the same as a fault being
part of the site's page, and that is a matter of traces alone. -/

namespace TypeStyle

namespace SyntaxTree

variable {t : SyntaxTree} {s : Site}

/-- The page of site `id` has a fault in it. -/
def HoldsFault (t : SyntaxTree) (id : NodeId) : Prop :=
  ∃ p message, t.tables.page? t.tables.maxDepth (.site id) = some p ∧ .fault message ∈ p.marks

theorem Numbered.exists_part_of_spanOf (h : t.Numbered) (hs : t.site? s.id = some s) {span : Span}
    (hspan : t.spanOf s.id = some span) :
    ∃ body k, Page.Part (.site s.id) body k t.page ∧ span = ⟨k, k + body.width⟩ := by
  have hm : .site s.id ∈ t.page.marks := (h.mem_marks_iff_placed hs).mpr (by simp [hspan])
  have hr := h.mark_of_spanOf hm rfl hspan
  obtain ⟨k, body, hpart, heq⟩ := Page.mem_regions_iff.mp hr
  exact ⟨body, k, hpart, by simpa using heq⟩

/-- A fault lies in the span of a site exactly if the page of the site has one. -/
theorem Numbered.hasFaultIn_spanOf_iff (h : t.Numbered) (hs : t.site? s.id = some s) {span : Span}
    (hspan : t.spanOf s.id = some span) : t.hasFaultIn span = true ↔ t.HoldsFault s.id := by
  obtain ⟨body, k, hpart, rfl⟩ := h.exists_part_of_spanOf hs hspan
  have hpage := page?_of_part hpart
  rw [hasFaultIn_iff]
  constructor
  · rintro ⟨message, inner, hr, hin⟩
    obtain ⟨j, fault, hfault, heq⟩ := Page.mem_regions_iff.mp hr
    dsimp only at heq
    rw [heq, Span.containsSpan_iff] at hin
    dsimp only at hin
    rcases t.fenced_page hpart hfault with ⟨i, hinside⟩ | hbefore | hafter
    · exact ⟨_, message, hpage, List.mem_cons_of_mem _ hinside.mem_marks⟩
    · omega
    · omega
  · rintro ⟨p, message, hp, hm⟩
    obtain rfl := Option.some.inj (hp.symm.trans hpage)
    have hm : .fault message ∈ body.marks := by simpa using hm
    obtain ⟨i, fault, hinside⟩ := Page.exists_part_of_mem_marks hm
    refine ⟨message, ⟨k + i, k + i + fault.width⟩, ?_, ?_⟩
    · exact Page.mem_regions_iff.mpr ⟨k + i, fault, hinside.trans hpart, by simp⟩
    · have := hinside.offset_le
      rw [Span.containsSpan_iff]
      dsimp only
      omega

theorem Retypes.holdsFault_iff {type : TypeExpr} {r : Retyped} (h : t.Retypes s type r)
    (id : NodeId) : r.tree.HoldsFault id ↔ t.HoldsFault id := by
  have hmem : ∀ {p : Page} {message : String},
      .fault message ∈ p.marks ↔ .inl (.fault message) ∈ p.trace :=
    Doc.mem_marks_iff_mem_trace rfl
  have htrace := h.trace_page? (.site id)
  unfold HoldsFault
  simp only [hmem]
  constructor
  · rintro ⟨p, message, hp, hm⟩
    rw [hp] at htrace
    obtain ⟨q, hq, heq⟩ := Option.map_eq_some_iff.mp htrace.symm
    exact ⟨q, message, hq, heq ▸ hm⟩
  · rintro ⟨q, message, hq, hm⟩
    rw [hq] at htrace
    obtain ⟨p, hp, heq⟩ := Option.map_eq_some_iff.mp htrace
    exact ⟨p, message, hp, heq ▸ hm⟩

/-- A retyping leaves every written site in its place, with a fault in it as before. -/
theorem Retypes.hasFaultIn_eq {type : TypeExpr} {r : Retyped} (h : t.Retypes s type r)
    (hn : t.Numbered) {x : Site} (hx : t.site? x.id = some x) {span : Span}
    (hspan : t.spanOf x.id = some span) :
    ∃ span', r.tree.spanOf x.id = some span' ∧ r.tree.hasFaultIn span' = t.hasFaultIn span := by
  obtain ⟨y, hid, hy⟩ : ∃ y : Site, y.id = x.id ∧ r.tree.site? y.id = some y :=
    ⟨x.retyped s.id r.new, Site.id_retyped, by rw [Site.id_retyped, h.site?_eq, hx, Option.map_some]⟩
  have hm : .site x.id ∈ t.page.marks := (hn.mem_marks_iff_placed hx).mpr (by simp [hspan])
  have hplaced : (r.tree.spanOf y.id).isSome = true := by
    rw [← (h.numbered hn).mem_marks_iff_placed hy, hid]
    exact (h.mem_marks_iff rfl).mpr hm
  obtain ⟨span', hspan'⟩ := Option.isSome_iff_exists.mp hplaced
  refine ⟨span', hid ▸ hspan', ?_⟩
  rw [Bool.eq_iff_iff, hn.hasFaultIn_spanOf_iff hx hspan,
    (h.numbered hn).hasFaultIn_spanOf_iff hy hspan', hid]
  exact h.holdsFault_iff x.id

/-- A retyping leaves the obstacle of every site as it was. -/
theorem Retypes.obstacle?_eq {type : TypeExpr} {r : Retyped} (h : t.Retypes s type r)
    (hn : t.Numbered) {x y : Site} (hx : t.site? x.id = some x) (hy : r.tree.site? y.id = some y)
    (hid : y.id = x.id) (hshape : y.shape = x.shape) : r.tree.obstacle? y = t.obstacle? x := by
  unfold obstacle?
  cases hspan : t.spanOf x.id with
  | none =>
    have hunplaced : r.tree.spanOf y.id = none := by
      rw [← Option.not_isSome_iff_eq_none, ← (h.numbered hn).mem_marks_iff_placed hy, hid,
        h.mem_marks_iff rfl, hn.mem_marks_iff_placed hx, hspan]
      exact Bool.false_ne_true
    simp only [hunplaced]
  | some span =>
    obtain ⟨span', hspan', hfault⟩ := h.hasFaultIn_eq hn hx hspan
    simp only [hid, hspan', hfault, hshape]

/-- A site without obstacles is written. -/
theorem Numbered.mem_sites_of_obstacle? (h : t.Numbered) (hs : t.site? s.id = some s)
    (hfree : t.obstacle? s = none) : s ∈ t.sites := by
  refine mem_sites_iff.mpr ⟨hs, (h.mem_marks_iff_placed hs).mpr ?_⟩
  unfold obstacle? at hfree
  cases hspan : t.spanOf s.id with
  | none => simp [hspan] at hfree
  | some span => rfl

end SyntaxTree

end TypeStyle
