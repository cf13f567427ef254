-- SUMMARY: In the page of a tree an identity has one mark, and a slot is written as often as its site.
import TypeStyle.Proofs.Tree.Identity

/-! # Marks and identities

Identities are distinct (`SyntaxTree.Numbered`), so a mark of the page is told by
its identity (`mark_eq_of_node?`), and the span of a node is that of a part under
its own mark. -/

namespace TypeStyle

theorem Site.mem_marks_doc {s : Site} {m : Mark} :
    m ∈ s.doc.marks ↔ m = .site s.id ∨ m = .slot s.slot.id ∨
      ∃ id ∈ s.shape.declaratorIds, .declarator id = m := by
  rw [s.marks_doc]
  simp

/-- The identity of a mark of a site is one of the site's. -/
theorem Site.mem_nodeIds_of_mem_marks_doc {s : Site} {m : Mark} (h : m ∈ s.doc.marks) :
    ∃ id ∈ s.nodeIds, m.node? = some id := by
  rcases mem_marks_doc.mp h with rfl | rfl | ⟨id, hid, rfl⟩
  · exact ⟨s.id, s.id_mem_nodeIds, rfl⟩
  · exact ⟨s.slot.id, s.slotId_mem_nodeIds, rfl⟩
  · exact ⟨id, by simp [nodeIds, hid], rfl⟩

/-- The marks of one site have different identities. -/
theorem Site.mark_eq_of_node? {s : Site} {m m' : Mark} (hs : s.nodeIds.Nodup)
    (hm : m ∈ s.doc.marks) (hm' : m' ∈ s.doc.marks) (h : m.node? = m'.node?) : m = m' := by
  have hslot := s.slot.id_mem_ids
  simp only [nodeIds, List.nodup_append, List.mem_append, List.mem_singleton] at hs
  obtain ⟨⟨_, _, hdecl⟩, _, hself⟩ := hs
  have hne : s.slot.id ≠ s.id := hself _ (.inr hslot) _ rfl
  rcases mem_marks_doc.mp hm with rfl | rfl | ⟨d, hd, rfl⟩ <;>
    rcases mem_marks_doc.mp hm' with rfl | rfl | ⟨d', hd', rfl⟩ <;>
    have h := Option.some.inj h
  · rfl
  · exact absurd h.symm hne
  · exact absurd h.symm (hself _ (.inl hd') _ rfl)
  · exact absurd h hne
  · rfl
  · exact absurd h.symm (hdecl _ hd' _ hslot)
  · exact absurd h (hself _ (.inl hd) _ rfl)
  · exact absurd h (hdecl _ hd _ hslot)
  · rw [h]

namespace Tables

variable {t : Tables}

/-- A mark with an identity is a mark of the site that has it, in the document of that
    site. -/
theorem site_of_mem_marks_doc {r : Ref} {m : Mark} {id : NodeId} (h : m ∈ (t.doc r).marks)
    (hid : m.node? = some id) : ∃ s ∈ t.sites, r = .site s.id ∧ m ∈ s.doc.marks ∧ id ∈ s.nodeIds := by
  cases r with
  | site id' =>
    cases hs : t.site? id' with
    | none =>
      simp [doc, hs, missing] at h
      subst h
      cases hid
    | some s =>
      rw [doc_site hs] at h
      obtain ⟨id', hmine, hnode⟩ := s.mem_nodeIds_of_mem_marks_doc h
      obtain rfl := Option.some.inj (hid.symm.trans hnode)
      exact ⟨s, mem_of_site? hs, by rw [id_of_site? hs], h, hmine⟩
  | expr e =>
    cases he : t.expr? e with
    | none =>
      simp [doc, he, missing] at h
      subst h
      cases hid
    | some x =>
      simp only [doc, he, Doc.marks_mark, List.mem_cons] at h
      rcases h with rfl | h
      · cases hid
      · obtain ⟨message, rfl⟩ := x.marks_doc _ h
        cases hid

theorem mem_marks_page? {n : Nat} {r : Ref} {p : Page} {m : Mark} (hp : t.page? n r = some p)
    (h : m ∈ p.marks) : ∃ r', m ∈ (t.doc r').marks := by
  induction n generalizing r p with
  | zero => simp [page?] at hp
  | succ n ih =>
    rcases Page.mem_marks_of_expand hp h with h | ⟨r', _, q, hq, h⟩
    · exact ⟨r, h⟩
    · exact ih hq h

variable {supply : NodeSupply}

/-- A mark with an identity of a site is in no other document than the site's. -/
theorem Numbered.not_mem_marks_doc (h : t.Numbered supply) {s : Site} (hs : s ∈ t.sites) {r : Ref}
    (hr : r ≠ .site s.id) {m : Mark} {id : NodeId} (hid : m.node? = some id)
    (hmine : id ∈ s.nodeIds) : m ∉ (t.doc r).marks := by
  intro hm
  obtain ⟨s', hs', hr', _, hmine'⟩ := site_of_mem_marks_doc hm hid
  obtain rfl := h.eq_of_mem hs hs' hmine hmine'
  exact hr hr'

/-- A site's own mark and its slot's are equally frequent in the document of any
    reference. -/
theorem Numbered.count_marks_doc (h : t.Numbered supply) {s : Site} (hs : s ∈ t.sites) (r : Ref) :
    (t.doc r).marks.count (.slot s.slot.id) = (t.doc r).marks.count (.site s.id) := by
  by_cases hr : r = .site s.id
  · have hslot : (s.shape.declaratorIds.map Mark.declarator).count (.slot s.slot.id) = 0 :=
      List.count_eq_zero_of_not_mem (by simp)
    have hsite : (s.shape.declaratorIds.map Mark.declarator).count (.site s.id) = 0 :=
      List.count_eq_zero_of_not_mem (by simp)
    rw [hr, doc_site (h.site?_eq hs), s.marks_doc]
    simp [hslot, hsite]
  · rw [List.count_eq_zero_of_not_mem (h.not_mem_marks_doc hs hr rfl s.slotId_mem_nodeIds),
      List.count_eq_zero_of_not_mem (h.not_mem_marks_doc hs hr rfl s.id_mem_nodeIds)]

theorem Numbered.count_marks_page? (h : t.Numbered supply) {s : Site} (hs : s ∈ t.sites) {n : Nat}
    {r : Ref} {p : Page} (hp : t.page? n r = some p) :
    p.marks.count (.slot s.slot.id) = p.marks.count (.site s.id) := by
  induction n generalizing r p with
  | zero => simp [page?] at hp
  | succ n ih =>
    have hexpand := Page.count_marks_expand (fun _ _ hq => ih hq) hp
    have hdoc := h.count_marks_doc hs r
    omega

end Tables

/-- Two elements of a list with the same image are equal if the image occurs only once. -/
theorem eq_of_count_map_le_one {α β : Type} [DecidableEq β] {f : α → β} {l : List α} {x y : α}
    {b : β} (h : (l.map f).count b ≤ 1) (hx : x ∈ l) (hy : y ∈ l) (hfx : f x = b) (hfy : f y = b) :
    x = y := by
  induction l with
  | nil => cases hx
  | cons a l ih =>
    have hpos : ∀ z ∈ l, f z = b → 0 < (l.map f).count b := by
      rintro z hz rfl
      exact List.count_pos_iff.mpr (List.mem_map_of_mem hz)
    rw [List.map_cons, List.count_cons] at h
    rcases List.mem_cons.mp hx with rfl | hxl <;> rcases List.mem_cons.mp hy with rfl | hyl
    · rfl
    · have := hpos y hyl hfy
      simp only [hfx, beq_self_eq_true, if_true] at h
      omega
    · have := hpos x hxl hfx
      simp only [hfy, beq_self_eq_true, if_true] at h
      omega
    · exact ih (by omega) hxl hyl

namespace SyntaxTree

variable {t : SyntaxTree}

theorem mem_marks_page {m : Mark} (h : m ∈ t.page.marks) : ∃ r, m ∈ (t.tables.doc r).marks := by
  rw [page] at h
  cases hp : t.tables.pageOf? t.items with
  | none =>
    rw [hp] at h
    cases h
  | some p =>
    rw [hp] at h
    rcases Page.mem_marks_of_expand hp h with h | ⟨r, _, q, hq, h⟩
    · rw [Stmt.marks_linesDoc] at h
      cases h
    · exact Tables.mem_marks_page? hq h

/-- The marks of the page with an identity of a site are in the document of that site. -/
theorem Numbered.mem_marks_doc (h : t.Numbered) {s : Site} (hs : s ∈ t.tables.sites) {m : Mark}
    {id : NodeId} (hm : m ∈ t.page.marks) (hid : m.node? = some id) (hmine : id ∈ s.nodeIds) :
    m ∈ s.doc.marks := by
  obtain ⟨r, hr⟩ := mem_marks_page hm
  obtain ⟨s', hs', _, hmark, hmine'⟩ := Tables.site_of_mem_marks_doc hr hid
  obtain rfl := Tables.Numbered.eq_of_mem h hs hs' hmine hmine'
  exact hmark

/-- An identity has one mark. -/
theorem Numbered.mark_eq_of_node? (h : t.Numbered) {m m' : Mark} {id : NodeId}
    (hm : m ∈ t.page.marks) (hm' : m' ∈ t.page.marks) (hid : m.node? = some id)
    (hid' : m'.node? = some id) : m = m' := by
  obtain ⟨r, hr⟩ := mem_marks_page hm
  obtain ⟨s, hs, _, hmark, hmine⟩ := Tables.site_of_mem_marks_doc hr hid
  have hmark' := h.mem_marks_doc hs hm' hid' hmine
  exact Site.mark_eq_of_node? (h.nodup_site hs) hmark hmark' (hid.trans hid'.symm)

/-- The identity of a site or of a declarator is not that of a slot. -/
theorem Numbered.slot_not_mem_marks (h : t.Numbered) {s : Site} (hs : t.site? s.id = some s)
    {id : NodeId} (hid : id = s.id ∨ id ∈ s.shape.declaratorIds) : .slot id ∉ t.page.marks := by
  intro hm
  have hmem := Tables.mem_of_site? hs
  have hmine : id ∈ s.nodeIds := by
    rcases hid with rfl | hid
    · exact s.id_mem_nodeIds
    · simp [Site.nodeIds, hid]
  have hslot : .slot id ∈ s.doc.marks := h.mem_marks_doc hmem hm rfl hmine
  have hnodup := h.nodup_site hmem
  rcases hid with rfl | hid
  · cases Site.mark_eq_of_node? hnodup hslot (Site.mem_marks_doc.mpr (.inl rfl)) rfl
  · cases Site.mark_eq_of_node? hnodup hslot (Site.mem_marks_doc.mpr (.inr (.inr ⟨id, hid, rfl⟩))) rfl

/-- A slot is written as often as its site. -/
theorem Numbered.count_slot_marks (h : t.Numbered) {s : Site} (hs : t.site? s.id = some s) :
    t.page.marks.count (.slot s.slot.id) = t.page.marks.count (.site s.id) := by
  rw [page]
  cases hp : t.tables.pageOf? t.items with
  | none => rfl
  | some p =>
    have hexpand := Page.count_marks_expand
      (fun _ _ hq => Tables.Numbered.count_marks_page? h (Tables.mem_of_site? hs) hq) hp
    simpa [Stmt.marks_linesDoc] using hexpand

/-! ## Spans -/

theorem Numbered.mark_of_spanOf (h : t.Numbered) {m : Mark} {id : NodeId} {span : Span}
    (hm : m ∈ t.page.marks) (hid : m.node? = some id) (hspan : t.spanOf id = some span) :
    ⟨m, span⟩ ∈ t.page.regions 0 := by
  obtain ⟨m', hid', hr⟩ := exists_region_of_spanOf hspan
  rw [h.mark_eq_of_node? hm (Page.mem_marks_of_mem_regions hr) hid hid']
  exact hr

/-- A node that is marked once has the span of its mark. -/
theorem Numbered.spanOf_eq (h : t.Numbered) {m : Mark} {id : NodeId} {span : Span}
    (hid : m.node? = some id) (hcount : t.page.marks.count m ≤ 1)
    (hr : ⟨m, span⟩ ∈ t.page.regions 0) : t.spanOf id = some span := by
  have hm : m ∈ t.page.marks := Page.mem_marks_of_mem_regions hr
  obtain ⟨span', hspan'⟩ := Option.isSome_iff_exists.mp (spanOf_isSome_iff.mpr ⟨m, hm, hid⟩)
  have hr' := h.mark_of_spanOf hm hid hspan'
  rw [← Page.regions_map_mark 0] at hcount
  have heq : (⟨m, span'⟩ : Region) = ⟨m, span⟩ := eq_of_count_map_le_one hcount hr' hr rfl rfl
  rw [hspan', (Region.mk.inj heq).2]

/-- A site is placed exactly if its own mark is on the page, and then its slot is too. -/
theorem Numbered.mem_marks_iff_placed (h : t.Numbered) {s : Site} (hs : t.site? s.id = some s) :
    .site s.id ∈ t.page.marks ↔ (t.spanOf s.id).isSome = true := by
  rw [spanOf_isSome_iff]
  constructor
  · intro hm
    exact ⟨_, hm, rfl⟩
  · rintro ⟨m, hm, hid⟩
    have hmem := Tables.mem_of_site? hs
    have hmark : m ∈ s.doc.marks := h.mem_marks_doc hmem hm hid s.id_mem_nodeIds
    have hself : .site s.id ∈ s.doc.marks := Site.mem_marks_doc.mpr (.inl rfl)
    rwa [← Site.mark_eq_of_node? (h.nodup_site hmem) hmark hself hid]

theorem Numbered.slot_placed (h : t.Numbered) {s : Site} (hs : t.site? s.id = some s)
    (hm : .site s.id ∈ t.page.marks) : (t.spanOf s.slot.id).isSome = true := by
  have hcount := h.count_slot_marks hs
  have hpos := List.count_pos_iff.mpr hm
  rw [← hcount] at hpos
  exact spanOf_isSome_iff.mpr ⟨_, List.count_pos_iff.mp hpos, rfl⟩

end SyntaxTree

end TypeStyle
