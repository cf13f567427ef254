-- SUMMARY: The page of a tree, and what the tree says of its nodes read off the page's marks.
import TypeStyle.Proofs.Layout.Part

/-! # The page of a tree

Everything that a tree says about places comes from one page. This module names
it, lists the marks that each node contributes, and reads the sites, spans and
faults of the tree off them. -/

namespace TypeStyle

/-! ## The marks of a node -/

theorem TypeExpr.marks_slotDoc (t : TypeExpr) : t.slotDoc.marks = [.slot t.id] := by
  simp [slotDoc]

theorem Pattern.marks_doc (slot : TypeExpr) (p : Pattern) : (p.doc slot).marks = [.slot slot.id] := by
  cases p with
  | single name => simp [Pattern.doc, TypeExpr.marks_slotDoc]
  | discard => simp [Pattern.doc, TypeExpr.marks_slotDoc]
  | group parts =>
    cases slot with
    | tuple info elements =>
      simp only [Pattern.doc]
      split
      · simp [TypeExpr.id, TypeExpr.info]
      · simp [TypeExpr.marks_slotDoc]
    | _ => simp [Pattern.doc, TypeExpr.marks_slotDoc]

/-- The identities of the declarators of a shape. -/
def Shape.declaratorIds : Shape → List NodeId
  | .«variables» _ declarators => declarators.map Declarator.id
  | .foreach _ | .outArg _ | .pattern _ => []

theorem Declarator.marks_doc (d : Declarator) : d.doc.marks = [.declarator d.id] := by
  obtain ⟨id, name, init⟩ := d
  cases init <;> simp [Declarator.doc]

theorem Site.marks_doc (s : Site) :
    s.doc.marks = .site s.id :: .slot s.slot.id :: s.shape.declaratorIds.map .declarator := by
  obtain ⟨id, slot, shape⟩ := s
  cases shape with
  | «variables» holder declarators =>
    have h : (declarators.map Declarator.doc).flatMap Doc.marks =
        declarators.map fun d => .declarator d.id := by
      simp only [List.flatMap_map, Declarator.marks_doc, ← List.map_eq_flatMap]
    simp [Site.doc, Shape.declaratorIds, TypeExpr.marks_slotDoc, Doc.marks_commaSeparated, h]
  | foreach name => simp [Site.doc, Shape.declaratorIds, TypeExpr.marks_slotDoc]
  | outArg name => simp [Site.doc, Shape.declaratorIds, TypeExpr.marks_slotDoc]
  | pattern parts => simp [Site.doc, Shape.declaratorIds, Pattern.marks_doc]

theorem Arg.marks_listDoc (args : List Arg) : (Arg.listDoc args).marks = [] := by
  have h : ∀ a : Arg, a.doc.marks = [] := by
    intro a
    cases a <;> rfl
  simp [Arg.listDoc, Doc.marks_commaSeparated, h]

/-- An expression marks nothing itself but text that is no expression. -/
theorem Expr.marks_doc (e : Expr) : ∀ m ∈ e.doc.marks, ∃ message, m = .fault message := by
  have hargs := Arg.marks_listDoc
  cases e with
  | lambda params body =>
    match params with
    | [] | [_] | _ :: _ :: _ => simp [Expr.doc]
  | defaultOf type => cases type <;> simp [Expr.doc]
  | unparsed text => simp [Expr.doc]
  | _ => simp [Expr.doc, hargs]

theorem marks_braced (depth : Nat) (isEmpty : Bool) (lines : Doc Ref) (h : lines.marks = []) :
    (braced depth isEmpty lines).marks = [] := by
  unfold braced
  split <;> simp [h]

mutual

theorem Stmt.marks_doc (depth : Nat) (s : Stmt) : (s.doc depth).marks = [] := by
  cases s with
  | usingNamespace name => simp [Stmt.doc]
  | classDef name typeParams members =>
    simp [Stmt.doc, marks_braced _ _ _ (Stmt.marks_linesDoc (depth + 1) members)]
  | method returns name body =>
    simp [Stmt.doc, marks_braced _ _ _ (Stmt.marks_linesDoc (depth + 1) body)]
  | declaration site => simp [Stmt.doc]
  | foreach site collection body =>
    simp [Stmt.doc, marks_braced _ _ _ (Stmt.marks_linesDoc (depth + 1) body)]
  | deconstruction site value => simp [Stmt.doc]
  | branch condition body =>
    simp [Stmt.doc, marks_braced _ _ _ (Stmt.marks_linesDoc (depth + 1) body)]
  | expr e => simp [Stmt.doc]

theorem Stmt.marks_linesDoc (depth : Nat) (ss : List Stmt) : (Stmt.linesDoc depth ss).marks = [] := by
  match ss with
  | [] => simp [Stmt.linesDoc]
  | s :: ss => simp [Stmt.linesDoc, Stmt.marks_doc depth s, Stmt.marks_linesDoc depth ss]

end

/-! ## The pages of references -/

namespace Tables

theorem id_of_site? {t : Tables} {id : NodeId} {s : Site} (h : t.site? id = some s) : s.id = id := by
  simpa using List.find?_some h

theorem mem_of_site? {t : Tables} {id : NodeId} {s : Site} (h : t.site? id = some s) :
    s ∈ t.sites :=
  List.mem_of_find?_eq_some h

theorem doc_site {t : Tables} {id : NodeId} {s : Site} (h : t.site? id = some s) :
    t.doc (.site id) = s.doc := by
  simp [doc, h]

/-- A reference filled in within some depth is filled in the same way within any larger. -/
theorem page?_mono {t : Tables} {m n : Nat} {r : Ref} {p : Page} (hmn : m ≤ n)
    (h : t.page? m r = some p) : t.page? n r = some p := by
  induction m generalizing n r p with
  | zero => simp [page?] at h
  | succ m ih =>
    obtain ⟨n, rfl⟩ : ∃ k, n = k + 1 := ⟨n - 1, by omega⟩
    exact Doc.expand_mono (fun _ _ => ih (by omega)) h

/-- A mark of a reference's own document names a site only if the reference does. -/
theorem eq_site_of_mem_marks_doc {t : Tables} {r : Ref} {id : NodeId}
    (h : Mark.site id ∈ (t.doc r).marks) : r = .site id ∧ (t.site? id).isSome = true := by
  cases r with
  | site id' =>
    cases hs : t.site? id' with
    | none => simp [doc, hs, missing] at h
    | some s =>
      have hid := id_of_site? hs
      simp [doc_site hs, Site.marks_doc, hid] at h
      subst h
      simp [hs]
  | expr e =>
    cases he : t.expr? e with
    | none => simp [doc, he, missing] at h
    | some x =>
      have h : Mark.site id ∈ x.doc.marks := by simpa [doc, he] using h
      obtain ⟨message, hm⟩ := x.marks_doc _ h
      cases hm

/-- What stands under the mark of a site, in any page of a reference, is the page
    of that site. -/
theorem page?_of_part {t : Tables} {n : Nat} {r : Ref} {p body : Page} {id : NodeId} {k : Nat}
    (hp : t.page? n r = some p) (h : Page.Part (.site id) body k p) :
    t.page? n (.site id) = some (.mark (.site id) body) := by
  induction n generalizing r p k with
  | zero => simp [page?] at hp
  | succ n ih =>
    have hinner : ∀ r q j, t.page? n r = some q → Page.Part (.site id) body j q →
        t.page? (n + 1) (.site id) = some (.mark (.site id) body) :=
      fun r q j hq hpart => page?_mono (Nat.le_succ n) (ih hq hpart)
    by_cases hm : Mark.site id ∈ (t.doc r).marks
    · -- The site's own document: its mark is outermost, and none is inside it.
      obtain ⟨rfl, hs⟩ := eq_site_of_mem_marks_doc hm
      obtain ⟨s, hs⟩ := Option.isSome_iff_exists.mp hs
      have hid := id_of_site? hs
      obtain ⟨inner, hdoc⟩ : ∃ inner, s.doc = .mark (.site s.id) inner := ⟨_, rfl⟩
      have hp' := hp
      rw [page?, doc_site hs, hdoc, hid] at hp'
      obtain ⟨c, hc, rfl⟩ := Doc.expand_mark_eq_some.mp hp'
      cases h with
      | here => exact hp
      | inside h =>
        have hnot : Mark.site id ∉ inner.marks := by
          have hmarks := s.marks_doc
          rw [hdoc, Doc.marks_mark, List.cons.injEq] at hmarks
          simp [hmarks.2]
        obtain ⟨r, _, q, j, hq, hpart⟩ := h.of_expand hc hnot
        exact hinner r q j hq hpart
    · obtain ⟨r, _, q, j, hq, hpart⟩ := h.of_expand hp hm
      exact hinner r q j hq hpart

end Tables

/-! ## The page -/

namespace SyntaxTree

/-- The page of a tree; the empty page if its references lead in a circle. -/
def page (t : SyntaxTree) : Page :=
  (t.tables.pageOf? t.items).getD (.text "")

theorem layout_eq_ofPage (t : SyntaxTree) : t.layout = .ofPage t.page := by
  rw [t.layout_eq, Layout.of, page]
  cases t.tables.pageOf? t.items <;> rfl

theorem source_eq (t : SyntaxTree) : t.source = t.page.render := by
  rw [source, layout_eq_ofPage, Layout.ofPage]

theorem regions_eq (t : SyntaxTree) : t.layout.regions = t.page.regions 0 := by
  rw [layout_eq_ofPage, Layout.ofPage]

/-- The page under the mark of a site: the page of the site, wherever it stands. -/
theorem page?_of_part {t : SyntaxTree} {id : NodeId} {body : Page} {k : Nat}
    (h : Page.Part (.site id) body k t.page) :
    t.tables.page? t.tables.maxDepth (.site id) = some (.mark (.site id) body) := by
  rw [page] at h
  cases hp : t.tables.pageOf? t.items with
  | none =>
    rw [hp] at h
    cases h
  | some p =>
    rw [hp] at h
    have hnot : Mark.site id ∉ (Stmt.linesDoc 0 t.items).marks := by simp [Stmt.marks_linesDoc]
    obtain ⟨r, _, q, j, hq, hpart⟩ := h.of_expand hp hnot
    exact Tables.page?_of_part hq hpart

/-! ## Reading the marks -/

/-- The site that a mark stands for. -/
def siteOf? (t : SyntaxTree) : Mark → Option Site
  | .site id => t.site? id
  | _ => none

theorem sites_eq (t : SyntaxTree) : t.sites = t.page.marks.filterMap t.siteOf? := by
  rw [sites, regions_eq, ← Page.regions_map_mark 0, List.filterMap_map]
  congr 1

theorem mem_sites_iff {t : SyntaxTree} {s : Site} :
    s ∈ t.sites ↔ t.site? s.id = some s ∧ Mark.site s.id ∈ t.page.marks := by
  rw [sites_eq, List.mem_filterMap]
  constructor
  · rintro ⟨m, hm, hs⟩
    cases m with
    | site id =>
      obtain rfl := Tables.id_of_site? hs
      exact ⟨hs, hm⟩
    | _ => cases hs
  · rintro ⟨hs, hm⟩
    exact ⟨.site s.id, hm, hs⟩

/-- A node has a span exactly if it is marked. -/
theorem spanOf_isSome_iff {t : SyntaxTree} {id : NodeId} :
    (t.spanOf id).isSome = true ↔ ∃ m ∈ t.page.marks, m.node? = some id := by
  rw [spanOf, regions_eq, ← Page.regions_map_mark 0, List.getLast?_isSome]
  constructor
  · intro h
    obtain ⟨span, hspan⟩ := List.exists_mem_of_ne_nil _ h
    obtain ⟨r, hr, hif⟩ := List.mem_filterMap.mp hspan
    split at hif
    · next hm => exact ⟨r.mark, List.mem_map_of_mem hr, hm⟩
    · cases hif
  · rintro ⟨m, hm, hid⟩
    obtain ⟨r, hr, rfl⟩ := List.mem_map.mp hm
    exact List.ne_nil_of_mem (List.mem_filterMap.mpr ⟨r, hr, if_pos hid⟩)

theorem exists_region_of_spanOf {t : SyntaxTree} {id : NodeId} {span : Span}
    (h : t.spanOf id = some span) : ∃ m, m.node? = some id ∧ ⟨m, span⟩ ∈ t.page.regions 0 := by
  rw [spanOf, regions_eq] at h
  obtain ⟨r, hr, hif⟩ := List.mem_filterMap.mp (List.mem_of_getLast? h)
  split at hif
  · next hm =>
    cases hif
    exact ⟨r.mark, hm, hr⟩
  · cases hif

/-- The message that a mark stands for. -/
def messageOf? : Mark → Option String
  | .fault message => some message
  | _ => none

theorem map_message_faults (t : SyntaxTree) :
    t.faults.map Fault.message = t.page.marks.filterMap messageOf? := by
  rw [faults, regions_eq, ← Page.regions_map_mark 0, List.filterMap_map, List.map_filterMap]
  congr 1
  funext r
  cases h : r.mark <;> simp [messageOf?, h]

theorem hasFaultIn_iff {t : SyntaxTree} {span : Span} :
    t.hasFaultIn span = true ↔
      ∃ message inner, ⟨.fault message, inner⟩ ∈ t.page.regions 0 ∧
        span.containsSpan inner = true := by
  rw [hasFaultIn, faults, regions_eq, List.any_eq_true]
  constructor
  · rintro ⟨fault, hfault, hin⟩
    obtain ⟨⟨m, inner⟩, hr, hsome⟩ := List.mem_filterMap.mp hfault
    cases m with
    | fault message =>
      cases hsome
      exact ⟨message, inner, hr, hin⟩
    | _ => cases hsome
  · rintro ⟨message, inner, hr, hin⟩
    exact ⟨⟨inner, message⟩, List.mem_filterMap.mpr ⟨_, hr, rfl⟩, hin⟩

end SyntaxTree

end TypeStyle
