-- SUMMARY: What a retyping changes and what it leaves alone: tables, written sites and traces.
import TypeStyle.Proofs.Layout.Trace
import TypeStyle.Proofs.Tree.Page

/-! # Retyping

`SyntaxTree.Retypes` says everything that a retyping does. The trace of the page,
and of the page of every reference, is the same before and after, whatever the new
type is; so the sites are written in the same order, with the same faults. -/

namespace TypeStyle

/-! ## Tables -/

/-- A site after the slot of site `id` was filled with `slot`. -/
def Site.retyped (id : NodeId) (slot : TypeExpr) (s : Site) : Site :=
  if s.id = id then { s with slot } else s

namespace Site

variable {id : NodeId} {slot : TypeExpr} {s : Site}

@[simp] theorem id_retyped : (s.retyped id slot).id = s.id := by
  unfold retyped
  split <;> rfl

@[simp] theorem shape_retyped : (s.retyped id slot).shape = s.shape := by
  unfold retyped
  split <;> rfl

@[simp] theorem initializer?_retyped : (s.retyped id slot).initializer? = s.initializer? := by
  simp [initializer?]

theorem retyped_self : s.retyped s.id slot = { s with slot } := by
  simp [retyped]

theorem retyped_of_ne (h : s.id ≠ id) : s.retyped id slot = s := by
  simp [retyped, h]

end Site

namespace Tables

variable {t : Tables} {id : NodeId} {slot : TypeExpr}

theorem sites_setSlot : (t.setSlot id slot).sites = t.sites.map (Site.retyped id slot) := rfl

theorem site?_setSlot (id' : NodeId) :
    (t.setSlot id slot).site? id' = (t.site? id').map (Site.retyped id slot) := by
  simp only [site?, sites_setSlot, List.find?_map, Function.comp_def, Site.id_retyped]

theorem site?_setSlot_of_ne {id' : NodeId} (h : id' ≠ id) :
    (t.setSlot id slot).site? id' = t.site? id' := by
  rw [site?_setSlot]
  cases hs : t.site? id' with
  | none => rfl
  | some s =>
    have hne : s.id ≠ id := by rwa [id_of_site? hs]
    rw [Option.map_some, Site.retyped_of_ne hne]

theorem site?_setSlot_self {s : Site} (h : t.site? id = some s) :
    (t.setSlot id slot).site? id = some { s with slot } := by
  rw [site?_setSlot, h, Option.map_some, ← id_of_site? h, Site.retyped_self]

@[simp] theorem exprs_setSlot : (t.setSlot id slot).exprs = t.exprs := rfl

@[simp] theorem expr?_setSlot (e : ExprId) : (t.setSlot id slot).expr? e = t.expr? e := rfl

@[simp] theorem maxDepth_setSlot : (t.setSlot id slot).maxDepth = t.maxDepth := by
  simp [maxDepth, setSlot]

theorem doc_setSlot_of_ne {r : Ref} (h : r ≠ .site id) : (t.setSlot id slot).doc r = t.doc r := by
  cases r with
  | site id' =>
    have hne : id' ≠ id := fun heq => h (by rw [heq])
    simp [doc, site?_setSlot_of_ne hne]
  | expr e => simp [doc]

end Tables

/-! ## Traces -/

theorem TypeExpr.trace_slotDoc (t : TypeExpr) : t.slotDoc.trace = [] := by
  simp [slotDoc, Mark.isSlot]

theorem Pattern.trace_doc (slot : TypeExpr) (p : Pattern) : (p.doc slot).trace = [] := by
  cases p with
  | single name => simp [Pattern.doc, TypeExpr.trace_slotDoc]
  | discard => simp [Pattern.doc, TypeExpr.trace_slotDoc]
  | group parts =>
    cases slot with
    | tuple info elements =>
      simp only [Pattern.doc]
      split
      · simp [Mark.isSlot]
      · simp [TypeExpr.trace_slotDoc]
    | _ => simp [Pattern.doc, TypeExpr.trace_slotDoc]

/-- The trace of a site does not depend on its slot. -/
theorem Site.trace_doc_slot (s : Site) (slot : TypeExpr) :
    { s with slot }.doc.trace = s.doc.trace := by
  obtain ⟨id, old, shape⟩ := s
  cases shape with
  | «variables» holder declarators => simp [Site.doc, TypeExpr.trace_slotDoc, Mark.isSlot]
  | foreach name => simp [Site.doc, TypeExpr.trace_slotDoc, Mark.isSlot]
  | outArg name => simp [Site.doc, TypeExpr.trace_slotDoc, Mark.isSlot]
  | pattern parts => simp [Site.doc, Pattern.trace_doc, Mark.isSlot]

namespace Tables

variable {t : Tables} {id : NodeId} {slot : TypeExpr}

theorem trace_doc_setSlot (r : Ref) : ((t.setSlot id slot).doc r).trace = (t.doc r).trace := by
  by_cases h : r = .site id
  · subst h
    cases hs : t.site? id with
    | none => simp [doc, site?_setSlot, hs]
    | some s => rw [doc_site hs, doc_site (site?_setSlot_self hs), Site.trace_doc_slot]
  · rw [doc_setSlot_of_ne h]

theorem trace_page?_setSlot (n : Nat) (r : Ref) :
    ((t.setSlot id slot).page? n r).map Doc.trace = (t.page? n r).map Doc.trace := by
  induction n generalizing r with
  | zero => rfl
  | succ n ih =>
    simp only [page?]
    rw [Doc.map_trace_expand, Doc.map_trace_expand, trace_doc_setSlot]
    simp only [ih]

theorem trace_pageOf?_setSlot (items : List Stmt) :
    ((t.setSlot id slot).pageOf? items).map Doc.trace = (t.pageOf? items).map Doc.trace := by
  simp only [pageOf?, maxDepth_setSlot]
  rw [Doc.map_trace_expand, Doc.map_trace_expand]
  simp only [trace_page?_setSlot]

end Tables

namespace SyntaxTree

/-! ## Retypings -/

/-- `r` is the tree `t` with `type` in the slot of its site `s`. -/
structure Retypes (t : SyntaxTree) (s : Site) (type : TypeExpr) (r : Retyped) : Prop where
  site : t.site? s.id = some s
  old : r.old = s.slot
  new : r.new = ((type.withTriviaOf s.slot).attach t.supply).1
  items : r.tree.items = t.items
  tables : r.tree.tables = t.tables.setSlot s.id r.new
  supply : r.tree.supply = ((type.withTriviaOf s.slot).attach t.supply).2

theorem retypes_of_retype {t : SyntaxTree} {id : NodeId} {type : TypeExpr} {r : Retyped}
    (h : t.retype id type = some r) : ∃ s, s.id = id ∧ t.Retypes s type r := by
  cases hs : t.site? id with
  | none => simp [retype, hs] at h
  | some s =>
    simp only [retype, hs, Option.bind_eq_bind, Option.bind_some, Option.pure_def,
      Option.some.injEq] at h
    obtain rfl := Tables.id_of_site? hs
    subst h
    exact ⟨s, rfl, hs, rfl, rfl, rfl, rfl, rfl⟩

theorem retypes_of_site? {t : SyntaxTree} {s : Site} {type : TypeExpr} {r : Retyped}
    (hs : t.site? s.id = some s) (h : t.retype s.id type = some r) : t.Retypes s type r := by
  obtain ⟨s', hid, hretypes⟩ := retypes_of_retype h
  have hsite := hretypes.site
  rw [hid, hs] at hsite
  cases hsite
  exact hretypes

/-- Any type can be put into the slot of a site. -/
theorem exists_retypes {t : SyntaxTree} {s : Site} (hs : t.site? s.id = some s) (type : TypeExpr) :
    ∃ r, t.retype s.id type = some r ∧ t.Retypes s type r := by
  have hsome : (t.retype s.id type).isSome = true :=
    retype_isSome_iff.mpr (Option.isSome_of_eq_some hs)
  obtain ⟨r, hr⟩ := Option.isSome_iff_exists.mp hsome
  exact ⟨r, hr, retypes_of_site? hs hr⟩

namespace Retypes

variable {t : SyntaxTree} {s : Site} {type : TypeExpr} {r : Retyped}

theorem site?_self (h : t.Retypes s type r) : r.tree.site? s.id = some { s with slot := r.new } := by
  rw [site?, h.tables]
  exact Tables.site?_setSlot_self h.site

theorem site?_of_ne (h : t.Retypes s type r) {id : NodeId} (hne : id ≠ s.id) :
    r.tree.site? id = t.site? id := by
  rw [site?, h.tables]
  exact Tables.site?_setSlot_of_ne hne

theorem expr? (h : t.Retypes s type r) (e : ExprId) : r.tree.expr? e = t.expr? e := by
  rw [SyntaxTree.expr?, h.tables]
  rfl

theorem exprs (h : t.Retypes s type r) : r.tree.tables.exprs = t.tables.exprs := by
  rw [h.tables, Tables.exprs_setSlot]

theorem size (h : t.Retypes s type r) :
    r.tree.tables.sites.length = t.tables.sites.length := by
  rw [h.tables, Tables.sites_setSlot, List.length_map]

theorem isImplicit_new (h : t.Retypes s type r) : r.new.isImplicit = type.isImplicit := by
  rw [h.new, TypeExpr.isImplicit_attach, TypeExpr.withTriviaOf, TypeExpr.isImplicit_withInfo]

theorem text_new (h : t.Retypes s type r) : r.new.text = type.text := by
  rw [h.new, TypeExpr.text_attach, TypeExpr.withTriviaOf, TypeExpr.text_withInfo]

theorem trace_page? (h : t.Retypes s type r) (ref : Ref) :
    (r.tree.tables.page? r.tree.tables.maxDepth ref).map Doc.trace =
      (t.tables.page? t.tables.maxDepth ref).map Doc.trace := by
  rw [h.tables, Tables.maxDepth_setSlot, Tables.trace_page?_setSlot]

/-- The page keeps its trace. -/
theorem trace_page (h : t.Retypes s type r) : r.tree.page.trace = t.page.trace := by
  have hpages : ((t.tables.setSlot s.id r.new).pageOf? t.items).map Doc.trace =
      (t.tables.pageOf? t.items).map Doc.trace := Tables.trace_pageOf?_setSlot t.items
  rw [page, page, h.items, h.tables]
  cases hp : t.tables.pageOf? t.items <;> cases hp' : (t.tables.setSlot s.id r.new).pageOf? t.items <;>
    simp_all

/-- Marks other than slots are the same, in the same order. -/
theorem filter_marks (h : t.Retypes s type r) :
    r.tree.page.marks.filter (fun m => !m.isSlot) = t.page.marks.filter fun m => !m.isSlot := by
  rw [← Doc.filterMap_getLeft?_trace, ← Doc.filterMap_getLeft?_trace, h.trace_page]

theorem mem_marks_iff (h : t.Retypes s type r) {m : Mark} (hm : m.isSlot = false) :
    m ∈ r.tree.page.marks ↔ m ∈ t.page.marks := by
  rw [Doc.mem_marks_iff_mem_trace hm, Doc.mem_marks_iff_mem_trace hm, h.trace_page]

theorem site?_eq (h : t.Retypes s type r) (id : NodeId) :
    r.tree.site? id = (t.site? id).map (Site.retyped s.id r.new) := by
  rw [site?, h.tables]
  exact Tables.site?_setSlot id

/-- What is read off marks other than slots is the same, in the same order. -/
theorem filterMap_marks (h : t.Retypes s type r) {α : Type} {f : Mark → Option α}
    (hslot : ∀ id, f (.slot id) = none) :
    r.tree.page.marks.filterMap f = t.page.marks.filterMap f := by
  have hnone : ∀ m : Mark, (!m.isSlot) = false → f m = none := by
    intro m hm
    cases m with
    | slot id => exact hslot id
    | _ => cases hm
  rw [← filterMap_filter_of_none fun m _ => hnone m, h.filter_marks,
    filterMap_filter_of_none fun m _ => hnone m]

/-- The same sites are written, in the same order. -/
theorem sites_eq (h : t.Retypes s type r) :
    r.tree.sites = t.sites.map (Site.retyped s.id r.new) := by
  rw [SyntaxTree.sites_eq, SyntaxTree.sites_eq, h.filterMap_marks fun _ => rfl,
    List.map_filterMap]
  congr 1
  funext m
  cases m with
  | site id => exact h.site?_eq id
  | _ => rfl

/-- The faults keep their messages and their order. -/
theorem messages_eq (h : t.Retypes s type r) :
    r.tree.faults.map Fault.message = t.faults.map Fault.message := by
  rw [map_message_faults, map_message_faults, h.filterMap_marks fun _ => rfl]

theorem imports_eq (h : t.Retypes s type r) : r.tree.imports = t.imports := by
  rw [imports, imports, h.items]

end Retypes

end SyntaxTree

end TypeStyle
