-- SUMMARY: Trees that are alike but for the identities in their slots have the same source, with the same nodes in the same places.
import TypeStyle.Proofs.Tree.Mark

/-! # Likeness

Every retyping takes fresh identities from the supply, so two orders of the same
retypings give different identities to the same types. Identities are written nowhere:
those of a slot end up in its mark alone, and a page without the marks of slots has the
same text, and the other marks in the same places. -/

namespace TypeStyle

/-! ## Types without identities -/

namespace TypeExpr

mutual

/-- The type without the identities of its nodes. -/
def withoutIds : TypeExpr → TypeExpr
  | implicit info => .implicit { info with id := .detached }
  | keyword info name => .keyword { info with id := .detached } name
  | named info qualifier name args =>
    .named { info with id := .detached } qualifier name (withoutIdsList args)
  | array info element => .array { info with id := .detached } (withoutIds element)
  | nullable info inner => .nullable { info with id := .detached } (withoutIds inner)
  | tuple info elements => .tuple { info with id := .detached } (withoutIdsList elements)

def withoutIdsList : List TypeExpr → List TypeExpr
  | [] => []
  | t :: ts => withoutIds t :: withoutIdsList ts

end

theorem withoutIdsList_eq_map (ts : List TypeExpr) : withoutIdsList ts = ts.map withoutIds := by
  induction ts with
  | nil => simp [withoutIdsList]
  | cons t ts ih => simp [withoutIdsList, ih]

@[simp] theorem info_withoutIds (t : TypeExpr) :
    t.withoutIds.info = { t.info with id := .detached } := by
  cases t <;> simp [withoutIds, info]

mutual

/-- Attaching a type changes its identities alone. -/
@[simp] theorem withoutIds_attach (t : TypeExpr) (s : NodeSupply) :
    (t.attach s).1.withoutIds = t.withoutIds := by
  cases t with
  | implicit info => simp [attach, withoutIds]
  | keyword info name => simp [attach, withoutIds]
  | named info qualifier name args => simp [attach, withoutIds, withoutIdsList_attachList args]
  | array info element => simp [attach, withoutIds, withoutIds_attach element]
  | nullable info inner => simp [attach, withoutIds, withoutIds_attach inner]
  | tuple info elements => simp [attach, withoutIds, withoutIdsList_attachList elements]

theorem withoutIdsList_attachList (ts : List TypeExpr) (s : NodeSupply) :
    withoutIdsList (attachList ts s).1 = withoutIdsList ts := by
  match ts with
  | [] => simp [attachList]
  | t :: ts =>
    simp [attachList, withoutIdsList, withoutIds_attach t, withoutIdsList_attachList ts]

end

mutual

@[simp] theorem text_withoutIds (t : TypeExpr) : t.withoutIds.text = t.text := by
  cases t with
  | implicit info => simp [withoutIds, text]
  | keyword info name => simp [withoutIds, text]
  | named info qualifier name args =>
    have hempty : (args.map withoutIds).isEmpty = args.isEmpty := by simp
    simp only [withoutIds, text, textList_withoutIdsList args]
    rw [withoutIdsList_eq_map, hempty]
  | array info element => simp [withoutIds, text, text_withoutIds element]
  | nullable info inner => simp [withoutIds, text, text_withoutIds inner]
  | tuple info elements => simp [withoutIds, text, textList_withoutIdsList elements]

theorem textList_withoutIdsList (ts : List TypeExpr) : textList (withoutIdsList ts) = textList ts := by
  match ts with
  | [] => simp [withoutIdsList]
  | [t] => simp [withoutIdsList, textList, text_withoutIds t]
  | t :: u :: ts =>
    have htail := textList_withoutIdsList (u :: ts)
    simp only [withoutIdsList, textList, text_withoutIds t] at htail ⊢
    rw [htail]

end

end TypeExpr

/-- The site without the identities in its slot. -/
def Site.withoutSlotIds (s : Site) : Site := { s with slot := s.slot.withoutIds }

namespace SyntaxTree.Retypes

variable {t : SyntaxTree} {s : Site} {type : TypeExpr} {r : Retyped}

/-- But for identities, the new slot is the type with the trivia of the old slot. -/
theorem withoutSlotIds_new (h : t.Retypes s type r) :
    { s with slot := r.new }.withoutSlotIds =
      { s with slot := type.withTriviaOf s.slot }.withoutSlotIds := by
  simp [Site.withoutSlotIds, h.new]

theorem imports_new (h : t.Retypes s type r) : r.new.info.imports = type.info.imports := by
  have hslot : r.new.withoutIds = (type.withTriviaOf s.slot).withoutIds := by
    rw [h.new, TypeExpr.withoutIds_attach]
  have himports := congrArg (fun u : TypeExpr => u.info.imports) hslot
  simpa [TypeExpr.withTriviaOf] using himports

end SyntaxTree.Retypes

/-! ## Documents without slots -/

namespace Doc

variable {ρ σ : Type}

/-- The document without the marks of slots. -/
def unslotted : Doc ρ → Doc ρ
  | text s => .text s
  | append left right => left.unslotted ++ right.unslotted
  | mark m body => if m.isSlot then body.unslotted else .mark m body.unslotted
  | ref r => .ref r

@[simp] theorem unslotted_text (s : String) : (text s : Doc ρ).unslotted = .text s := rfl

@[simp] theorem unslotted_append (a b : Doc ρ) :
    (a ++ b).unslotted = a.unslotted ++ b.unslotted := rfl

@[simp] theorem unslotted_mark (m : Mark) (d : Doc ρ) :
    (mark m d).unslotted = if m.isSlot then d.unslotted else .mark m d.unslotted := rfl

@[simp] theorem unslotted_ref (r : ρ) : (ref r).unslotted = .ref r := rfl

/-- Slots stay out of the way when references are filled in. -/
theorem map_unslotted_expand (f : ρ → Option (Doc σ)) (d : Doc ρ) :
    (d.expand f).map unslotted = d.unslotted.expand fun r => (f r).map unslotted := by
  induction d with
  | text s => rfl
  | append a b iha ihb =>
    simp only [unslotted, expand, expand_append, ← iha, ← ihb]
    cases a.expand f <;> cases b.expand f <;> rfl
  | mark m body ih =>
    cases hm : m.isSlot with
    | true =>
      simp only [unslotted, hm, if_true, expand, ← ih]
      cases body.expand f <;> simp [hm]
    | false =>
      simp only [unslotted, hm, Bool.false_eq_true, if_false, expand, ← ih]
      cases body.expand f <;> simp [hm]
  | ref r => rfl

end Doc

namespace Page

/-- Marks are not part of the text. -/
theorem render_unslotted (p : Page) : render p.unslotted = p.render := by
  induction p with
  | text s => rfl
  | append a b iha ihb => simp [Doc.unslotted, render, iha, ihb]
  | mark m body ih => cases hm : m.isSlot <;> simp [hm, render, ih]
  | ref r => cases r

theorem width_unslotted (p : Page) : width p.unslotted = p.width := by
  rw [← utf8ByteSize_render, render_unslotted, utf8ByteSize_render]

/-- The other marks stay where they are. -/
theorem regions_unslotted (p : Page) (start : Nat) :
    regions start p.unslotted = (regions start p).filter fun r => !r.mark.isSlot := by
  induction p generalizing start with
  | text s => rfl
  | append a b iha ihb =>
    have happ : regions start (Doc.append a b).unslotted =
        regions start a.unslotted ++ regions (start + width a.unslotted) b.unslotted := rfl
    rw [happ, iha, ihb, width_unslotted, ← List.filter_append]
    rfl
  | mark m body ih => cases hm : m.isSlot <;> simp [hm, regions, ih, width_unslotted]
  | ref r => cases r

end Page

/-! ## Identities are not written -/

theorem TypeExpr.unslotted_slotDoc (t : TypeExpr) :
    t.withoutIds.slotDoc.unslotted = t.slotDoc.unslotted := by
  simp [slotDoc, Mark.isSlot]

theorem distributedText_withoutIdsList (elements : List TypeExpr) (parts : List Pattern) :
    distributedText (TypeExpr.withoutIdsList elements) parts = distributedText elements parts := by
  simp [distributedText, TypeExpr.withoutIdsList_eq_map, List.zipWith_map_left]

theorem Pattern.unslotted_doc (slot : TypeExpr) (p : Pattern) :
    (p.doc slot.withoutIds).unslotted = (p.doc slot).unslotted := by
  have hplain := slot.unslotted_slotDoc
  cases p with
  | single name => simp [Pattern.doc, hplain]
  | discard => simp [Pattern.doc, hplain]
  | group parts =>
    cases slot with
    | tuple info elements =>
      have hlength : (TypeExpr.withoutIdsList elements).length = elements.length := by
        simp [TypeExpr.withoutIdsList_eq_map]
      simp only [TypeExpr.withoutIds] at hplain
      simp only [Pattern.doc, TypeExpr.withoutIds, hlength, distributedText_withoutIdsList]
      split
      · rfl
      · simp [hplain]
    | _ =>
      simp only [TypeExpr.withoutIds] at hplain
      simp [Pattern.doc, TypeExpr.withoutIds, hplain]

theorem Site.unslotted_doc (s : Site) : s.withoutSlotIds.doc.unslotted = s.doc.unslotted := by
  obtain ⟨id, slot, shape⟩ := s
  cases shape with
  | «variables» holder declarators => simp [doc, withoutSlotIds, slot.unslotted_slotDoc]
  | foreach name => simp [doc, withoutSlotIds, slot.unslotted_slotDoc]
  | outArg name => simp [doc, withoutSlotIds, slot.unslotted_slotDoc]
  | pattern parts => simp [doc, withoutSlotIds, parts.unslotted_doc slot]

/-! ## Trees -/

namespace SyntaxTree

/-- The trees have the same statements and expressions, and the same sites but for the
    identities in the slots. -/
structure Alike (t t' : SyntaxTree) : Prop where
  items : t'.items = t.items
  exprs : t'.tables.exprs = t.tables.exprs
  size : t'.tables.sites.length = t.tables.sites.length
  sites : ∀ id, (t'.site? id).map Site.withoutSlotIds = (t.site? id).map Site.withoutSlotIds

namespace Alike

variable {t t' : SyntaxTree}

theorem unslotted_doc (h : t.Alike t') (r : Ref) :
    (t'.tables.doc r).unslotted = (t.tables.doc r).unslotted := by
  cases r with
  | site id =>
    have hsite : (t'.tables.site? id).map Site.withoutSlotIds =
        (t.tables.site? id).map Site.withoutSlotIds := h.sites id
    cases hs : t.tables.site? id with
    | none =>
      have hs' : t'.tables.site? id = none := by simpa [hs] using hsite
      simp [Tables.doc, hs, hs']
    | some s =>
      rw [hs, Option.map_some, Option.map_eq_some_iff] at hsite
      obtain ⟨s', hs', heq⟩ := hsite
      rw [Tables.doc_site hs, Tables.doc_site hs', ← s'.unslotted_doc, heq, s.unslotted_doc]
  | expr e => simp [Tables.doc, Tables.expr?, h.exprs]

theorem unslotted_page? (h : t.Alike t') (n : Nat) (r : Ref) :
    (t'.tables.page? n r).map Doc.unslotted = (t.tables.page? n r).map Doc.unslotted := by
  induction n generalizing r with
  | zero => rfl
  | succ n ih =>
    simp only [Tables.page?]
    rw [Doc.map_unslotted_expand, Doc.map_unslotted_expand, h.unslotted_doc]
    simp only [ih]

theorem unslotted_page (h : t.Alike t') : t'.page.unslotted = t.page.unslotted := by
  have hdepth : t'.tables.maxDepth = t.tables.maxDepth := by
    rw [Tables.maxDepth, Tables.maxDepth, h.size, h.exprs]
  have hpages : (t'.tables.pageOf? t'.items).map Doc.unslotted =
      (t.tables.pageOf? t.items).map Doc.unslotted := by
    simp only [Tables.pageOf?, h.items, hdepth]
    rw [Doc.map_unslotted_expand, Doc.map_unslotted_expand]
    simp only [h.unslotted_page?]
  rw [page, page]
  cases hp : t.tables.pageOf? t.items <;> cases hp' : t'.tables.pageOf? t'.items <;>
    simp_all

theorem source_eq (h : t.Alike t') : t'.source = t.source := by
  rw [SyntaxTree.source_eq, SyntaxTree.source_eq, ← Page.render_unslotted, h.unslotted_page,
    Page.render_unslotted]

/-! ### Places -/

/-- What is read off marks other than slots is the same, in the same order. -/
theorem filterMap_regions (h : t.Alike t') {α : Type} {f : Region → Option α}
    (hf : ∀ r ∈ t.layout.regions, (!r.mark.isSlot) = false → f r = none)
    (hf' : ∀ r ∈ t'.layout.regions, (!r.mark.isSlot) = false → f r = none) :
    t'.layout.regions.filterMap f = t.layout.regions.filterMap f := by
  rw [← filterMap_filter_of_none hf, ← filterMap_filter_of_none hf', regions_eq, regions_eq,
    ← Page.regions_unslotted, ← Page.regions_unslotted, h.unslotted_page]

theorem exprSpan_eq (h : t.Alike t') (e : ExprId) : t'.exprSpan e = t.exprSpan e := by
  have hslot : ∀ r : Region, (!r.mark.isSlot) = false →
      (if r.mark = .expr e then some r.span else none) = none := by
    intro r hr
    refine if_neg fun heq => ?_
    rw [heq] at hr
    cases hr
  unfold exprSpan
  rw [h.exprs, h.filterMap_regions (fun r _ => hslot r) (fun r _ => hslot r)]

theorem faults_eq (h : t.Alike t') : t'.faults = t.faults := by
  refine h.filterMap_regions (fun r _ hr => ?_) (fun r _ hr => ?_) <;>
    cases hm : r.mark <;> simp_all [Mark.isSlot]

/-- A node that is no slot is in the same place. -/
theorem spanOf_eq (h : t.Alike t') {id : NodeId} (hid : .slot id ∉ t.page.marks)
    (hid' : .slot id ∉ t'.page.marks) : t'.spanOf id = t.spanOf id := by
  have hslot : ∀ u : SyntaxTree, .slot id ∉ u.page.marks → ∀ r ∈ u.layout.regions,
      (!r.mark.isSlot) = false → (if r.mark.node? = some id then some r.span else none) = none := by
    intro u hu r hr hm
    refine if_neg fun hnode => ?_
    rw [u.regions_eq] at hr
    have hmem := Page.mem_marks_of_mem_regions hr
    cases hmark : r.mark with
    | slot id' =>
      rw [hmark] at hnode hmem
      obtain rfl := Option.some.inj hnode
      exact hu hmem
    | _ =>
      rw [hmark] at hm
      cases hm
  unfold spanOf
  rw [h.filterMap_regions (hslot t hid) (hslot t' hid')]

/-- The sites of alike trees have the same identities and shapes. -/
theorem exists_site (h : t.Alike t') {s : Site} (hs : t.site? s.id = some s) :
    ∃ s', t'.site? s'.id = some s' ∧ s'.id = s.id ∧ s'.shape = s.shape := by
  have hsite := h.sites s.id
  rw [hs, Option.map_some, Option.map_eq_some_iff] at hsite
  obtain ⟨s', hs', heq⟩ := hsite
  have hid : s'.withoutSlotIds.id = s.withoutSlotIds.id := congrArg Site.id heq
  have hshape : s'.withoutSlotIds.shape = s.withoutSlotIds.shape := congrArg Site.shape heq
  exact ⟨s', (congrArg t'.site? hid).trans hs', hid, hshape⟩

end Alike

end SyntaxTree

end TypeStyle
