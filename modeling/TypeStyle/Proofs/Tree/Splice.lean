-- SUMMARY: Retyping a site that is written once, in plain form, is a local splice of the source.
import TypeStyle.Proofs.Layout.Respell
import TypeStyle.Proofs.Tree.Mark

/-! # Splices

A tree is laid out again from its statements after each retyping. Unless a tuple type
is distributed over a group of names, the new page is the old one with the slot
respelled, in every place where the site is written. -/

namespace TypeStyle

/-- Whether a tuple type is distributed over the parts of a group. -/
def Site.isDistributed (s : Site) : Bool :=
  match s.shape, s.slot with
  | .pattern (.group parts), .tuple _ elements => elements.length = parts.length
  | _, _ => false

theorem Site.isDistributed_iff {s : Site} :
    s.isDistributed = true ↔ ∃ parts info elements, s.shape = .pattern (.group parts) ∧
      s.slot = .tuple info elements ∧ elements.length = parts.length := by
  unfold isDistributed
  split
  · next parts info elements hshape hslot =>
    rw [decide_eq_true_eq]
    constructor
    · intro h
      exact ⟨parts, info, elements, hshape, hslot, h⟩
    · rintro ⟨parts', info', elements', hshape', hslot', h⟩
      rw [hshape] at hshape'
      rw [hslot] at hslot'
      cases hshape'
      cases hslot'
      exact h
  · next hother =>
    simp only [Bool.false_eq_true, false_iff]
    rintro ⟨parts, info, elements, hshape, hslot, -⟩
    exact hother parts info elements hshape hslot

/-! ## Documents -/

/-- A pattern that is not distributed is written after its slot. -/
theorem Pattern.doc_of_plain {slot : TypeExpr} {p : Pattern} {id : NodeId}
    (h : Site.isDistributed ⟨id, slot, .pattern p⟩ = false) :
    p.doc slot = slot.slotDoc ++ .text p.text := by
  cases p with
  | single name => rfl
  | discard => rfl
  | group parts =>
    cases slot with
    | tuple info elements =>
      have hne : elements.length ≠ parts.length := by simpa [Site.isDistributed] using h
      simp [Pattern.doc, hne]
    | _ => rfl

namespace TypeExpr

theorem spells_slotDoc (t : TypeExpr) : t.slotDoc.Spells (.slot t.id) t.text := by
  simp [slotDoc]

theorem respell_slotDoc {t t' : TypeExpr} (hleading : t'.info.leading = t.info.leading)
    (htrailing : t'.info.trailing = t.info.trailing) :
    t.slotDoc.respell (.slot t.id) (.slot t'.id) t'.text = t'.slotDoc := by
  simp [slotDoc, hleading, htrailing]

theorem trivia_attach (t : TypeExpr) (s : NodeSupply) :
    (t.attach s).1.info.leading = t.info.leading ∧
      (t.attach s).1.info.trailing = t.info.trailing := by
  cases t <;> exact ⟨rfl, rfl⟩

end TypeExpr

namespace Site

variable {s : Site} {slot : TypeExpr}

theorem spells_doc (hplain : s.isDistributed = false) :
    s.doc.Spells (.slot s.slot.id) s.slot.text := by
  obtain ⟨id, slot, shape⟩ := s
  have hslot := slot.spells_slotDoc
  cases shape with
  | «variables» holder declarators =>
    have hrest : Mark.slot slot.id ∉ (Doc.commaSeparated (declarators.map Declarator.doc)).marks := by
      simp [Doc.marks_commaSeparated, Declarator.marks_doc]
    simp [Site.doc, hslot, Doc.spells_of_not_mem hrest]
  | foreach name => simp [Site.doc, hslot]
  | outArg name => simp [Site.doc, hslot]
  | pattern parts => simp [Site.doc, Pattern.doc_of_plain hplain, hslot]

/-- Another slot with the same trivia is the old one respelled. -/
theorem respell_doc (hplain : s.isDistributed = false)
    (hplain' : { s with slot }.isDistributed = false)
    (hleading : slot.info.leading = s.slot.info.leading)
    (htrailing : slot.info.trailing = s.slot.info.trailing) :
    s.doc.respell (.slot s.slot.id) (.slot slot.id) slot.text = { s with slot }.doc := by
  obtain ⟨id, old, shape⟩ := s
  have hslot := TypeExpr.respell_slotDoc hleading htrailing
  dsimp only at hslot hplain' ⊢
  cases shape with
  | «variables» holder declarators =>
    have hrest : Mark.slot old.id ∉ (Doc.commaSeparated (declarators.map Declarator.doc)).marks := by
      simp [Doc.marks_commaSeparated, Declarator.marks_doc]
    simp [Site.doc, hslot, Doc.respell_of_not_mem hrest]
  | foreach name => simp [Site.doc, hslot]
  | outArg name => simp [Site.doc, hslot]
  | pattern parts =>
    simp [Site.doc, Pattern.doc_of_plain hplain, Pattern.doc_of_plain hplain', hslot]

end Site

/-! ## Pages -/

namespace Tables

variable {t : Tables} {supply : NodeSupply} {s : Site}

theorem Numbered.spells_doc (h : t.Numbered supply) (hs : s ∈ t.sites)
    (hplain : s.isDistributed = false) (r : Ref) :
    (t.doc r).Spells (.slot s.slot.id) s.slot.text := by
  by_cases hr : r = .site s.id
  · rw [hr, doc_site (h.site?_eq hs)]
    exact Site.spells_doc hplain
  · exact Doc.spells_of_not_mem (h.not_mem_marks_doc hs hr rfl s.slotId_mem_nodeIds)

theorem Numbered.spells_page? (h : t.Numbered supply) (hs : s ∈ t.sites)
    (hplain : s.isDistributed = false) {n : Nat} {r : Ref} {p : Page} (hp : t.page? n r = some p) :
    p.Spells (.slot s.slot.id) s.slot.text := by
  induction n generalizing r p with
  | zero => cases hp
  | succ n ih => exact (h.spells_doc hs hplain r).expand (fun _ _ hq => ih hq) hp

variable {slot : TypeExpr}

/-- Filling a slot respells it in every document. -/
theorem Numbered.doc_setSlot (h : t.Numbered supply) (hs : s ∈ t.sites)
    (hplain : s.isDistributed = false) (hplain' : { s with slot }.isDistributed = false)
    (hleading : slot.info.leading = s.slot.info.leading)
    (htrailing : slot.info.trailing = s.slot.info.trailing) (r : Ref) :
    (t.setSlot s.id slot).doc r =
      (t.doc r).respell (.slot s.slot.id) (.slot slot.id) slot.text := by
  by_cases hr : r = .site s.id
  · have hsite := h.site?_eq hs
    rw [hr, doc_site (site?_setSlot_self hsite), doc_site hsite]
    exact (Site.respell_doc hplain hplain' hleading htrailing).symm
  · rw [doc_setSlot_of_ne hr,
      Doc.respell_of_not_mem (h.not_mem_marks_doc hs hr rfl s.slotId_mem_nodeIds)]

theorem Numbered.page?_setSlot (h : t.Numbered supply) (hs : s ∈ t.sites)
    (hplain : s.isDistributed = false) (hplain' : { s with slot }.isDistributed = false)
    (hleading : slot.info.leading = s.slot.info.leading)
    (htrailing : slot.info.trailing = s.slot.info.trailing) (n : Nat) (r : Ref) :
    (t.setSlot s.id slot).page? n r =
      (t.page? n r).map (Doc.respell (.slot s.slot.id) (.slot slot.id) slot.text) := by
  induction n generalizing r with
  | zero => rfl
  | succ n ih =>
    rw [page?, page?, h.doc_setSlot hs hplain hplain' hleading htrailing]
    exact Doc.expand_respell ih (h.spells_doc hs hplain r)

end Tables

namespace SyntaxTree

variable {t : SyntaxTree} {s : Site} {type : TypeExpr} {r : Retyped}

theorem Numbered.spells_page (h : t.Numbered) (hs : t.site? s.id = some s)
    (hplain : s.isDistributed = false) : t.page.Spells (.slot s.slot.id) s.slot.text := by
  rw [page]
  cases hp : t.tables.pageOf? t.items with
  | none => exact Doc.spells_text ""
  | some p =>
    refine Doc.Spells.expand (fun _ _ hq => ?_) (Doc.spells_of_not_mem ?_) hp
    · exact Tables.Numbered.spells_page? h (Tables.mem_of_site? hs) hplain hq
    · simp [Stmt.marks_linesDoc]

namespace Retypes

theorem trivia_new (h : t.Retypes s type r) :
    r.new.info.leading = s.slot.info.leading ∧ r.new.info.trailing = s.slot.info.trailing := by
  obtain ⟨hleading, htrailing⟩ := (type.withTriviaOf s.slot).trivia_attach t.supply
  rw [h.new, hleading, htrailing]
  simp [TypeExpr.withTriviaOf]

/-- Whether a type is distributed is a matter of its outermost shape. -/
theorem isDistributed_new (h : t.Retypes s type r) :
    { s with slot := r.new }.isDistributed = { s with slot := type }.isDistributed := by
  have hlen : ∀ (ts : List TypeExpr) (supply : NodeSupply),
      (TypeExpr.attachList ts supply).1.length = ts.length := by
    intro ts
    induction ts with
    | nil => exact fun _ => rfl
    | cons t ts ih =>
      intro supply
      simp [TypeExpr.attachList, ih]
  rw [h.new]
  obtain ⟨id, slot, shape⟩ := s
  cases shape with
  | pattern parts =>
    cases parts with
    | group parts =>
      cases type with
      | tuple info elements =>
        simp [Site.isDistributed, TypeExpr.withTriviaOf, TypeExpr.withInfo, TypeExpr.attach, hlen]
      | _ => rfl
    | _ => rfl
  | _ => rfl

/-- The new page is the old one with the slot respelled. -/
theorem page_eq (h : t.Retypes s type r) (hn : t.Numbered) (hplain : s.isDistributed = false)
    (hplain' : { s with slot := type }.isDistributed = false) :
    r.tree.page = t.page.respell (.slot s.slot.id) (.slot r.new.id) type.text := by
  obtain ⟨hleading, htrailing⟩ := h.trivia_new
  have hplain'' : { s with slot := r.new }.isDistributed = false := h.isDistributed_new.trans hplain'
  have hpages := Tables.Numbered.page?_setSlot hn (Tables.mem_of_site? h.site) hplain hplain''
    hleading htrailing t.tables.maxDepth
  have hitems : Mark.slot s.slot.id ∉ (Stmt.linesDoc 0 t.items).marks := by
    simp [Stmt.marks_linesDoc]
  have hexpand := Doc.expand_respell hpages
    (Doc.spells_of_not_mem (w := s.slot.text) hitems)
  rw [Doc.respell_of_not_mem hitems, h.text_new] at hexpand
  rw [page, page, h.items, h.tables, Tables.pageOf?, Tables.maxDepth_setSlot, hexpand,
    Tables.pageOf?]
  cases (Stmt.linesDoc 0 t.items).expand (t.tables.page? t.tables.maxDepth) <;> rfl

end Retypes

/-! ## Splices -/

/-- Putting `type` into the slot of `s` at `slot` gave `r`: a splice of the source that
    leaves everything else of the tree as it was. -/
structure Splice (t : SyntaxTree) (s : Site) (type : TypeExpr) (r : Retyped) (slot : Span) : Prop where
  source : ∃ before after, t.source = before ++ s.slot.text ++ after ∧
    before.utf8ByteSize = slot.start ∧ (before ++ s.slot.text).utf8ByteSize = slot.stop ∧
      r.tree.source = before ++ type.text ++ after
  items : r.tree.items = t.items
  imports : r.tree.imports = t.imports
  exprs : r.tree.tables.exprs = t.tables.exprs
  order : r.tree.sites.map Site.id = t.sites.map Site.id
  site : r.tree.site? s.id = some { s with slot := r.new }
  others : ∀ id, id ≠ s.id → r.tree.site? id = t.site? id
  messages : r.tree.faults.map Fault.message = t.faults.map Fault.message

/-- Every place recorded in `t`, other than that of the node `old` at `slot`, is clear of
    `slot` and is in `t'` where it moves to when `n` bytes take the place of `slot`. -/
structure Moves (t t' : SyntaxTree) (slot : Span) (n : Nat) (old new : NodeId) : Prop where
  spanOf_new : t'.spanOf new = some ⟨slot.start, slot.start + n⟩
  spanOf : ∀ id, id ≠ old → id ≠ new → t'.spanOf id = (t.spanOf id).map (slot.moved n)
  exprSpan : ∀ e, t'.exprSpan e = (t.exprSpan e).map (slot.moved n)
  faults : t'.faults = t.faults.map fun fault => ⟨slot.moved n fault.span, fault.message⟩
  clear_spanOf : ∀ id span, id ≠ old → t.spanOf id = some span → slot.Clear span
  clear_exprSpan : ∀ e span, t.exprSpan e = some span → slot.Clear span
  clear_faults : ∀ fault ∈ t.faults, slot.Clear fault.span

theorem count_site_marks (hs : t.site? s.id = some s) :
    (t.sites.map Site.id).count s.id = t.page.marks.count (.site s.id) := by
  rw [sites_eq]
  induction t.page.marks with
  | nil => rfl
  | cons m ms ih =>
    cases m with
    | site id =>
      cases hid : t.site? id with
      | none =>
        have hne : Mark.site id ≠ .site s.id := by
          intro heq
          cases heq
          rw [hs] at hid
          cases hid
        have hnone : t.siteOf? (.site id) = none := hid
        rw [List.filterMap_cons_none hnone, ih, List.count_cons_of_ne hne]
      | some x =>
        have hsome : t.siteOf? (.site id) = some x := hid
        rw [List.filterMap_cons_some hsome, List.map_cons, List.count_cons, List.count_cons, ih,
          Tables.id_of_site? hid]
        simp
    | _ => simpa [List.filterMap_cons, siteOf?] using ih

/-! ## Moved places -/

/-- The span of the last region with a mark of a certain kind. -/
def lastSpan? (p : Mark → Prop) [DecidablePred p] (regions : List Region) : Option Span :=
  (regions.filterMap fun r => if p r.mark then some r.span else none).getLast?

section

variable {l₁ l₂ : List Region} {x y : Region} {slot : Span} {n : Nat}

/-- What is read off regions other than `x` and `y` moves with them. -/
theorem filterMap_moved {α : Type} {f : Region → Option α} {g : α → α} (hx : f x = none)
    (hy : f y = none) (hf : ∀ r : Region, f (r.moved slot n) = (f r).map g) :
    (l₁.map (Region.moved slot n) ++ y :: l₂.map (Region.moved slot n)).filterMap f =
      ((l₁ ++ x :: l₂).filterMap f).map g := by
  have hmap : ∀ l : List Region, (l.map (Region.moved slot n)).filterMap f = (l.filterMap f).map g := by
    intro l
    rw [List.filterMap_map, List.map_filterMap]
    exact congrArg (l.filterMap ·) (funext hf)
  rw [List.filterMap_append, List.filterMap_append, List.filterMap_cons_none hx,
    List.filterMap_cons_none hy, hmap, hmap, List.map_append]

theorem mem_of_mem_filterMap {α : Type} {f : Region → Option α} {a : α} (hx : f x = none)
    (ha : a ∈ (l₁ ++ x :: l₂).filterMap f) : ∃ r ∈ l₁ ++ l₂, f r = some a := by
  obtain ⟨r, hr, hfr⟩ := List.mem_filterMap.mp ha
  refine ⟨r, ?_, hfr⟩
  rcases List.mem_append.mp hr with hr | hr
  · exact List.mem_append_left _ hr
  · rcases List.mem_cons.mp hr with rfl | hr
    · rw [hx] at hfr
      cases hfr
    · exact List.mem_append_right _ hr

variable {p : Mark → Prop} [DecidablePred p]

theorem lastSpan?_moved (hx : ¬ p x.mark) (hy : ¬ p y.mark) :
    lastSpan? p (l₁.map (Region.moved slot n) ++ y :: l₂.map (Region.moved slot n)) =
      (lastSpan? p (l₁ ++ x :: l₂)).map (slot.moved n) := by
  unfold lastSpan?
  rw [filterMap_moved (x := x) (g := slot.moved n), List.getLast?_map]
  · exact if_neg hx
  · exact if_neg hy
  · intro r
    by_cases hr : p r.mark <;> simp [Region.moved, hr]

theorem clear_of_lastSpan? (hx : ¬ p x.mark) (hclear : ∀ r ∈ l₁ ++ l₂, slot.Clear r.span)
    {span : Span} (h : lastSpan? p (l₁ ++ x :: l₂) = some span) : slot.Clear span := by
  obtain ⟨r, hr, hsome⟩ := mem_of_mem_filterMap (if_neg hx) (List.mem_of_getLast? h)
  split at hsome
  · cases hsome
    exact hclear r hr
  · cases hsome

end

theorem spanOf_eq_lastSpan? (t : SyntaxTree) (id : NodeId) :
    t.spanOf id = lastSpan? (fun m => m.node? = some id) t.layout.regions := rfl

theorem exprSpan_eq_lastSpan? (t : SyntaxTree) (e : ExprId) :
    t.exprSpan e =
      if e.index < t.tables.exprs.size then
        some ((lastSpan? (fun m => m = .expr e) t.layout.regions).getD .dummy)
      else
        none := rfl

/-- If the regions move, then so does everything that is read off them. -/
theorem moves_of_regions {t t' : SyntaxTree} {slot : Span} {n : Nat} {old new : NodeId}
    {l₁ l₂ : List Region} (hold : t.layout.regions = l₁ ++ ⟨.slot old, slot⟩ :: l₂)
    (hnew : t'.layout.regions = l₁.map (Region.moved slot n) ++
      ⟨.slot new, ⟨slot.start, slot.start + n⟩⟩ :: l₂.map (Region.moved slot n))
    (hclear : ∀ r ∈ l₁ ++ l₂, slot.Clear r.span)
    (hexprs : t'.tables.exprs = t.tables.exprs)
    (hspan : t'.spanOf new = some ⟨slot.start, slot.start + n⟩) : t.Moves t' slot n old new where
  spanOf_new := hspan
  spanOf id hid hid' := by
    have hx : ¬ (Mark.slot old).node? = some id := by simp [Mark.node?, Ne.symm hid]
    have hy : ¬ (Mark.slot new).node? = some id := by simp [Mark.node?, Ne.symm hid']
    rw [spanOf_eq_lastSpan?, spanOf_eq_lastSpan?, hold, hnew]
    exact lastSpan?_moved (p := fun m => m.node? = some id) hx hy
  exprSpan e := by
    have hmoved : lastSpan? (fun m => m = .expr e) (l₁.map (Region.moved slot n) ++
          ⟨.slot new, ⟨slot.start, slot.start + n⟩⟩ :: l₂.map (Region.moved slot n)) =
        (lastSpan? (fun m => m = .expr e) (l₁ ++ ⟨.slot old, slot⟩ :: l₂)).map (slot.moved n) :=
      lastSpan?_moved (by simp) (by simp)
    have hdummy : slot.moved n .dummy = .dummy := by simp [Span.moved, Span.dummy, Span.move]
    rw [exprSpan_eq_lastSpan?, exprSpan_eq_lastSpan?, hexprs, hold, hnew, hmoved]
    split
    · cases lastSpan? (fun m => m = .expr e) (l₁ ++ ⟨.slot old, slot⟩ :: l₂) with
      | none => exact congrArg some hdummy.symm
      | some span => rfl
    · rfl
  faults := by
    rw [SyntaxTree.faults, SyntaxTree.faults, hold, hnew]
    apply filterMap_moved rfl rfl
    intro r
    obtain ⟨m, span⟩ := r
    cases m <;> rfl
  clear_spanOf id span hid hspan := by
    have hx : ¬ (Mark.slot old).node? = some id := by simp [Mark.node?, Ne.symm hid]
    rw [spanOf_eq_lastSpan?, hold] at hspan
    exact clear_of_lastSpan? (p := fun m => m.node? = some id) hx hclear hspan
  clear_exprSpan e span hspan := by
    rw [exprSpan_eq_lastSpan?, hold] at hspan
    split at hspan
    · cases hlast : lastSpan? (fun m => m = .expr e) (l₁ ++ ⟨.slot old, slot⟩ :: l₂) with
      | none =>
        rw [hlast] at hspan
        cases hspan
        exact ⟨.inl (Nat.zero_le _), .inl (Nat.zero_le _)⟩
      | some span' =>
        rw [hlast] at hspan
        cases hspan
        exact clear_of_lastSpan? (by simp) hclear hlast
    · cases hspan
  clear_faults fault hfault := by
    rw [SyntaxTree.faults, hold] at hfault
    obtain ⟨⟨m, span⟩, hr, hsome⟩ := mem_of_mem_filterMap (by rfl) hfault
    cases m with
    | fault message =>
      cases hsome
      exact hclear _ hr
    | _ => cases hsome

theorem Retypes.sites_ids_eq (h : t.Retypes s type r) :
    r.tree.sites.map Site.id = t.sites.map Site.id := by
  rw [h.sites_eq, List.map_map]
  congr 1
  funext x
  exact Site.id_retyped

/-- The slot of a site that is written once is written once. -/
theorem Numbered.count_slot_of_once (h : t.Numbered) (hs : t.site? s.id = some s)
    (honce : (t.sites.map Site.id).count s.id = 1) : t.page.marks.count (.slot s.slot.id) = 1 := by
  rw [h.count_slot_marks hs, ← count_site_marks hs, honce]

/-- Retyping a site that is written once, in plain form before and after, replaces the
    text of its slot in the source. Every other place moves along if there was any. -/
theorem retype_splices {t : SyntaxTree} (ht : t.Reachable) {s : Site} (hs : t.site? s.id = some s)
    (honce : (t.sites.map Site.id).count s.id = 1) (type : TypeExpr)
    (hplain : s.isDistributed = false) (hplain' : { s with slot := type }.isDistributed = false) :
    ∃ r slot, t.retype s.id type = some r ∧ t.spanOf s.slot.id = some slot ∧
      t.Splice s type r slot ∧
      (s.slot.text ≠ "" → t.Moves r.tree slot type.text.utf8ByteSize s.slot.id r.new.id) := by
  have hn := ht.numbered
  have hcount := hn.count_slot_of_once hs honce
  have hspells := hn.spells_page hs hplain
  have hsome : (t.retype s.id type).isSome = true :=
    retype_isSome_iff.mpr (Option.isSome_of_eq_some hs)
  obtain ⟨r, hretype⟩ := Option.isSome_iff_exists.mp hsome
  have hr := retypes_of_site? hs hretype
  have hpage := hr.page_eq hn hplain hplain'
  obtain ⟨before, after, hold, hnew, hpart⟩ :=
    Page.render_respell (n := .slot r.new.id) (x := type.text) hspells hcount
  have hspan : t.spanOf s.slot.id =
      some ⟨before.utf8ByteSize, before.utf8ByteSize + s.slot.text.utf8ByteSize⟩ := by
    refine hn.spanOf_eq rfl (Nat.le_of_eq hcount) (Page.mem_regions_iff.mpr ⟨_, _, hpart, ?_⟩)
    simp [Page.width]
  refine ⟨r, _, hretype, hspan, ?_, ?_⟩
  · refine ⟨⟨before, after, ?_, rfl, ?_, ?_⟩, hr.items, hr.imports_eq, hr.exprs, hr.sites_ids_eq,
      hr.site?_self, fun _ => hr.site?_of_ne, hr.messages_eq⟩
    · rw [source_eq, hold]
    · rw [String.utf8ByteSize_append]
    · rw [source_eq, hpage, hnew]
  · intro hne
    have hw : 0 < s.slot.text.utf8ByteSize :=
      Nat.pos_of_ne_zero fun hzero => hne (String.utf8ByteSize_eq_zero_iff.mp hzero)
    obtain ⟨slot, l₁, l₂, _, hwidth, _, hregions, hregions', hclear⟩ :=
      Page.regions_respell (n := .slot r.new.id) (x := type.text) hspells hcount hw 0
    have hslot : t.spanOf s.slot.id = some slot := by
      apply hn.spanOf_eq rfl (Nat.le_of_eq hcount)
      rw [hregions]
      exact List.mem_append_right _ List.mem_cons_self
    obtain rfl := Option.some.inj (hspan.symm.trans hslot)
    rw [← hpage] at hregions'
    have honce' : (r.tree.sites.map Site.id).count s.id = 1 := by rw [hr.sites_ids_eq, honce]
    have hcount' : r.tree.page.marks.count (.slot r.new.id) = 1 :=
      (hr.numbered hn).count_slot_of_once (s := { s with slot := r.new }) hr.site?_self honce'
    have hspan' := (hr.numbered hn).spanOf_eq (m := .slot r.new.id) rfl (Nat.le_of_eq hcount')
      (by rw [hregions']; exact List.mem_append_right _ List.mem_cons_self)
    rw [← regions_eq] at hregions hregions'
    exact moves_of_regions hregions hregions' hclear hr.exprs hspan'

/-- The type of `x` is replaced by one of seven bytes, and everything after it moves by four. -/
theorem retype_splices_literalAndCall :
    let t := Draft.literalAndCall.finish
    ∃ r, t.retype ⟨2⟩ (.named {} none "Größe" []) = some r ∧
      r.tree.source = "Größe x = 1;\nvar y = f();\n" ∧
      t.Moves r.tree ⟨0, 3⟩ "Größe".utf8ByteSize ⟨1⟩ r.new.id ∧
      t.spanOf ⟨5⟩ = some ⟨11, 22⟩ ∧ r.tree.spanOf ⟨5⟩ = some ⟨15, 26⟩ := by
  intro t
  let s : Site := ⟨⟨2⟩, .keyword { id := ⟨1⟩, trailing := [.space] } "int",
    .«variables» (.statement false false) [⟨⟨0⟩, "x", some ⟨0⟩⟩]⟩
  obtain ⟨r, slot, hr, hslot, _, hmoves⟩ := retype_splices (s := s)
    (.finish Draft.built_literalAndCall) rfl (by rfl) (.named {} none "Größe" []) rfl rfl
  have hslot' : t.spanOf ⟨1⟩ = some ⟨0, 3⟩ := by rfl
  obtain rfl := Option.some.inj (hslot.symm.trans hslot')
  have hsource : (t.retype ⟨2⟩ (.named {} none "Größe" [])).map (fun r => r.tree.source) =
      some "Größe x = 1;\nvar y = f();\n" := by rfl
  have hspan : (t.retype ⟨2⟩ (.named {} none "Größe" [])).map (fun r => r.tree.spanOf ⟨5⟩) =
      some (some ⟨15, 26⟩) := by rfl
  have hr' : t.retype ⟨2⟩ (.named {} none "Größe" []) = some r := hr
  rw [hr'] at hsource hspan
  exact ⟨r, hr', Option.some.inj hsource, hmoves (by decide), by rfl, Option.some.inj hspan⟩

end SyntaxTree

end TypeStyle
