-- SUMMARY: The span of every node and of every fault cuts its rendering out of the source.
import TypeStyle.Proofs.Tree.Mark
import TypeStyle.Proofs.Tree.Rendering

/-! # Places

What stands under a mark of the page is a rendering, and which one can be told from the
mark (`Tables.Shows`). A span is the place of a mark, so it cuts that rendering out of the
source, at character boundaries. A slot is led by its own trivia. -/

namespace TypeStyle

/-! ## What a mark shows -/

namespace Doc

variable {ρ : Type} {text : ρ → String}

/-- The marks of a document, each with the text under it. -/
def shown (text : ρ → String) (d : Doc ρ) : List (Mark × String) :=
  d.marked.map fun (m, body) => (m, body.filled text)

@[simp] theorem shown_text (s : String) : (Doc.text s).shown text = [] := rfl

@[simp] theorem shown_append (a b : Doc ρ) :
    (a ++ b).shown text = a.shown text ++ b.shown text := by
  simp [shown]

@[simp] theorem shown_mark (m : Mark) (d : Doc ρ) :
    (mark m d).shown text = (m, d.filled text) :: d.shown text := rfl

@[simp] theorem shown_ref (r : ρ) : (ref r).shown text = [] := rfl

theorem shown_commaSeparated (ds : List (Doc ρ)) :
    (commaSeparated ds).shown text = ds.flatMap (shown text) := by
  fun_induction commaSeparated ds with
  | case1 => rfl
  | case2 d => simp
  | case3 d e ds ih => simp [ih]

/-- A part of a page that was filled in is shown by the document, or it is a part of one of
    the pages filled in. -/
theorem shown_or_of_expand {f : ρ → Option Page} (hf : ∀ r q, f r = some q → q.render = text r)
    {d : Doc ρ} {p body : Page} {m : Mark} {k : Nat} (hd : d.expand f = some p)
    (h : Page.Part m body k p) :
    (m, body.render) ∈ d.shown text ∨
      ∃ r ∈ d.refs, ∃ q j, f r = some q ∧ Page.Part m body j q := by
  refine (h.marked_or_of_expand hd).imp_left ?_
  rintro ⟨c, hc, hbody⟩
  rw [render_expand hf hbody]
  exact List.mem_map.mpr ⟨(m, c), hc, rfl⟩

end Doc

section

variable {text : Ref → String}

theorem TypeExpr.shown_slotDoc (t : TypeExpr) :
    t.slotDoc.shown text = [(.slot t.id, t.text)] := by
  simp [slotDoc]

theorem Declarator.shown_doc (d : Declarator) :
    d.doc.shown text = [(.declarator d.id, d.rendering text)] := by
  rw [← d.filled_doc]
  obtain ⟨id, name, init⟩ := d
  cases init <;> simp [Declarator.doc]

theorem Pattern.shown_doc (id : NodeId) (slot : TypeExpr) (p : Pattern) :
    (p.doc slot).shown text = [(.slot slot.id, Site.slotText ⟨id, slot, .pattern p⟩)] := by
  cases hplain : Site.isDistributed ⟨id, slot, .pattern p⟩ with
  | true =>
    obtain ⟨parts, info, elements, hshape, rfl, hlength⟩ := Site.isDistributed_iff.mp hplain
    cases hshape
    simp [Pattern.doc, Site.slotText, hlength, TypeExpr.id, TypeExpr.info, distributedText_eq]
  | false =>
    rw [Pattern.doc_of_plain hplain, Site.slotText_of_plain hplain]
    simp [TypeExpr.shown_slotDoc]

theorem Site.shown_doc (s : Site) :
    s.doc.shown text =
      (.site s.id, s.rendering text) :: (.slot s.slot.id, s.slotText) ::
        s.shape.declarators.map fun d => (.declarator d.id, d.rendering text) := by
  have hself : s.doc.filled text = s.rendering text := s.filled_doc
  obtain ⟨id, slot, shape⟩ := s
  rw [← hself]
  cases shape with
  | «variables» holder declarators =>
    have hdeclarators : (declarators.map Declarator.doc).flatMap (Doc.shown text) =
        declarators.map fun d => (.declarator d.id, d.rendering text) := by
      simp only [List.flatMap_map, Declarator.shown_doc, ← List.map_eq_flatMap]
    simp [doc, slotText, Shape.declarators, TypeExpr.shown_slotDoc, Doc.shown_commaSeparated,
      hdeclarators]
  | foreach name => simp [doc, slotText, Shape.declarators, TypeExpr.shown_slotDoc]
  | outArg name => simp [doc, slotText, Shape.declarators, TypeExpr.shown_slotDoc]
  | pattern parts => simp [doc, Shape.declarators, Pattern.shown_doc id]

/-- What is wrong with an expression itself, and the text that shows it. -/
def Expr.fault? : Expr → Option (String × String)
  | .unparsed source => some (s!"unexpected `{source}`", source)
  | _ => none

theorem Arg.shown_listDoc (args : List Arg) : (Arg.listDoc args).shown text = [] := by
  have hargs : ∀ a : Arg, a.doc.shown text = [] := by
    intro a
    cases a <;> rfl
  simp [Arg.listDoc, Doc.shown_commaSeparated, hargs]

theorem Expr.shown_doc (e : Expr) :
    e.doc.shown text = e.fault?.toList.map fun (message, content) => (.fault message, content) := by
  have hargs := @Arg.shown_listDoc text
  cases e with
  | lambda params body =>
    match params with
    | [] | [_] | _ :: _ :: _ => simp [Expr.doc, Expr.fault?]
  | defaultOf type => cases type <;> simp [Expr.doc, Expr.fault?]
  | _ => simp [Expr.doc, Expr.fault?, hargs]

end

namespace Tables

/-- What is wrong with the node that a reference names, and the text that shows it. -/
def fault? (t : Tables) : Ref → Option (String × String)
  | .site id =>
    (t.site? id).elim (some (s!"unknown declaration site {id.text}", "<missing>")) fun _ => none
  | .expr id =>
    (t.expr? id).elim (some (s!"unknown expression {id.describe}", "<missing>")) Expr.fault?

/-- The document of a reference marks a text, given the texts of the nodes it mentions. -/
def Shows (t : Tables) (text : Ref → String) (r : Ref) : Mark → String → Prop
  | .site id, shown => ∃ s, t.site? id = some s ∧ r = .site id ∧ shown = s.rendering text
  | .slot id, shown =>
    ∃ s, t.site? s.id = some s ∧ s.slot.id = id ∧ r = .site s.id ∧ shown = s.slotText
  | .declarator id, shown =>
    ∃ s, t.site? s.id = some s ∧ r = .site s.id ∧
      ∃ d ∈ s.shape.declarators, d.id = id ∧ shown = d.rendering text
  | .expr id, shown => ∃ e, t.expr? id = some e ∧ r = .expr id ∧ shown = e.rendering text
  | .fault message, shown => t.fault? r = some (message, shown)

variable {t : Tables}

theorem shows_of_mem_shown {text : Ref → String} {r : Ref} {m : Mark} {shown : String}
    (h : (m, shown) ∈ (t.doc r).shown text) : t.Shows text r m shown := by
  cases r with
  | site id =>
    cases hs : t.site? id with
    | none =>
      obtain ⟨rfl, rfl⟩ : m = .fault s!"unknown declaration site {id.text}" ∧
        shown = "<missing>" := by simpa [doc, hs, missing] using h
      simp [Shows, fault?, hs]
    | some s =>
      obtain rfl := id_of_site? hs
      rw [doc_site hs, Site.shown_doc] at h
      simp only [List.mem_cons, List.mem_map, Prod.mk.injEq] at h
      rcases h with ⟨rfl, rfl⟩ | ⟨rfl, rfl⟩ | ⟨d, hd, rfl, rfl⟩
      · exact ⟨s, hs, rfl, rfl⟩
      · exact ⟨s, hs, rfl, rfl, rfl⟩
      · exact ⟨s, hs, rfl, d, hd, rfl, rfl⟩
  | expr id =>
    cases he : t.expr? id with
    | none =>
      obtain ⟨rfl, rfl⟩ : m = .fault s!"unknown expression {id.describe}" ∧
        shown = "<missing>" := by simpa [doc, he, missing] using h
      simp [Shows, fault?, he]
    | some e =>
      simp only [doc, he, Doc.shown_mark, Expr.shown_doc, Expr.filled_doc, List.mem_cons,
        Prod.mk.injEq] at h
      rcases h with ⟨rfl, rfl⟩ | h
      · exact ⟨e, he, rfl, rfl⟩
      · obtain ⟨⟨message, content⟩, hfault, heq⟩ := List.mem_map.mp h
        cases heq
        simpa [Shows, fault?, he] using hfault

/-- A part of a page is shown by a node that is reached from the node of the page. -/
theorem shows_of_part {n : Nat} {r : Ref} {p body : Page} {m : Mark} {k : Nat}
    (hn : n ≤ t.maxDepth) (hp : t.page? n r = some p) (h : Page.Part m body k p) :
    ∃ q, t.Reaches r q ∧ t.Shows t.render q m body.render := by
  induction n generalizing r p k with
  | zero => cases hp
  | succ n ih =>
    have htext : ∀ q page, t.page? n q = some page → page.render = t.render q :=
      fun q page hq => render_page? (page?_mono (by omega) hq)
    rcases Doc.shown_or_of_expand htext hp h with hshown | ⟨q, hq, page, j, hpage, hpart⟩
    · exact ⟨r, .refl r, shows_of_mem_shown hshown⟩
    · obtain ⟨x, hreaches, hshows⟩ := ih (by omega) hpage hpart
      rw [refs_doc] at hq
      exact ⟨x, .step hq hreaches, hshows⟩

/-- A mark shows one text, unless it is that of a fault. -/
theorem Numbered.shows_unique {supply : NodeSupply} (h : t.Numbered supply) {text : Ref → String}
    {r r' : Ref} {m : Mark} {shown shown' : String} (hm : ∀ message, m ≠ .fault message)
    (hshows : t.Shows text r m shown) (hshows' : t.Shows text r' m shown') : shown = shown' := by
  cases m with
  | site id =>
    obtain ⟨s, hs, -, rfl⟩ := hshows
    obtain ⟨s', hs', -, rfl⟩ := hshows'
    rw [Option.some.inj (hs.symm.trans hs')]
  | slot id =>
    obtain ⟨s, hs, rfl, -, rfl⟩ := hshows
    obtain ⟨s', hs', hid, -, rfl⟩ := hshows'
    have hmine : s.slot.id ∈ s'.nodeIds := hid ▸ s'.slotId_mem_nodeIds
    rw [h.eq_of_mem (mem_of_site? hs) (mem_of_site? hs') s.slotId_mem_nodeIds hmine]
  | declarator id =>
    obtain ⟨s, hs, -, d, hd, rfl, rfl⟩ := hshows
    obtain ⟨s', hs', -, d', hd', hid, rfl⟩ := hshows'
    have hmem : ∀ (x : Site), ∀ c ∈ x.shape.declarators, c.id ∈ x.nodeIds := by
      intro x c hc
      simp only [Site.nodeIds, Shape.declaratorIds_eq, List.mem_append]
      exact .inl (.inl (List.mem_map_of_mem hc))
    obtain rfl := h.eq_of_mem (mem_of_site? hs) (mem_of_site? hs') (hmem s d hd)
      (hid ▸ hmem s' d' hd')
    have hnodup := h.nodup_site (mem_of_site? hs)
    rw [Site.nodeIds, Shape.declaratorIds_eq, List.append_assoc] at hnodup
    rw [List.inj_on_of_nodup_map hnodup.of_append_left hd hd' hid.symm]
  | expr id =>
    obtain ⟨e, he, -, rfl⟩ := hshows
    obtain ⟨e', he', -, rfl⟩ := hshows'
    rw [Option.some.inj (he.symm.trans he')]
  | fault message => exact absurd rfl (hm message)

end Tables

/-! ## What stands before a slot -/

theorem TypeExpr.leads_slotDoc (t : TypeExpr) :
    t.slotDoc.Leads (.slot t.id) (Trivia.textOf t.info.leading) :=
  .append (.here _) (.text _)

theorem Pattern.leads_doc (slot : TypeExpr) (p : Pattern) :
    (p.doc slot).Leads (.slot slot.id) (Trivia.textOf slot.info.leading) := by
  cases hplain : Site.isDistributed ⟨.detached, slot, .pattern p⟩ with
  | true =>
    obtain ⟨parts, info, elements, hshape, rfl, hlength⟩ := Site.isDistributed_iff.mp hplain
    cases hshape
    simp only [Pattern.doc, hlength, if_true]
    exact .append (.here _) (.text _)
  | false =>
    rw [Pattern.doc_of_plain hplain]
    exact .append slot.leads_slotDoc (.text _)

theorem Site.leads_doc (s : Site) :
    s.doc.Leads (.slot s.slot.id) (Trivia.textOf s.slot.info.leading) := by
  obtain ⟨id, slot, shape⟩ := s
  refine .mark (by simp) ?_
  cases shape with
  | «variables» holder declarators =>
    refine .append (.append (.text _) slot.leads_slotDoc) (Doc.leads_of_not_mem ?_)
    simp [Doc.marks_commaSeparated, Declarator.marks_doc]
  | foreach name => exact .append slot.leads_slotDoc (.text _)
  | outArg name => exact .append (.append (.text _) slot.leads_slotDoc) (.text _)
  | pattern parts => exact parts.leads_doc slot

theorem Tables.Numbered.leads_page? {t : Tables} {supply : NodeSupply} (h : t.Numbered supply)
    {s : Site} (hs : s ∈ t.sites) {n : Nat} {r : Ref} {p : Page} (hp : t.page? n r = some p) :
    p.Leads (.slot s.slot.id) (Trivia.textOf s.slot.info.leading) := by
  induction n generalizing r p with
  | zero => cases hp
  | succ n ih =>
    refine Doc.Leads.expand (fun _ _ hq => ih hq) ?_ hp
    by_cases hr : r = .site s.id
    · rw [hr, doc_site (h.site?_eq hs)]
      exact s.leads_doc
    · exact Doc.leads_of_not_mem (h.not_mem_marks_doc hs hr rfl s.slotId_mem_nodeIds)

/-! ## Cutting spans out of the source -/

namespace SyntaxTree

variable {t : SyntaxTree}

/-- The span lies in the source, between characters, and the text under it is `text`. -/
structure Cuts (t : SyntaxTree) (span : Span) (text : String) : Prop where
  text_eq : t.text span = text
  ordered : span.start ≤ span.stop
  within : span.stop ≤ t.source.utf8ByteSize
  start_boundary : Text.IsBoundary t.source.toList span.start
  stop_boundary : Text.IsBoundary t.source.toList span.stop

theorem cuts_of_source {before text after : String} (h : t.source = before ++ text ++ after) :
    t.Cuts ⟨before.utf8ByteSize, before.utf8ByteSize + text.utf8ByteSize⟩ text := by
  have hlist : t.source.toList = before.toList ++ text.toList ++ after.toList := by
    simp [h]
  constructor
  · have hslice := Text.slice?_ofList_append before.toList text.toList after.toList
    rw [← hlist, String.ofList_toList, String.ofList_toList, Text.byteLength_append,
      ← Text.utf8ByteSize_eq, ← Text.utf8ByteSize_eq] at hslice
    rw [SyntaxTree.text, hslice, Option.getD_some]
  · exact Nat.le_add_right _ _
  · simp [h]
  · refine Text.isBoundary_iff.mpr ⟨before.toList, text.toList ++ after.toList, ?_, ?_⟩
    · rw [hlist, List.append_assoc]
    · exact (Text.utf8ByteSize_eq before).symm
  · refine Text.isBoundary_iff.mpr ⟨before.toList ++ text.toList, after.toList, hlist, ?_⟩
    rw [Text.byteLength_append, Text.utf8ByteSize_eq, Text.utf8ByteSize_eq]

/-- A part of the page is shown by a node that the tree writes. -/
theorem shows_of_part {m : Mark} {body : Page} {k : Nat} (h : Page.Part m body k t.page) :
    ∃ r, t.Writes r ∧ t.tables.Shows t.tables.render r m body.render := by
  rw [page] at h
  cases hp : t.tables.pageOf? t.items with
  | none =>
    rw [hp] at h
    cases h
  | some p =>
    rw [hp] at h
    have hnot : m ∉ (Stmt.linesDoc 0 t.items).marks := by simp [Stmt.marks_linesDoc]
    obtain ⟨q, hq, page, j, hpage, hpart⟩ := h.of_expand hp hnot
    rw [Stmt.refs_linesDoc] at hq
    obtain ⟨r, hreaches, hshows⟩ := Tables.shows_of_part (Nat.le_refl _) hpage hpart
    exact ⟨r, ⟨q, hq, hreaches⟩, hshows⟩

/-- The span of a mark cuts out what a node that the tree writes shows under it. -/
theorem shows_of_mem_regions {m : Mark} {span : Span} (h : ⟨m, span⟩ ∈ t.page.regions 0) :
    ∃ r shown, t.Writes r ∧ t.tables.Shows t.tables.render r m shown ∧ t.Cuts span shown := by
  obtain ⟨k, body, hpart, hspan⟩ := Page.mem_regions_iff.mp h
  obtain ⟨r, hr, hshows⟩ := shows_of_part hpart
  obtain ⟨before, after, htext, rfl⟩ := hpart.render_eq
  refine ⟨r, body.render, hr, hshows, ?_⟩
  dsimp only at hspan
  rw [hspan, Nat.zero_add, ← Page.utf8ByteSize_render]
  exact cuts_of_source (by rw [source_eq, htext])

/-- A numbered tree has one text for a mark other than a fault's, so its spans cut it out. -/
theorem Numbered.cuts_of_mem_regions (h : t.Numbered) {r : Ref} {m : Mark} {span : Span}
    {shown : String} (hm : ∀ message, m ≠ .fault message)
    (hshows : t.tables.Shows t.tables.render r m shown) (hspan : ⟨m, span⟩ ∈ t.page.regions 0) :
    t.Cuts span shown := by
  obtain ⟨r', shown', -, hshows', hcuts⟩ := shows_of_mem_regions hspan
  rwa [Tables.Numbered.shows_unique h hm hshows hshows']

/-- The leading trivia of a slot stand right before its span. -/
theorem Numbered.cuts_leading (h : t.Numbered) {s : Site} (hs : t.site? s.id = some s) {span : Span}
    (hspan : ⟨.slot s.slot.id, span⟩ ∈ t.page.regions 0) :
    ∃ start, t.Cuts ⟨start, span.start⟩ (Trivia.textOf s.slot.info.leading) := by
  have hleads : t.page.Leads (.slot s.slot.id) (Trivia.textOf s.slot.info.leading) := by
    rw [page]
    cases hp : t.tables.pageOf? t.items with
    | none => exact .text _
    | some p =>
      refine Doc.Leads.expand (fun _ _ hq => ?_) (Doc.leads_of_not_mem ?_) hp
      · exact Tables.Numbered.leads_page? h (Tables.mem_of_site? hs) hq
      · simp [Stmt.marks_linesDoc]
  obtain ⟨k, body, hpart, hplace⟩ := Page.mem_regions_iff.mp hspan
  obtain ⟨before, after, htext, rfl⟩ := hleads.render_eq hpart
  have hsource : t.source =
      before ++ Trivia.textOf s.slot.info.leading ++ (body.render ++ after) := by
    rw [source_eq, htext]
    simp only [String.append_assoc]
  refine ⟨before.utf8ByteSize, ?_⟩
  dsimp only at hplace
  rw [hplace, Nat.zero_add]
  exact cuts_of_source hsource

/-! ## The places of nodes and faults -/

/-- The span of a site, those of its slot and of its declarators cut out what is written there,
    and right before the slot stand its leading trivia. -/
structure CutsSite (t : SyntaxTree) (s : Site) : Prop where
  site : ∃ span, t.spanOf s.id = some span ∧ t.Cuts span (s.rendering t.tables.render)
  slot : ∃ start span, t.spanOf s.slot.id = some span ∧ t.Cuts span s.slotText ∧
    t.Cuts ⟨start, span.start⟩ (Trivia.textOf s.slot.info.leading)
  declarators : ∀ d ∈ s.shape.declarators, ∃ span, t.spanOf d.id = some span ∧
    t.Cuts span (d.rendering t.tables.render)

/-- A node that is marked has the span of its mark. -/
theorem Numbered.exists_spanOf (h : t.Numbered) {m : Mark} {id : NodeId} (hm : m ∈ t.page.marks)
    (hid : m.node? = some id) : ∃ span, t.spanOf id = some span ∧ ⟨m, span⟩ ∈ t.page.regions 0 := by
  obtain ⟨span, hspan⟩ := Option.isSome_iff_exists.mp (spanOf_isSome_iff.mpr ⟨m, hm, hid⟩)
  exact ⟨span, hspan, h.mark_of_spanOf hm hid hspan⟩

theorem exists_exprSpan {e : ExprId} (he : (t.expr? e).isSome = true)
    (hm : .expr e ∈ t.page.marks) :
    ∃ span, t.exprSpan e = some span ∧ ⟨.expr e, span⟩ ∈ t.page.regions 0 := by
  have hlt : e.index < t.tables.exprs.size := by
    simpa [SyntaxTree.expr?, Tables.expr?] using he
  let spans := (t.page.regions 0).filterMap fun r => if r.mark = .expr e then some r.span else none
  have hspans : t.exprSpan e = some (spans.getLast?.getD .dummy) := by
    rw [exprSpan, if_pos hlt, regions_eq]
  have hne : spans ≠ [] := by
    rw [← Page.regions_map_mark 0] at hm
    obtain ⟨r, hr, hmark⟩ := List.mem_map.mp hm
    exact List.ne_nil_of_mem (List.mem_filterMap.mpr ⟨r, hr, if_pos hmark⟩)
  refine ⟨spans.getLast hne, by rw [hspans, List.getLast?_eq_some_getLast hne, Option.getD_some], ?_⟩
  obtain ⟨r, hr, hif⟩ := List.mem_filterMap.mp (List.getLast_mem hne)
  split at hif
  · next hmark =>
    rw [← Option.some.inj hif, ← hmark]
    exact hr
  · cases hif

theorem Numbered.cutsSite (h : t.Numbered) {s : Site} (hs : t.site? s.id = some s)
    (hmarks : ∀ m ∈ s.doc.marks, m ∈ t.page.marks) : t.CutsSite s := by
  have hplace : ∀ {m : Mark} {id : NodeId} {shown : String}, m ∈ s.doc.marks → m.node? = some id →
      t.tables.Shows t.tables.render (.site s.id) m shown →
      ∃ span, t.spanOf id = some span ∧ ⟨m, span⟩ ∈ t.page.regions 0 ∧ t.Cuts span shown := by
    intro m id shown hm hid hshows
    obtain ⟨span, hspan, hregion⟩ := h.exists_spanOf (hmarks m hm) hid
    have hfault : ∀ message, m ≠ .fault message := by
      rintro message rfl
      cases hid
    exact ⟨span, hspan, hregion, h.cuts_of_mem_regions hfault hshows hregion⟩
  constructor
  · obtain ⟨span, hspan, -, hcuts⟩ :=
      hplace (Site.mem_marks_doc.mpr (.inl rfl)) rfl ⟨s, hs, rfl, rfl⟩
    exact ⟨span, hspan, hcuts⟩
  · obtain ⟨span, hspan, hregion, hcuts⟩ :=
      hplace (Site.mem_marks_doc.mpr (.inr (.inl rfl))) rfl ⟨s, hs, rfl, rfl, rfl⟩
    obtain ⟨start, hleading⟩ := h.cuts_leading hs hregion
    exact ⟨start, span, hspan, hcuts, hleading⟩
  · intro d hd
    have hid : d.id ∈ s.shape.declaratorIds := by
      rw [Shape.declaratorIds_eq]
      exact List.mem_map_of_mem hd
    obtain ⟨span, hspan, -, hcuts⟩ :=
      hplace (Site.mem_marks_doc.mpr (.inr (.inr ⟨d.id, hid, rfl⟩))) rfl
        ⟨s, hs, rfl, d, hd, rfl, rfl⟩
    exact ⟨span, hspan, hcuts⟩

/-- The marks of a node that the tree writes are on its page. -/
theorem HasPage.mem_marks_page (hpage : t.HasPage) {r : Ref} (hr : t.Writes r) {m : Mark}
    (hm : m ∈ (t.tables.doc r).marks) : m ∈ t.page.marks := by
  obtain ⟨p, hp, hmarks⟩ := hpage.exists_page?_of_writes hr
  exact hmarks m (Page.mem_marks_expand hp hm)

/-- In a tree that can be laid out, every recorded span cuts out exactly the text of its node.
    The text of a node is its rendering, which is made of the renderings of its parts. Every
    node that the tree writes has a span, and only nodes that it writes do. The span of a fault
    cuts out the text that is wrong, or `<missing>`. -/
theorem cuts_render (ht : t.Reachable) (hpage : t.HasPage) :
    (∀ r, t.Writes r → t.tables.render r = t.tables.rendering t.tables.render r) ∧
    (∀ e, t.Writes (.expr e) → (t.expr? e).isSome = true →
      ∃ span, t.exprSpan e = some span ∧ t.Cuts span (t.tables.render (.expr e))) ∧
    (∀ s, t.Writes (.site s.id) → t.site? s.id = some s → t.CutsSite s) ∧
    (∀ id span, t.spanOf id = some span → ∃ s, t.Writes (.site s.id) ∧ t.site? s.id = some s ∧
      (id = s.id ∨ id = s.slot.id ∨ ∃ d ∈ s.shape.declarators, id = d.id)) ∧
    ∀ fault ∈ t.faults, ∃ r text, t.Writes r ∧
      t.tables.fault? r = some (fault.message, text) ∧ t.Cuts fault.span text := by
  have hn := ht.numbered
  have hrender : ∀ r, t.Writes r → t.tables.render r = t.tables.rendering t.tables.render r := by
    intro r hr
    obtain ⟨p, hp, -⟩ := hpage.exists_page?_of_writes hr
    exact Tables.render_eq hp
  refine ⟨hrender, ?exprs, ?sites, ?nodes, ?faults⟩
  case exprs =>
    intro e hwrites he
    obtain ⟨x, hx⟩ := Option.isSome_iff_exists.mp he
    have hx' : t.tables.expr? e = some x := hx
    have hmark : .expr e ∈ t.page.marks :=
      hpage.mem_marks_page hwrites (by simp [Tables.doc, hx'])
    obtain ⟨span, hspan, hregion⟩ := exists_exprSpan he hmark
    have hshows : t.tables.Shows t.tables.render (.expr e) (.expr e) (t.tables.render (.expr e)) := by
      refine ⟨x, hx, rfl, ?_⟩
      rw [hrender _ hwrites, Tables.rendering, hx', Option.elim_some]
    exact ⟨span, hspan, hn.cuts_of_mem_regions (by simp) hshows hregion⟩
  case sites =>
    intro s hwrites hs
    refine hn.cutsSite hs fun m hm => hpage.mem_marks_page hwrites ?_
    rwa [Tables.doc_site hs]
  case nodes =>
    intro id span hspan
    obtain ⟨m, hid, hregion⟩ := exists_region_of_spanOf hspan
    obtain ⟨r, shown, hr, hshows, -⟩ := shows_of_mem_regions hregion
    cases m with
    | site _ =>
      cases hid
      obtain ⟨s, hs, rfl, -⟩ := hshows
      obtain rfl := Tables.id_of_site? hs
      exact ⟨s, hr, hs, .inl rfl⟩
    | slot _ =>
      cases hid
      obtain ⟨s, hs, rfl, rfl, -⟩ := hshows
      exact ⟨s, hr, hs, .inr (.inl rfl)⟩
    | declarator _ =>
      cases hid
      obtain ⟨s, hs, rfl, d, hd, rfl, -⟩ := hshows
      exact ⟨s, hr, hs, .inr (.inr ⟨d, hd, rfl⟩)⟩
    | expr _ => cases hid
    | fault _ => cases hid
  case faults =>
    intro fault hfault
    rw [faults, regions_eq] at hfault
    obtain ⟨⟨m, span⟩, hregion, hsome⟩ := List.mem_filterMap.mp hfault
    cases m with
    | fault message =>
      cases hsome
      obtain ⟨r, shown, hr, hshows, hcuts⟩ := shows_of_mem_regions hregion
      exact ⟨r, shown, hr, hshows, hcuts⟩
    | _ => cases hsome

end SyntaxTree

namespace Draft

/-- The draft of `(int a, int _) = "ß";` with a comment before the pattern and, on the next
    line, the statement `@@;`, which is no expression. -/
def commentedPattern : Draft :=
  let type : TypeExpr :=
    .tuple { leading := [.blockComment "/*é*/"] } [.keyword {} "int", .keyword {} "int"]
  let d := (empty.addExpr (.str "" "ß" false)).2
  let d := (d.deconstruct type (.ofNames ["a", "_"]) ⟨0⟩).2
  let d := (d.addExpr (.unparsed "@@")).2
  d.push (.expr ⟨1⟩)

theorem built_commentedPattern : commentedPattern.Built := by
  have hstring := Built.empty.call (.addExpr _ (.str "" "ß" false))
  have hpattern := hstring.call (.deconstruct _
    (.tuple { leading := [.blockComment "/*é*/"] } [.keyword {} "int", .keyword {} "int"])
    (.ofNames ["a", "_"]) ⟨0⟩)
  exact (hpattern.call (.addExpr _ (.unparsed "@@"))).call (.statement _ ⟨1⟩)

end Draft

namespace SyntaxTree

/-- A distributed pattern after a comment, with characters of two bytes before and after it,
    and a statement that is no expression. -/
theorem cuts_render_commentedPattern :
    let t := Draft.commentedPattern.finish
    t.source = "/*é*/(int a, int _) = \"ß\";\n@@;\n" ∧
      t.spanOf ⟨3⟩ = some ⟨0, 20⟩ ∧ t.Cuts ⟨0, 20⟩ "/*é*/(int a, int _)" ∧
      t.spanOf ⟨0⟩ = some ⟨6, 20⟩ ∧ t.Cuts ⟨6, 20⟩ "(int a, int _)" ∧
      t.exprSpan ⟨0⟩ = some ⟨23, 27⟩ ∧ t.Cuts ⟨23, 27⟩ "\"ß\"" ∧
      t.faults = [⟨⟨29, 31⟩, "unexpected `@@`"⟩] ∧ t.Cuts ⟨29, 31⟩ "@@" := by
  intro t
  have ht : t.Reachable := .finish Draft.built_commentedPattern
  have hpage : t.HasPage := by rfl
  obtain ⟨-, hexprs, hsites, -, hfaults⟩ := cuts_render ht hpage
  let element : NodeId → TypeExpr := fun id => .keyword { id } "int"
  let slot : TypeExpr := .tuple
    { id := ⟨0⟩, leading := [.blockComment "/*é*/"], trailing := [.space] }
    [element ⟨1⟩, element ⟨2⟩]
  let s : Site := ⟨⟨3⟩, slot, .pattern (.ofNames ["a", "_"])⟩
  have hsource : t.source = "/*é*/(int a, int _) = \"ß\";\n@@;\n" := by rfl
  have hsite : t.spanOf ⟨3⟩ = some ⟨0, 20⟩ := by rfl
  have hslot : t.spanOf ⟨0⟩ = some ⟨6, 20⟩ := by rfl
  have hexpr : t.exprSpan ⟨0⟩ = some ⟨23, 27⟩ := by rfl
  have hfault : t.faults = [⟨⟨29, 31⟩, "unexpected `@@`"⟩] := by rfl
  obtain ⟨⟨siteSpan, hsiteSpan, hsiteCuts⟩, ⟨_, slotSpan, hslotSpan, hslotCuts, -⟩, -⟩ :=
    hsites s ⟨.site ⟨3⟩, List.mem_cons_self, .refl _⟩ rfl
  obtain ⟨exprSpan, hexprSpan, hexprCuts⟩ :=
    hexprs ⟨0⟩ ⟨.expr ⟨0⟩, List.mem_cons_of_mem _ List.mem_cons_self, .refl _⟩ rfl
  obtain ⟨_, shown, -, -, hfaultCuts⟩ := hfaults _ (hfault ▸ List.mem_singleton_self _)
  have hwrong : t.text ⟨29, 31⟩ = "@@" := by
    rw [SyntaxTree.text, hsource]
    decide
  obtain rfl := hfaultCuts.text_eq.symm.trans hwrong
  obtain rfl := Option.some.inj (hsiteSpan.symm.trans hsite)
  obtain rfl := Option.some.inj (hslotSpan.symm.trans hslot)
  obtain rfl := Option.some.inj (hexprSpan.symm.trans hexpr)
  exact ⟨hsource, hsite, hsiteCuts, hslot, hslotCuts, hexpr, hexprCuts, hfault, hfaultCuts⟩

end SyntaxTree

end TypeStyle
