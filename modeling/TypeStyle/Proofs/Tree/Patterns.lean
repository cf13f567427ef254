-- SUMMARY: Retyping a pattern rewrites its own place alone, and keeps its trivia and its names there.
import TypeStyle.Proofs.Layout.Differ
import TypeStyle.Proofs.Tree.Place

/-! # Retyping patterns

A type that is put before a pattern may be distributed over it, and the type that it takes the
place of may have been. So the slot is no splice: the names are written anew with the type. But
nothing changes outside the site, and inside it the names and the trivia are written again. -/

namespace TypeStyle

/-! ## Texts in a text -/

namespace Text

/-- The texts stand in the text one after the other, in their order and without overlap. -/
def Occur : List String → String → Prop
  | [], _ => True
  | x :: xs, s => ∃ before after, s = before ++ x ++ after ∧ Occur xs after

variable {xs ys : List String} {s s' : String}

theorem occur_singleton (s : String) : Occur [s] s :=
  ⟨"", "", by simp, trivial⟩

theorem Occur.prepend (h : Occur xs s) (front : String) : Occur xs (front ++ s) := by
  cases xs with
  | nil => trivial
  | cons x xs =>
    obtain ⟨before, after, rfl, hrest⟩ := h
    exact ⟨front ++ before, after, by simp only [String.append_assoc], hrest⟩

theorem Occur.append (h : Occur xs s) (h' : Occur ys s') : Occur (xs ++ ys) (s ++ s') := by
  induction xs generalizing s with
  | nil => exact h'.prepend s
  | cons x xs ih =>
    obtain ⟨before, after, rfl, hrest⟩ := h
    exact ⟨before, after ++ s', by simp only [String.append_assoc], ih hrest⟩

theorem Occur.appendText (h : Occur xs s) (back : String) : Occur xs (s ++ back) := by
  have hnone : Occur [] back := trivial
  simpa using h.append hnone

/-- What occurs in the members of a list occurs in their text. -/
theorem occur_intercalate {α : Type} {names : α → List String} {text : α → String} {l : List α}
    (h : ∀ a ∈ l, Occur (names a) (text a)) :
    Occur (l.flatMap names) (String.intercalate ", " (l.map text)) := by
  induction l with
  | nil => trivial
  | cons a l ih =>
    obtain ⟨ha, hl⟩ := List.forall_mem_cons.mp h
    cases l with
    | nil => simpa using ha
    | cons b l =>
      rw [List.map_cons, List.map_cons, String.intercalate_cons_cons, String.append_assoc]
      exact ha.append ((ih hl).prepend ", ")

end Text

/-! ## Names in a pattern -/

namespace Pattern

theorem namesList_eq (ps : List Pattern) : namesList ps = ps.flatMap names := by
  induction ps with
  | nil => rfl
  | cons p ps ih => rw [namesList, ih, List.flatMap_cons]

theorem textList_eq (ps : List Pattern) : textList ps = String.intercalate ", " (ps.map text) := by
  induction ps with
  | nil => rfl
  | cons p ps ih =>
    cases ps with
    | nil => simp [textList]
    | cons q ps =>
      rw [textList, ih, List.map_cons, List.map_cons, List.map_cons, String.intercalate_cons_cons]

theorem occur_names (p : Pattern) : Text.Occur p.names p.text := by
  match p with
  | single name => exact Text.occur_singleton name
  | discard => trivial
  | group parts =>
    have hparts : Text.Occur (namesList parts) (textList parts) := by
      rw [namesList_eq, textList_eq]
      exact Text.occur_intercalate fun part hpart => occur_names part
    rw [names, text]
    exact (hparts.prepend "(").appendText ")"

/-- The names of the parts are also there if each part is written after a type. -/
theorem occur_names_distributed {elements : List TypeExpr} {parts : List Pattern}
    (h : elements.length = parts.length) :
    Text.Occur (namesList parts) (distributedText elements parts) := by
  have hpairs : (elements.zip parts).flatMap (fun pair => pair.2.names) = namesList parts := by
    rw [namesList_eq, ← List.flatMap_map Prod.snd, List.map_snd_zip (Nat.le_of_eq h.symm)]
  rw [distributedText_eq, ← hpairs]
  refine ((Text.occur_intercalate ?_).prepend "(").appendText ")"
  intro pair _
  exact pair.2.occur_names.prepend (pair.1.text ++ " ")

end Pattern

/-! ## What is kept -/

/-- The text begins with the leading trivia of the slot. The names of the site follow in their
    order, and before or after them the trailing trivia, of which no more may be missing than
    blanks at their end. -/
def Site.Keeps (s : Site) (written : String) : Prop :=
  ∃ rest kept blanks, written = Trivia.textOf s.slot.info.leading ++ rest ∧
    s.slot.info.trailing = kept ++ blanks ∧ (∀ piece ∈ blanks, piece.isBlank = true) ∧
    (Text.Occur (Trivia.textOf kept :: s.shape.names) rest ∨
      Text.Occur (s.shape.names ++ [Trivia.textOf kept]) rest)

theorem Site.keeps_rendering {s : Site} {p : Pattern} (hshape : s.shape = .pattern p)
    (text : Ref → String) : s.Keeps (s.rendering text) := by
  cases hplain : s.isDistributed with
  | true =>
    obtain ⟨parts, info, elements, hgroup, hslot, hlength⟩ := isDistributed_iff.mp hplain
    obtain ⟨blanks, hkept, hblanks⟩ := Trivia.withoutFinalBlanks_append s.slot.info.trailing
    have hslotText : s.slotText = distributedText elements parts := by
      rw [distributedText_eq]
      simp [slotText, hgroup, hslot, hlength]
    have hrendering : s.rendering text = Trivia.textOf s.slot.info.leading ++
        (s.slotText ++ Trivia.textOf (Trivia.withoutFinalBlanks s.slot.info.trailing)) := by
      simp [rendering, hgroup, hplain, String.append_assoc]
    refine ⟨_, _, blanks, hrendering, hkept.symm, hblanks, .inr ?_⟩
    rw [hslotText, hgroup]
    exact (Pattern.occur_names_distributed hlength).append (Text.occur_singleton _)
  | false =>
    have hrendering : s.rendering text = Trivia.textOf s.slot.info.leading ++
        (s.slot.text ++ (Trivia.textOf s.slot.info.trailing ++ p.text)) := by
      simp [rendering, hshape, hplain, slotText_of_plain hplain, String.append_assoc]
    refine ⟨_, s.slot.info.trailing, [], hrendering, (List.append_nil _).symm, by simp, .inl ?_⟩
    rw [hshape]
    exact ((Text.occur_singleton _).append p.occur_names).prepend _

/-! ## What is left alone -/

namespace Tables

variable {t : Tables} {s : Site} {p : Pattern}

theorem differs_doc_setSlot (hs : t.site? s.id = some s) (hshape : s.shape = .pattern p)
    (slot : TypeExpr) (r : Ref) :
    (t.doc r).DiffersUnder (.site s.id) ((t.setSlot s.id slot).doc r) := by
  by_cases hr : r = .site s.id
  · rw [hr, doc_site hs, doc_site (site?_setSlot_self hs), Site.doc, Site.doc, hshape]
    exact .here (p.refs_doc s.slot) (p.refs_doc slot)
  · rw [doc_setSlot_of_ne hr]
    exact .of_not_mem fun hm => hr (eq_site_of_mem_marks_doc hm).1

theorem differs_page?_setSlot (hs : t.site? s.id = some s) (hshape : s.shape = .pattern p)
    (slot : TypeExpr) (n : Nat) (r : Ref) :
    Option.Rel (Doc.DiffersUnder (.site s.id)) (t.page? n r) ((t.setSlot s.id slot).page? n r) := by
  induction n generalizing r with
  | zero => exact .none
  | succ n ih => exact (differs_doc_setSlot hs hshape slot r).expand ih

end Tables

namespace SyntaxTree

variable {t : SyntaxTree} {s : Site} {p : Pattern} {type : TypeExpr} {r : Retyped}

namespace Retypes

/-- Only what stands under the mark of the pattern differs. -/
theorem differs_page (h : t.Retypes s type r) (hshape : s.shape = .pattern p) :
    t.page.DiffersUnder (.site s.id) r.tree.page := by
  have hitems : (Stmt.linesDoc 0 t.items).DiffersUnder (.site s.id) (Stmt.linesDoc 0 t.items) :=
    .of_not_mem (by simp [Stmt.marks_linesDoc])
  have hpages : Option.Rel (Doc.DiffersUnder (.site s.id)) (t.tables.pageOf? t.items)
      ((t.tables.setSlot s.id r.new).pageOf? t.items) := by
    rw [Tables.pageOf?, Tables.pageOf?, Tables.maxDepth_setSlot]
    exact hitems.expand (Tables.differs_page?_setSlot h.site hshape r.new _)
  rw [page, page, h.items, h.tables]
  revert hpages
  generalize t.tables.pageOf? t.items = x, (t.tables.setSlot s.id r.new).pageOf? t.items = x'
  rintro (hpage | _)
  · exact hpage
  · exact .text ""

theorem keeps_iff (h : t.Retypes s type r) {written : String} :
    { s with slot := r.new }.Keeps written ↔ s.Keeps written := by
  obtain ⟨hleading, htrailing⟩ := h.trivia_new
  unfold Site.Keeps
  rw [hleading, htrailing]

end Retypes

/-- The span of a site that is written once is that of the part under its mark. -/
theorem Numbered.spanOf_of_part (h : t.Numbered) {id : NodeId} {k : Nat} {body : Page}
    (hcount : t.page.marks.count (.site id) = 1) (hpart : Page.Part (.site id) body k t.page) :
    t.spanOf id = some ⟨k, k + body.render.utf8ByteSize⟩ := by
  refine h.spanOf_eq rfl (Nat.le_of_eq hcount) (Page.mem_regions_iff.mpr ⟨_, _, hpart, ?_⟩)
  simp only [Nat.zero_add, Page.utf8ByteSize_render]

/-- Whatever type is put before a pattern that is written once, the source changes at the place
    of the pattern only, and what is written there keeps the trivia and the names. -/
theorem retype_pattern (ht : t.Reachable) (hs : t.site? s.id = some s)
    (hshape : s.shape = .pattern p) (honce : (t.sites.map Site.id).count s.id = 1)
    (type : TypeExpr) :
    ∃ r before after written span, t.retype s.id type = some r ∧ t.spanOf s.id = some span ∧
      t.source = before ++ t.text span ++ after ∧ before.utf8ByteSize = span.start ∧
      (before ++ t.text span).utf8ByteSize = span.stop ∧
      r.tree.source = before ++ written ++ after ∧
      r.tree.spanOf s.id = some ⟨span.start, span.start + written.utf8ByteSize⟩ ∧
      s.Keeps written := by
  have hn := ht.numbered
  obtain ⟨r, hretype, hr⟩ := exists_retypes hs type
  have hcount : t.page.marks.count (.site s.id) = 1 := by rw [← count_site_marks hs, honce]
  have hcount' : r.tree.page.marks.count (.site s.id) = 1 := by
    have hsite := count_site_marks (s := { s with slot := r.new }) hr.site?_self
    rw [← hsite, hr.sites_ids_eq, honce]
  obtain ⟨before, after, old, new, hold, hnew, hpart, hpart'⟩ :=
    Page.render_of_differsUnder (hr.differs_page hshape) hcount
  have hsource : t.source = before ++ old.render ++ after := by rw [source_eq, hold]
  have htext := (cuts_of_source hsource).text_eq
  have hkeeps : s.Keeps new.render := by
    obtain ⟨_, -, s', hs', -, hshown⟩ := shows_of_part hpart'
    obtain rfl := Option.some.inj (hr.site?_self.symm.trans hs')
    rw [hshown, ← hr.keeps_iff]
    exact Site.keeps_rendering (s := { s with slot := r.new }) hshape _
  refine ⟨r, before, after, new.render, _, hretype, hn.spanOf_of_part hcount hpart, ?_,
    rfl, ?_, ?_, (hr.numbered hn).spanOf_of_part hcount' hpart', hkeeps⟩
  · rw [htext, hsource]
  · rw [htext, String.utf8ByteSize_append]
  · rw [source_eq, hnew]

/-- The tuple type was distributed over the outer group, with a comment behind it. After `var` the
    comment stands before the group. -/
theorem retype_pattern_nested :
    let t := Draft.nestedPattern.finish
    t.source = "((int, string) (a, b), bool c) /*c*/ = p;\n" ∧
      ∃ s r written, s.id = ⟨5⟩ ∧ t.site? ⟨5⟩ = some s ∧ t.retype ⟨5⟩ (.implicit {}) = some r ∧
        r.tree.source = written ++ " = p;\n" ∧ written = "var /*c*/((a, b), c)" ∧
        s.Keeps written := by
  intro t
  let slot : TypeExpr := .tuple { id := ⟨0⟩, trailing := [.space, .blockComment "/*c*/"] }
    [.tuple { id := ⟨1⟩ } [.keyword { id := ⟨2⟩ } "int", .keyword { id := ⟨3⟩ } "string"],
      .keyword { id := ⟨4⟩ } "bool"]
  let s : Site := ⟨⟨5⟩, slot, .pattern (.group [.group [.single "a", .single "b"], .single "c"])⟩
  have hs : t.site? s.id = some s := by rfl
  have hold : t.source = "((int, string) (a, b), bool c) /*c*/" ++ " = p;\n" := by rfl
  have hspan : t.spanOf ⟨5⟩ = some ⟨0, 36⟩ := by rfl
  have hnew : (t.retype ⟨5⟩ (.implicit {})).map (fun r => r.tree.source) =
      some ("var /*c*/((a, b), c)" ++ " = p;\n") := by rfl
  have htext : t.text ⟨0, 36⟩ = "((int, string) (a, b), bool c) /*c*/" := by
    rw [SyntaxTree.text, hold]
    decide
  obtain ⟨r, before, after, written, span, hr, hspan', hsource, hbefore, -, hwritten, -, hkeeps⟩ :=
    retype_pattern (.finish Draft.built_nestedPattern) hs rfl (by rfl) (.implicit {})
  obtain rfl := Option.some.inj (hspan'.symm.trans hspan)
  obtain rfl : before = "" := String.utf8ByteSize_eq_zero_iff.mp hbefore
  have hafter : after = " = p;\n" := by
    rw [hold, htext, String.empty_append, String.append_right_inj] at hsource
    exact hsource.symm
  rw [hr, Option.map_some, Option.some.injEq, hwritten, String.empty_append, hafter,
    String.append_left_inj] at hnew
  refine ⟨hold, s, r, written, rfl, hs, hr, ?_, hnew, hkeeps⟩
  rw [hwritten, String.empty_append, hafter]

end SyntaxTree

end TypeStyle
