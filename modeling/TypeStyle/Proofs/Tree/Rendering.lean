-- SUMMARY: The rendering of a node, by recursion on the syntax and without a position.
import TypeStyle.Proofs.Tree.Parts
import TypeStyle.Proofs.Tree.Splice

/-! # Renderings

The rendering of a node is its text, put together from the renderings of its parts. It speaks
of strings alone: no document, no page and no offset enter. The page of a node, when there is
one, has the rendering as its text. -/

namespace TypeStyle

/-! ## One node -/

namespace Shape

/-- The declarators of a declaration of variables. -/
def declarators : Shape → List Declarator
  | «variables» _ declarators => declarators
  | foreach _ | outArg _ | pattern _ => []

theorem declaratorIds_eq (shape : Shape) :
    shape.declaratorIds = shape.declarators.map Declarator.id := by
  cases shape <;> rfl

end Shape

/-- What stands in the slot of a site: the type, or each element of a tuple type with its part
    of the pattern. -/
def Site.slotText (s : Site) : String :=
  match s.shape, s.slot with
  | .pattern (.group parts), .tuple _ elements =>
    if elements.length = parts.length then
      let pairs := (elements.zip parts).map fun (type, part) => type.text ++ " " ++ part.text
      "(" ++ String.intercalate ", " pairs ++ ")"
    else
      s.slot.text
  | _, _ => s.slot.text

section

variable (text : Ref → String)

def Declarator.rendering (d : Declarator) : String :=
  match d.init with
  | none => d.name
  | some e => d.name ++ " = " ++ text (.expr e)

/-- A distributed slot has the names in it, and no blanks at its end. -/
def Site.rendering (s : Site) : String :=
  let leading := Trivia.textOf s.slot.info.leading
  let trailing := Trivia.textOf s.slot.info.trailing
  match s.shape with
  | .«variables» holder declarators =>
    holder.opening ++ leading ++ s.slotText ++ trailing ++
      String.intercalate ", " (declarators.map (Declarator.rendering text))
  | .foreach name => leading ++ s.slotText ++ trailing ++ name
  | .outArg name => "out " ++ leading ++ s.slotText ++ trailing ++ name
  | .pattern parts =>
    if s.isDistributed then
      leading ++ s.slotText ++ Trivia.textOf (Trivia.withoutFinalBlanks s.slot.info.trailing)
    else
      leading ++ s.slotText ++ trailing ++ parts.text

def Arg.rendering : Arg → String
  | .value e => text (.expr e)
  | .outExisting name => "out " ++ name
  | .outSite site => text (.site site)

def Arg.listRendering (args : List Arg) : String :=
  "(" ++ String.intercalate ", " (args.map (Arg.rendering text)) ++ ")"

def Expr.rendering : Expr → String
  | .str marker contents raw => marker ++ quoteMarks raw ++ contents ++ quoteMarks raw
  | .number digits => digits
  | .char contents => "'" ++ contents ++ "'"
  | .bool value => if value then "true" else "false"
  | .null => "null"
  | .ident name => name
  | .member receiver name => text (.expr receiver) ++ "." ++ name
  | .call callee args => text (.expr callee) ++ Arg.listRendering text args
  | .cast type operand => "(" ++ type.text ++ ")" ++ text (.expr operand)
  | .asType operand type => text (.expr operand) ++ " as " ++ type.text
  | .defaultOf none => "default"
  | .defaultOf (some type) => "default(" ++ type.text ++ ")"
  | .new type args => "new " ++ type.text ++ Arg.listRendering text args
  | .lambda [param] body => param ++ " => " ++ text (.expr body)
  | .lambda params body =>
    "(" ++ String.intercalate ", " params ++ ") => " ++ text (.expr body)
  | .binary op left right =>
    text (.expr left) ++ " " ++ op.text ++ " " ++ text (.expr right)
  | .unparsed source => source

end

/-! ## All nodes -/

namespace Tables

/-- The rendering of the node that a reference names, given those of its parts. -/
def rendering (t : Tables) (text : Ref → String) : Ref → String
  | .site id => (t.site? id).elim "<missing>" (Site.rendering text)
  | .expr id => (t.expr? id).elim "<missing>" (Expr.rendering text)

/-- The rendering of a node, following references at most `depth` deep. -/
def renderWithin (t : Tables) : Nat → Ref → String
  | 0, _ => ""
  | depth + 1, r => t.rendering (t.renderWithin depth) r

/-- The rendering of a node that does not reach references that lead in a circle. -/
def render (t : Tables) : Ref → String := t.renderWithin t.maxDepth

end Tables

/-! ## Documents with texts filled in -/

namespace Doc

variable {ρ : Type} {text : ρ → String}

/-- The text of a document, given that of each reference. -/
def filled (text : ρ → String) : Doc ρ → String
  | .text s => s
  | append left right => left.filled text ++ right.filled text
  | mark _ body => body.filled text
  | ref r => text r

@[simp] theorem filled_text (s : String) : (Doc.text s).filled text = s := rfl

@[simp] theorem filled_append (a b : Doc ρ) :
    (a ++ b).filled text = a.filled text ++ b.filled text := rfl

@[simp] theorem filled_mark (m : Mark) (d : Doc ρ) : (mark m d).filled text = d.filled text := rfl

@[simp] theorem filled_ref (r : ρ) : (ref r).filled text = text r := rfl

@[simp] theorem filled_commaSeparated (ds : List (Doc ρ)) :
    (commaSeparated ds).filled text = String.intercalate ", " (ds.map (filled text)) := by
  fun_induction commaSeparated ds with
  | case1 => rfl
  | case2 d => simp
  | case3 d e ds ih => simp [ih]

/-- If each page filled in has a certain text then the whole page has the text of the
    document. -/
theorem render_expand {f : ρ → Option Page} (hf : ∀ r q, f r = some q → q.render = text r)
    {d : Doc ρ} {p : Page} (hd : d.expand f = some p) : p.render = d.filled text := by
  induction d generalizing p with
  | text s =>
    cases hd
    rfl
  | append a b iha ihb =>
    obtain ⟨a', b', ha, hb, rfl⟩ := expand_append_eq_some.mp hd
    rw [Page.render_append, iha ha, ihb hb]
    rfl
  | mark m body ih =>
    obtain ⟨body', hbody, rfl⟩ := expand_mark_eq_some.mp hd
    exact ih (p := body') hbody
  | ref r => exact hf r p hd

end Doc

/-! ## Documents of nodes -/

section

variable {text : Ref → String}

theorem TypeExpr.filled_slotDoc (t : TypeExpr) :
    t.slotDoc.filled text =
      Trivia.textOf t.info.leading ++ t.text ++ Trivia.textOf t.info.trailing := rfl

theorem Declarator.filled_doc (d : Declarator) : d.doc.filled text = d.rendering text := by
  obtain ⟨id, name, init⟩ := d
  cases init <;> simp [Declarator.doc, Declarator.rendering]

theorem distributedText_eq (elements : List TypeExpr) (parts : List Pattern) :
    distributedText elements parts =
      "(" ++ String.intercalate ", " ((elements.zip parts).map fun (type, part) =>
        type.text ++ " " ++ part.text) ++ ")" := by
  rw [distributedText, ← List.map_uncurry_zip_eq_zipWith]
  rfl

/-- Unless a tuple type is distributed, the type itself stands in the slot. -/
theorem Site.slotText_of_plain {s : Site} (h : s.isDistributed = false) :
    s.slotText = s.slot.text := by
  unfold slotText
  split
  · next parts info elements hshape hslot =>
    have hne : elements.length ≠ parts.length := by
      intro hlength
      rw [isDistributed_iff.mpr ⟨parts, info, elements, hshape, hslot, hlength⟩] at h
      cases h
    rw [if_neg hne]
  · rfl

theorem Site.filled_doc (s : Site) : s.doc.filled text = s.rendering text := by
  cases hplain : s.isDistributed with
  | true =>
    obtain ⟨id, slot, shape⟩ := s
    obtain ⟨parts, info, elements, hshape, hslot, hlength⟩ := isDistributed_iff.mp hplain
    dsimp only at hshape hslot
    subst hshape hslot
    simp [doc, rendering, slotText, hplain, hlength, Pattern.doc, TypeExpr.info,
      distributedText_eq]
  | false =>
    have hslot := slotText_of_plain hplain
    obtain ⟨id, slot, shape⟩ := s
    dsimp only at hslot
    cases shape with
    | «variables» holder declarators =>
      simp [doc, rendering, hslot, TypeExpr.filled_slotDoc, Function.comp_def,
        Declarator.filled_doc, String.append_assoc]
    | foreach name => simp [doc, rendering, hslot, TypeExpr.filled_slotDoc]
    | outArg name => simp [doc, rendering, hslot, TypeExpr.filled_slotDoc, String.append_assoc]
    | pattern parts =>
      simp [doc, rendering, hplain, hslot, Pattern.doc_of_plain hplain, TypeExpr.filled_slotDoc]

theorem Arg.filled_listDoc (args : List Arg) :
    (Arg.listDoc args).filled text = Arg.listRendering text args := by
  have hargs : ∀ a : Arg, a.doc.filled text = a.rendering text := by
    intro a
    cases a <;> rfl
  simp [Arg.listDoc, Arg.listRendering, Function.comp_def, hargs]

theorem Expr.filled_doc (e : Expr) : e.doc.filled text = e.rendering text := by
  have hargs := @Arg.filled_listDoc text
  cases e with
  | lambda params body =>
    match params with
    | [] | [_] | _ :: _ :: _ => simp [Expr.doc, Expr.rendering]
  | defaultOf type => cases type <;> simp [Expr.doc, Expr.rendering]
  | _ => simp [Expr.doc, Expr.rendering, hargs, String.append_assoc]

end

/-! ## Pages of nodes -/

namespace Tables

variable {t : Tables} {r : Ref} {p : Page}

theorem filled_doc (t : Tables) (text : Ref → String) (r : Ref) :
    (t.doc r).filled text = t.rendering text r := by
  cases r with
  | site id => cases hs : t.site? id <;> simp [doc, rendering, hs, missing, Site.filled_doc]
  | expr id => cases he : t.expr? id <;> simp [doc, rendering, he, missing, Expr.filled_doc]

/-- The page of a node reads as its rendering. -/
theorem render_page? {n : Nat} (hp : t.page? n r = some p) : p.render = t.renderWithin n r := by
  induction n generalizing r p with
  | zero => cases hp
  | succ n ih =>
    rw [Doc.render_expand (fun _ _ hq => ih hq) hp, filled_doc]
    rfl

/-- The rendering of a node that has a page is made of the renderings of its parts. -/
theorem render_eq (hp : t.page? t.maxDepth r = some p) : t.render r = t.rendering t.render r := by
  have hdeeper : t.page? (t.maxDepth + 1) r = some p := page?_mono (Nat.le_succ _) hp
  rw [render, ← render_page? hp]
  exact render_page? hdeeper

end Tables

end TypeStyle
