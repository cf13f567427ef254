-- SUMMARY: Documents: text with marked regions and references, and the spans of the marks.
import TypeStyle.Syntax.NodeId
import TypeStyle.Text.Span

/-! # Documents

A `Doc` is text in which some parts are marked and others are references still to
be filled in. A document without references is a `Page`: it has a text, and every
mark has a span in it. Positions enter in `Page.regions` alone, so how a node is
written never depends on where it stands. -/

namespace TypeStyle

/-- What a part of a page is. -/
inductive Mark where
  | site (id : NodeId)
  | slot (id : NodeId)
  | declarator (id : NodeId)
  | expr (id : ExprId)
  /-- Text that is a syntax error. -/
  | fault (message : String)
  deriving DecidableEq, Repr

/-- The syntax node that a mark stands for. -/
def Mark.node? : Mark → Option NodeId
  | site id | slot id | declarator id => some id
  | expr _ | fault _ => none

inductive Doc (ρ : Type) where
  | text (s : String)
  | append (left right : Doc ρ)
  | mark (m : Mark) (body : Doc ρ)
  | ref (r : ρ)

namespace Doc

variable {ρ σ : Type}

instance : Append (Doc ρ) := ⟨append⟩

def concat : List (Doc ρ) → Doc ρ
  | [] => .text ""
  | d :: ds => d ++ concat ds

/-- Documents separated by a comma and a space. -/
def commaSeparated : List (Doc ρ) → Doc ρ
  | [] => .text ""
  | [d] => d
  | d :: e :: ds => d ++ .text ", " ++ commaSeparated (e :: ds)

/-- Fills in every reference. -/
def expand (f : ρ → Option (Doc σ)) : Doc ρ → Option (Doc σ)
  | text s => some (.text s)
  | append left right => do return (← left.expand f) ++ (← right.expand f)
  | mark m body => do return .mark m (← body.expand f)
  | ref r => f r

/-- The references of a document, in order. -/
def refs : Doc ρ → List ρ
  | text _ => []
  | append left right => left.refs ++ right.refs
  | mark _ body => body.refs
  | ref r => [r]

@[simp] theorem refs_text (s : String) : (text s : Doc ρ).refs = [] := rfl

@[simp] theorem refs_append (a b : Doc ρ) : (a ++ b).refs = a.refs ++ b.refs := rfl

@[simp] theorem refs_mark (m : Mark) (d : Doc ρ) : (mark m d).refs = d.refs := rfl

@[simp] theorem refs_ref (r : ρ) : (ref r).refs = [r] := rfl

@[simp] theorem expand_append (f : ρ → Option (Doc σ)) (a b : Doc ρ) :
    (a ++ b).expand f = (do return (← a.expand f) ++ (← b.expand f)) := rfl

/-- A document can be filled in exactly if each of its references can. -/
theorem expand_isSome_iff {f : ρ → Option (Doc σ)} {d : Doc ρ} :
    (d.expand f).isSome = true ↔ ∀ r ∈ d.refs, (f r).isSome = true := by
  induction d with
  | text s => simp [expand, refs]
  | append a b iha ihb =>
    simp only [refs, List.mem_append]
    constructor
    · intro h r hr
      cases ha : a.expand f with
      | none => simp [expand, ha] at h
      | some a' =>
        cases hb : b.expand f with
        | none => simp [expand, ha, hb] at h
        | some b' =>
          rcases hr with hr | hr
          · exact iha.mp (by simp [ha]) r hr
          · exact ihb.mp (by simp [hb]) r hr
    · intro h
      obtain ⟨a', ha⟩ := Option.isSome_iff_exists.mp (iha.mpr fun r hr => h r (.inl hr))
      obtain ⟨b', hb⟩ := Option.isSome_iff_exists.mp (ihb.mpr fun r hr => h r (.inr hr))
      simp [expand, ha, hb]
  | mark m body ih =>
    rw [refs, ← ih]
    cases h : body.expand f <;> simp [expand, h]
  | ref r => simp [expand, refs]

end Doc

/-- A document with nothing left to fill in. -/
abbrev Page := Doc Empty

/-- A mark and the place of its text. -/
structure Region where
  mark : Mark
  span : Span
  deriving DecidableEq, Repr

namespace Page

def render : Page → String
  | .text s => s
  | .append left right => render left ++ render right
  | .mark _ body => render body
  | .ref r => nomatch r

/-- The number of bytes of the rendered page. -/
def width : Page → Nat
  | .text s => s.utf8ByteSize
  | .append left right => width left + width right
  | .mark _ body => width body
  | .ref r => nomatch r

/-- The marks of a page that starts at offset `start`, an outer mark before the
    marks inside it and otherwise from left to right. -/
def regions (start : Nat) : Page → List Region
  | .text _ => []
  | .append left right => regions start left ++ regions (start + width left) right
  | .mark m body => ⟨m, ⟨start, start + width body⟩⟩ :: regions start body
  | .ref r => nomatch r

theorem utf8ByteSize_render (p : Page) : p.render.utf8ByteSize = p.width := by
  induction p with
  | text s => rfl
  | append a b iha ihb => simp [render, width, iha, ihb]
  | mark m body ih => exact ih
  | ref r => cases r

/-- A region is never reversed and lies within its page. -/
theorem regions_bounds {p : Page} {start : Nat} {r : Region} (h : r ∈ regions start p) :
    start ≤ r.span.start ∧ r.span.start ≤ r.span.stop ∧ r.span.stop ≤ start + p.width := by
  induction p generalizing start with
  | text s => cases h
  | append a b iha ihb =>
    simp only [regions, List.mem_append] at h
    simp only [width]
    rcases h with h | h
    · have := iha h
      omega
    · have := ihb h
      omega
  | mark m body ih =>
    simp only [regions, List.mem_cons] at h
    simp only [width]
    rcases h with rfl | h
    · simp
    · exact ih h
  | ref r => cases r

end Page

end TypeStyle
