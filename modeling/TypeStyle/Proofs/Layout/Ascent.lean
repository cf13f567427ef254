-- SUMMARY: On a page the marks of sites come in the order in which the sites begin.
import TypeStyle.Proofs.Layout.Fence

/-! # Sites in order

A site may have no text, so two sites could begin at the same place. That never happens
either: between two sites, and between a site and one inside it, there is text. So the order
of the marks is the order of the places where sites begin, and of two sites the later one is
inside the earlier or behind it, with text in between. -/

namespace TypeStyle

/-- `b` begins after `a`, and it ends before `a` does or begins behind it. -/
structure Span.Precedes (a b : Span) : Prop where
  start_lt : a.start < b.start
  apart : b.stop < a.stop ∨ a.stop < b.start

namespace Page

/-- Sites precede the sites whose marks come later. -/
def InOrder (p : Page) : Prop :=
  ∀ start, (regions start p).Pairwise fun r q =>
    ∀ id id', r.mark = .site id → q.mark = .site id' → r.span.Precedes q.span

variable {p a b : Page} {start : Nat} {r q : Region} {id : NodeId}

theorem Solid.inner_region (h : p.Solid) (hr : r ∈ regions start p) (hm : r.mark = .site id) :
    start < r.span.start ∧ r.span.stop < start + p.width := by
  obtain ⟨k, body, hpart, hspan⟩ := mem_regions_iff.mp hr
  rw [hm] at hpart
  have := h.inner hpart
  rw [hspan]
  dsimp only
  omega

theorem Sealed.stop_lt_region (h : p.Sealed) (hr : r ∈ regions start p) :
    r.span.stop < start + p.width := by
  obtain ⟨k, body, hpart, hspan⟩ := mem_regions_iff.mp hr
  have := h.stop_lt hpart
  rw [hspan]
  dsimp only
  omega

/-- Sites on different sides come in order if there is text in between. -/
theorem InOrder.append (ha : a.InOrder) (hb : b.InOrder)
    (hgap : ∀ ⦃start r q id id'⦄, r ∈ regions start a → q ∈ regions (start + a.width) b →
      r.mark = .site id → q.mark = .site id' → r.span.stop < q.span.start) :
    (a ++ b).InOrder := by
  intro start
  refine List.pairwise_append.mpr ⟨ha start, hb _, ?_⟩
  intro r hr q hq id id' hid hid'
  have hlt := hgap hr hq hid hid'
  have := regions_bounds hr
  exact ⟨by omega, .inr hlt⟩

theorem InOrder.text_append (s : String) (hb : b.InOrder) : InOrder (Doc.text s ++ b) :=
  fun start => hb (start + s.utf8ByteSize)

theorem InOrder.append_text (ha : a.InOrder) (s : String) : InOrder (a ++ Doc.text s) := by
  intro start
  refine List.pairwise_append.mpr ⟨ha start, List.Pairwise.nil, ?_⟩
  intro r hr q hq
  cases hq

theorem InOrder.mark (hp : p.InOrder) {m : Mark} (hsite : ∀ id, m ≠ .site id) :
    InOrder (.mark m p) := by
  intro start
  refine List.pairwise_cons.mpr ⟨?_, hp start⟩
  intro q hq id id' hid
  exact absurd hid (hsite id)

/-- A site begins before every site inside it, and ends after it. -/
theorem InOrder.site (hp : p.InOrder) (hsolid : p.Solid) (id : NodeId) :
    InOrder (.mark (.site id) p) := by
  intro start
  refine List.pairwise_cons.mpr ⟨?_, hp start⟩
  intro q hq _ id' _ hid'
  have hinner := hsolid.inner_region hq hid'
  exact ⟨hinner.1, .inl hinner.2⟩

/-- Every page that is laid out has its sites in order. -/
theorem Laid.inOrder {g : Grade} (h : p.Laid g) : p.InOrder := by
  induction h with
  | text s => exact fun _ => List.Pairwise.nil
  | fault message s =>
    have htext : InOrder (.text s) := fun _ => List.Pairwise.nil
    exact htext.mark (by simp)
  | mark hsite _ _ ih => exact ih.mark hsite
  | append _ hb iha ihb =>
    have hsolid : Solid _ := hb.holds
    refine iha.append ihb fun _ r _ _ _ hr hq _ hid' => ?_
    have := regions_bounds hr
    have := (hsolid.inner_region hq hid').1
    omega
  | between _ _ _ ih => exact (ih.text_append _).append_text _
  | site id h ih => exact ih.site h.holds id
  | ofSolid _ ih => exact ih
  | ofSealed _ ih => exact ih
  | behind s _ ih => exact ih.text_append s
  | after ha _ iha ihb | join ha _ iha ihb =>
    have hsealed : Sealed _ := ha.holds
    refine iha.append ihb fun _ _ _ _ _ hr hq _ _ => ?_
    have := hsealed.stop_lt_region hr
    have := regions_bounds hq
    omega
  | empty => exact fun _ => List.Pairwise.nil
  | close _ _ ih => exact ih.append_text _

end Page

end TypeStyle
