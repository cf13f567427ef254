-- SUMMARY: In a written tree a fault stands inside a site or clear of it, never just at its edge.
import TypeStyle.Proofs.Layout.Laid

/-! # Sites and faults

A fault may have no text at all, so it could stand exactly at the edge of a site and
be within its span without being part of it. That never happens: every mention of a
site has text on both sides, or begins a page. A page made of fenced pages is fenced
if what is put together has text in between, and the two stronger properties below
say where that text is. -/

namespace TypeStyle

namespace Page

/-- A fault is part of a site, or there is text between the two. -/
def Fenced (p : Page) : Prop :=
  ∀ ⦃id site k message fault j⦄, Part (.site id) site k p → Part (.fault message) fault j p →
    (∃ i, Part (.fault message) fault i site) ∨ j + fault.width < k ∨ k + site.width < j

/-- A fenced page that ends in text without marks. -/
structure Sealed (p : Page) : Prop where
  fenced : p.Fenced
  stop_lt : ∀ ⦃m body k⦄, Part m body k p → k + body.width < p.width

/-- A fenced page with text before and after every site in it. -/
structure Solid (p : Page) : Prop where
  fenced : p.Fenced
  inner : ∀ ⦃id body k⦄, Part (.site id) body k p → 0 < k ∧ k + body.width < p.width

theorem Solid.text (s : String) : Solid (.text s) := by
  constructor
  · intro _ _ _ _ _ _ h
    cases h
  · intro _ _ _ h
    cases h

/-- Fenced pages can be put together if a site and a fault on different sides have
    text in between. -/
theorem Fenced.append {a b : Page} (ha : a.Fenced) (hb : b.Fenced)
    (hsite : ∀ ⦃id site k message fault j⦄, Part (.site id) site k a →
      Part (.fault message) fault j b → k + site.width < a.width + j)
    (hfault : ∀ ⦃id site k message fault j⦄, Part (.site id) site k b →
      Part (.fault message) fault j a → j + fault.width < a.width + k) :
    (a ++ b).Fenced := by
  intro id site k message fault j hs hf
  cases hs with
  | left hs =>
    cases hf with
    | left hf => exact ha hs hf
    | right hf => exact .inr (.inr (hsite hs hf))
  | right hs =>
    cases hf with
    | left hf => exact .inr (.inl (hfault hs hf))
    | right hf =>
      rcases hb hs hf with hin | hbefore | hafter
      · exact .inl hin
      · exact .inr (.inl (by omega))
      · exact .inr (.inr (by omega))

theorem Sealed.append_fenced {a b : Page} (ha : a.Sealed) (hb : b.Fenced) : (a ++ b).Fenced := by
  apply ha.fenced.append hb
  · intro _ _ _ _ _ _ hs _
    have := ha.stop_lt hs
    omega
  · intro _ _ _ _ _ _ _ hf
    have := ha.stop_lt hf
    omega

theorem Sealed.append {a b : Page} (ha : a.Sealed) (hb : b.Sealed) : (a ++ b).Sealed := by
  refine ⟨ha.append_fenced hb.fenced, ?_⟩
  intro m body k h
  rw [width_append]
  cases h with
  | left h =>
    have := ha.stop_lt h
    omega
  | right h =>
    have := hb.stop_lt h
    omega

theorem Solid.append {a b : Page} (ha : a.Solid) (hb : b.Solid) : (a ++ b).Solid := by
  constructor
  · apply ha.fenced.append hb.fenced
    · intro _ _ _ _ _ _ hs _
      have := (ha.inner hs).2
      omega
    · intro _ _ _ _ _ _ hs hf
      have := (hb.inner hs).1
      have := hf.offset_le
      omega
  · intro id body k h
    rw [width_append]
    cases h with
    | left h =>
      have := ha.inner h
      omega
    | right h =>
      have := hb.inner h
      omega

theorem Fenced.text_append {b : Page} (s : String) (hb : b.Fenced) :
    Fenced (Doc.text s ++ b) := by
  apply (Solid.text s).fenced.append hb
  · intro _ _ _ _ _ _ hs _
    cases hs
  · intro _ _ _ _ _ _ _ hf
    cases hf

/-- Text after a fenced page seals it. -/
theorem Fenced.append_text {a : Page} (ha : a.Fenced) {s : String} (hs : 0 < s.utf8ByteSize) :
    (a ++ Doc.text s).Sealed := by
  constructor
  · apply ha.append (Solid.text s).fenced
    · intro _ _ _ _ _ _ _ hf
      cases hf
    · intro _ _ _ _ _ _ hs _
      cases hs
  · intro m body k h
    rw [width_append, width]
    cases h with
    | left h =>
      have := h.offset_le
      omega
    | right h => cases h

/-- Text on both sides makes a fenced page solid. -/
theorem Fenced.between_texts {a : Page} (ha : a.Fenced) {s s' : String} (hs : 0 < s.utf8ByteSize)
    (hs' : 0 < s'.utf8ByteSize) : Solid (Doc.text s ++ a ++ Doc.text s') := by
  have hsealed := (ha.text_append s).append_text hs'
  refine ⟨hsealed.fenced, ?_⟩
  intro id body k h
  refine ⟨?_, hsealed.stop_lt h⟩
  cases h with
  | left h =>
    cases h with
    | left h => cases h
    | right h =>
      rw [width]
      omega
  | right h => cases h

/-- A mark other than a site's around a solid page. -/
theorem Solid.mark {p : Page} (hp : p.Solid) {m : Mark} (hsite : ∀ id, m ≠ .site id)
    (hfault : ∀ message, m ≠ .fault message) : Solid (.mark m p) := by
  constructor
  · intro _ _ _ _ _ _ hs hf
    cases hs with
    | here => exact absurd rfl (hsite _)
    | inside hs =>
      cases hf with
      | here => exact absurd rfl (hfault _)
      | inside hf => exact hp.fenced hs hf
  · intro _ _ _ hs
    cases hs with
    | here => exact absurd rfl (hsite _)
    | inside hs => exact hp.inner hs

/-- A fault holds no site. -/
theorem Solid.fault (message s : String) : Solid (.mark (.fault message) (.text s)) := by
  constructor
  · intro _ _ _ _ _ _ hs _
    cases hs with
    | inside hs => cases hs
  · intro _ _ _ hs
    cases hs with
    | inside hs => cases hs

/-- Everything in the page of a site is part of the site. -/
theorem Solid.site {p : Page} (hp : p.Solid) (id : NodeId) : Fenced (.mark (.site id) p) := by
  intro _ _ _ _ _ _ hs hf
  cases hf with
  | inside hf =>
    cases hs with
    | here => exact .inl ⟨_, hf⟩
    | inside hs => exact hp.fenced hs hf

theorem Sealed.text (s : String) : Sealed (.text s) := by
  refine ⟨(Solid.text s).fenced, ?_⟩
  intro _ _ _ h
  cases h

end Page

/-! ## Grades -/

open Page (Fenced Sealed Solid)

/-- What a grade says of a page. -/
def Grade.Holds : Grade → Page → Prop
  | fenced => Fenced
  | sealed => Sealed
  | solid => Solid

theorem Page.Laid.holds {g : Grade} {p : Page} (h : p.Laid g) : g.Holds p := by
  induction h with
  | text s => exact Solid.text s
  | fault message s => exact Solid.fault message s
  | mark hsite hfault _ ih => exact Solid.mark ih hsite hfault
  | append _ _ iha ihb => exact Solid.append iha ihb
  | between hs hs' _ ih => exact Fenced.between_texts ih hs hs'
  | site id _ ih => exact Solid.site ih id
  | ofSolid _ ih => exact Solid.fenced ih
  | ofSealed _ ih => exact Sealed.fenced ih
  | behind s _ ih => exact Fenced.text_append s ih
  | after _ _ iha ihb => exact Sealed.append_fenced iha ihb
  | empty => exact Sealed.text ""
  | close hs _ ih => exact Fenced.append_text ih hs
  | join _ _ iha ihb => exact Sealed.append iha ihb

theorem SyntaxTree.fenced_page (t : SyntaxTree) : t.page.Fenced := t.laid_page.holds

end TypeStyle
