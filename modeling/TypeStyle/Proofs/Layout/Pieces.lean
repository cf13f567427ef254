-- SUMMARY: A page in pieces: replacing the text under several marks at once, or one after the other.
import TypeStyle.Proofs.Layout.Respell
import TypeStyle.Proofs.Text.Pieces

/-! # Pages in pieces

Replacing what stands under the marks of a set by one word cuts a page into pieces. The
edits of the pieces are the regions of these marks, and respelling one of the marks
first leaves the others to be replaced. -/

namespace TypeStyle

namespace Page

/-- The page with the text under the marks of `P` to be replaced by `x`. -/
def pieces (P : Mark → Bool) (x : String) : Page → List Piece
  | .text s => [.keep s]
  | .append left right => pieces P x left ++ pieces P x right
  | .mark m body => if P m then [.swap (render body) x] else pieces P x body
  | .ref r => nomatch r

variable {P : Mark → Bool} {x : String}

theorem oldText_pieces (P : Mark → Bool) (x : String) (p : Page) :
    Piece.oldText (pieces P x p) = render p := by
  induction p with
  | text s => simp [pieces, Piece.oldText, Piece.old, render]
  | append a b iha ihb => rw [pieces, Piece.oldText_append, iha, ihb, render]
  | mark m body ih =>
    rw [pieces, render]
    split
    · simp [Piece.oldText, Piece.old]
    · exact ih
  | ref r => cases r

theorem newText_pieces_of_not_mem {p : Page} (h : ∀ m ∈ p.marks, P m = false) :
    Piece.newText (pieces P x p) = render p := by
  induction p with
  | text s => simp [pieces, Piece.newText, Piece.new, render]
  | append a b iha ihb =>
    have ha : ∀ m ∈ a.marks, P m = false := fun m hm => h m (List.mem_append_left _ hm)
    have hb : ∀ m ∈ b.marks, P m = false := fun m hm => h m (List.mem_append_right _ hm)
    rw [pieces, Piece.newText_append, iha ha, ihb hb, render]
  | mark m body ih =>
    have hm : P m = false := h m List.mem_cons_self
    rw [pieces, render, hm]
    exact ih fun m hm => h m (List.mem_cons_of_mem _ hm)
  | ref r => cases r

/-- Nothing stands under the marks of `P` but text. -/
def FlatUnder (P : Mark → Bool) (p : Page) : Prop :=
  ∀ m, P m = true → ∃ w, p.Spells m w

/-- The edits of the pieces are the regions of the marks. -/
theorem edits_pieces {p : Page} (h : FlatUnder P p) (start : Nat) :
    Piece.edits start (pieces P x p) =
      (regions start p).filterMap fun r => if P r.mark then some ⟨r.span, x⟩ else none := by
  induction p generalizing start with
  | text s => rfl
  | append a b iha ihb =>
    have ha : FlatUnder P a := fun m hm => (h m hm).imp fun _ hw => hw.1
    have hb : FlatUnder P b := fun m hm => (h m hm).imp fun _ hw => hw.2
    rw [pieces, Piece.edits_append, oldText_pieces, utf8ByteSize_render, iha ha, ihb hb, regions,
      List.filterMap_append]
  | mark m body ih =>
    rw [pieces, regions]
    cases hm : P m with
    | true =>
      obtain ⟨w, hw⟩ := h m hm
      obtain rfl : body = .text w := by simpa using hw
      simp [Piece.edits, regions, render, width, hm]
    | false =>
      have hbody : FlatUnder P body := by
        intro l hl
        obtain ⟨w, hw⟩ := h l hl
        have hne : m ≠ l := by
          rintro rfl
          rw [hm] at hl
          cases hl
        exact ⟨w, by simpa [hne] using hw⟩
      simp [ih hbody, hm]
  | ref r => cases r

/-- Respelling one mark leaves the other marks to be replaced. -/
theorem newText_pieces_respell {m n : Mark} (hn : P n = false) (p : Page) :
    Piece.newText (pieces P x (p.respell m n x)) =
      Piece.newText (pieces (fun l => l = m || P l) x p) := by
  induction p with
  | text s => rfl
  | append a b iha ihb =>
    rw [Doc.respell, pieces, pieces, Piece.newText_append, Piece.newText_append, iha, ihb]
  | mark l body ih =>
    rw [Doc.respell]
    by_cases hl : l = m
    · simp [hl, pieces, hn, Piece.newText, Piece.new]
    · cases hP : P l with
      | true => simp [hl, pieces, hP, Piece.newText, Piece.new]
      | false => simp [hl, pieces, hP, ih]
  | ref r => cases r

end Page

end TypeStyle
