-- SUMMARY: Pages that differ only in what stands under one mark have the same text around it.
import TypeStyle.Proofs.Layout.Part

/-! # Differences under a mark

Two documents that differ only under a mark are filled in to pages that differ only under it,
and in these the text before the mark and the text after it are the same. -/

namespace TypeStyle

namespace Doc

variable {ρ : Type} {m : Mark} {d d' : Doc ρ}

/-- The documents are the same but for what stands under the mark `m`, and that mentions
    nothing in either of them. -/
inductive DiffersUnder (m : Mark) : Doc ρ → Doc ρ → Prop
  | text (s : String) : DiffersUnder m (.text s) (.text s)
  | ref (r : ρ) : DiffersUnder m (.ref r) (.ref r)
  | append {a a' b b' : Doc ρ} :
      DiffersUnder m a a' → DiffersUnder m b b' → DiffersUnder m (a ++ b) (a' ++ b')
  | mark {l : Mark} {a a' : Doc ρ} :
      l ≠ m → DiffersUnder m a a' → DiffersUnder m (.mark l a) (.mark l a')
  | here {c c' : Doc ρ} : c.refs = [] → c'.refs = [] → DiffersUnder m (.mark m c) (.mark m c')

namespace DiffersUnder

theorem of_not_mem (h : m ∉ d.marks) : d.DiffersUnder m d := by
  induction d with
  | text s => exact .text s
  | append a b iha ihb =>
    have h : m ∉ a.marks ∧ m ∉ b.marks := by simpa [marks] using h
    exact .append (iha h.1) (ihb h.2)
  | mark l body ih =>
    have h : m ≠ l ∧ m ∉ body.marks := by simpa using h
    exact .mark (Ne.symm h.1) (ih h.2)
  | ref r => exact .ref r

/-- Without the mark there is no difference. -/
theorem eq_of_not_mem (h : d.DiffersUnder m d') (hm : m ∉ d.marks) : d = d' := by
  induction h with
  | text s => rfl
  | ref r => rfl
  | append _ _ iha ihb =>
    rw [marks_append, List.mem_append, not_or] at hm
    rw [iha hm.1, ihb hm.2]
  | mark _ _ ih =>
    rw [marks_mark, List.mem_cons, not_or] at hm
    rw [ih hm.2]
  | here _ _ => exact absurd List.mem_cons_self hm

/-- Filling in pages that differ under the mark, if at all. -/
theorem expand {f g : ρ → Option Page} (hfg : ∀ r, Option.Rel (DiffersUnder m) (f r) (g r))
    (h : d.DiffersUnder m d') : Option.Rel (DiffersUnder m) (d.expand f) (d'.expand g) := by
  induction h with
  | text s => exact .some (.text s)
  | ref r => exact hfg r
  | @append a a' b b' _ _ iha ihb =>
    rw [expand_append, expand_append]
    revert iha ihb
    generalize a.expand f = x, a'.expand g = x', b.expand f = y, b'.expand g = y'
    rintro (ha | _) (hb | _)
    · exact .some (.append ha hb)
    all_goals exact .none
  | @mark l a a' hl _ ih =>
    rw [Doc.expand, Doc.expand]
    revert ih
    generalize a.expand f = x, a'.expand g = x'
    rintro (ha | _)
    · exact .some (.mark hl ha)
    · exact .none
  | @here c c' hc hc' =>
    have hsome : ∀ {c : Doc ρ} {f : ρ → Option Page}, c.refs = [] → ∃ q, c.expand f = some q := by
      intro c f hc
      exact Option.isSome_iff_exists.mp (expand_isSome_iff.mpr (by simp [hc]))
    have hpage : ∀ q : Page, q.refs = [] :=
      fun q => List.eq_nil_iff_forall_not_mem.mpr fun r => r.elim
    obtain ⟨q, hq⟩ := hsome (f := f) hc
    obtain ⟨q', hq'⟩ := hsome (f := g) hc'
    simp only [Doc.expand, hq, hq']
    exact .some (.here (hpage q) (hpage q'))

end DiffersUnder

end Doc

namespace Page

variable {m : Mark} {p p' : Page}

/-- What stands under a mark that is there once is all that differs in the text. -/
theorem render_of_differsUnder (h : p.DiffersUnder m p') (hcount : p.marks.count m = 1) :
    ∃ before after c c', render p = before ++ render c ++ after ∧
      render p' = before ++ render c' ++ after ∧
      Part m c before.utf8ByteSize p ∧ Part m c' before.utf8ByteSize p' := by
  induction h with
  | text s => cases hcount
  | ref r => cases r
  | @append a a' b b' ha hb iha ihb =>
    rcases count_append_eq_one hcount with ⟨hone, hnot⟩ | ⟨hnot, hone⟩
    · obtain rfl := hb.eq_of_not_mem hnot
      obtain ⟨before, after, c, c', hold, hnew, hpart, hpart'⟩ := iha hone
      refine ⟨before, after ++ render b, c, c', ?_, ?_, hpart.left, hpart'.left⟩
      · rw [render_append, hold, String.append_assoc]
      · rw [render_append, hnew, String.append_assoc]
    · obtain rfl := ha.eq_of_not_mem hnot
      obtain ⟨before, after, c, c', hold, hnew, hpart, hpart'⟩ := ihb hone
      have hoffset : (render a ++ before).utf8ByteSize = width a + before.utf8ByteSize := by
        rw [String.utf8ByteSize_append, utf8ByteSize_render]
      refine ⟨render a ++ before, after, c, c', ?_, ?_, ?_, ?_⟩
      · rw [render_append, hold, String.append_assoc, String.append_assoc, String.append_assoc]
      · rw [render_append, hnew, String.append_assoc, String.append_assoc, String.append_assoc]
      · exact hoffset ▸ hpart.right
      · exact hoffset ▸ hpart'.right
  | @mark l a a' hl _ ih =>
    rw [Doc.marks_mark, List.count_cons_of_ne hl] at hcount
    obtain ⟨before, after, c, c', hold, hnew, hpart, hpart'⟩ := ih hcount
    exact ⟨before, after, c, c', hold, hnew, hpart.inside, hpart'.inside⟩
  | @here c c' _ _ => exact ⟨"", "", c, c', by simp [render], by simp [render], .here, .here⟩

end Page

end TypeStyle
