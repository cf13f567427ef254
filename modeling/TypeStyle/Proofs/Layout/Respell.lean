-- SUMMARY: Writing other text under one mark of a page, and where that moves everything else.
import TypeStyle.Proofs.Layout.Part

/-! # Respelling a mark

Respelling puts other text under a mark and goes through filling in references. If the
mark stands once in a page then the text before and after it stays, and every other
region keeps its ends or has them moved by the difference in length. -/

namespace TypeStyle

/-! ## Moving spans -/

namespace Span

/-- Where an offset goes when the text under `slot` is replaced by `n` bytes. -/
def move (slot : Span) (n offset : Nat) : Nat :=
  if offset ≤ slot.start then offset else offset + n - (slot.stop - slot.start)

/-- A span after the text under `slot` was replaced by `n` bytes. -/
def moved (slot : Span) (n : Nat) (span : Span) : Span :=
  ⟨slot.move n span.start, slot.move n span.stop⟩

/-- Neither end of a span is strictly inside `slot`. -/
structure Clear (slot span : Span) : Prop where
  start : span.start ≤ slot.start ∨ slot.stop ≤ span.start
  stop : span.stop ≤ slot.start ∨ slot.stop ≤ span.stop

theorem move_of_le {slot : Span} {n offset : Nat} (h : offset ≤ slot.start) :
    slot.move n offset = offset := by
  simp [move, h]

theorem move_of_ge {slot : Span} {n offset : Nat} (hslot : slot.start < slot.stop)
    (h : slot.stop ≤ offset) : slot.move n offset = offset + n - (slot.stop - slot.start) := by
  have hlt : ¬ offset ≤ slot.start := by omega
  simp [move, hlt]

end Span

def Region.moved (slot : Span) (n : Nat) (r : Region) : Region :=
  ⟨r.mark, slot.moved n r.span⟩

namespace Doc

variable {ρ σ : Type}

/-- The document with the text `x` under the mark `n` wherever it has the mark `m`. -/
def respell (m n : Mark) (x : String) : Doc ρ → Doc ρ
  | text s => .text s
  | append left right => .append (left.respell m n x) (right.respell m n x)
  | mark l body => if l = m then .mark n (.text x) else .mark l (body.respell m n x)
  | ref r => .ref r

/-- Wherever the document has the mark `m`, there is the text `w` under it. -/
def Spells (m : Mark) (w : String) : Doc ρ → Prop
  | text _ | ref _ => True
  | append left right => left.Spells m w ∧ right.Spells m w
  | mark l body => if l = m then body = .text w else body.Spells m w

variable {m n : Mark} {w x : String}

@[simp] theorem respell_text (s : String) : (text s : Doc ρ).respell m n x = .text s := rfl

@[simp] theorem respell_append (a b : Doc ρ) :
    (a ++ b).respell m n x = a.respell m n x ++ b.respell m n x := rfl

@[simp] theorem respell_ref (r : ρ) : (ref r).respell m n x = .ref r := rfl

@[simp] theorem respell_mark (l : Mark) (d : Doc ρ) :
    (mark l d).respell m n x = if l = m then .mark n (.text x) else .mark l (d.respell m n x) := rfl

@[simp] theorem spells_text (s : String) : (text s : Doc ρ).Spells m w := trivial

@[simp] theorem spells_append (a b : Doc ρ) :
    (a ++ b).Spells m w ↔ a.Spells m w ∧ b.Spells m w := Iff.rfl

@[simp] theorem spells_mark (l : Mark) (d : Doc ρ) :
    (mark l d).Spells m w ↔ if l = m then d = .text w else d.Spells m w := Iff.rfl

theorem respell_of_not_mem {d : Doc ρ} (h : m ∉ d.marks) : d.respell m n x = d := by
  induction d with
  | text s => rfl
  | append a b iha ihb =>
    have h : m ∉ a.marks ∧ m ∉ b.marks := by simpa [marks] using h
    rw [respell, iha h.1, ihb h.2]
  | mark l body ih =>
    have h : m ≠ l ∧ m ∉ body.marks := by simpa using h
    rw [respell, if_neg (Ne.symm h.1), ih h.2]
  | ref r => rfl

theorem spells_of_not_mem {d : Doc ρ} (h : m ∉ d.marks) : d.Spells m w := by
  induction d with
  | text s => trivial
  | append a b iha ihb =>
    have h : m ∉ a.marks ∧ m ∉ b.marks := by simpa [marks] using h
    exact ⟨iha h.1, ihb h.2⟩
  | mark l body ih =>
    have h : m ≠ l ∧ m ∉ body.marks := by simpa using h
    rw [spells_mark, if_neg (Ne.symm h.1)]
    exact ih h.2
  | ref r => trivial

/-- Respelling a mark that was put in by respelling. -/
theorem respell_respell {k : Mark} {y : String} {d : Doc ρ} (h : n ∉ d.marks) :
    (d.respell m n x).respell n k y = d.respell m k y := by
  induction d with
  | text s => rfl
  | append a b iha ihb =>
    have h : n ∉ a.marks ∧ n ∉ b.marks := by simpa [marks] using h
    rw [respell, respell, respell, iha h.1, ihb h.2]
  | mark l body ih =>
    have h : n ≠ l ∧ n ∉ body.marks := by simpa using h
    by_cases hl : l = m
    · simp [hl]
    · simp [hl, Ne.symm h.1, ih h.2]
  | ref r => rfl

/-- Respelling goes through filling in references. -/
theorem expand_respell {f g : ρ → Option (Doc σ)} (hfg : ∀ r, g r = (f r).map (respell m n x))
    {d : Doc ρ} (h : d.Spells m w) :
    (d.respell m n x).expand g = (d.expand f).map (respell m n x) := by
  induction d with
  | text s => rfl
  | append a b iha ihb =>
    obtain ⟨ha, hb⟩ := h
    simp only [respell, expand, iha ha, ihb hb]
    cases a.expand f <;> cases b.expand f <;> rfl
  | mark l body ih =>
    by_cases hl : l = m
    · obtain rfl : body = .text w := by simpa [hl] using h
      simp [hl, expand]
    · have hbody : body.Spells m w := by simpa [hl] using h
      rw [respell, if_neg hl]
      simp only [expand, ih hbody]
      cases body.expand f <;> simp [hl]
  | ref r => exact hfg r

theorem Spells.expand {f : ρ → Option (Doc σ)} (hf : ∀ r q, f r = some q → q.Spells m w)
    {d : Doc ρ} {p : Doc σ} (h : d.Spells m w) (hp : d.expand f = some p) : p.Spells m w := by
  induction d generalizing p with
  | text s =>
    cases hp
    trivial
  | append a b iha ihb =>
    obtain ⟨a', b', ha, hb, rfl⟩ := expand_append_eq_some.mp hp
    exact ⟨iha h.1 ha, ihb h.2 hb⟩
  | mark l body ih =>
    obtain ⟨body', hbody, rfl⟩ := expand_mark_eq_some.mp hp
    rw [spells_mark] at h ⊢
    split
    · next hl =>
      rw [if_pos hl] at h
      subst h
      exact (Option.some.inj hbody).symm
    · next hl =>
      rw [if_neg hl] at h
      exact ih h hbody
  | ref r => exact hf r p hp

end Doc

namespace Page

variable {m n : Mark} {w x : String}

/-! ## The text -/

/-- Respelling a mark that stands once replaces the text under it. -/
theorem render_respell {p : Page} (h : p.Spells m w) (hcount : p.marks.count m = 1) :
    ∃ before after, render p = before ++ w ++ after ∧
      render (p.respell m n x) = before ++ x ++ after ∧
      Part m (.text w) before.utf8ByteSize p := by
  induction p with
  | text s => cases hcount
  | append a b iha ihb =>
    obtain ⟨ha, hb⟩ := h
    rcases count_append_eq_one hcount with ⟨hone, hnot⟩ | ⟨hnot, hone⟩
    · obtain ⟨before, after, hold, hnew, hpart⟩ := iha ha hone
      refine ⟨before, after ++ render b, ?_, ?_, hpart.left⟩
      · simp [render, hold, String.append_assoc]
      · simp [Doc.respell, Doc.respell_of_not_mem hnot, render, hnew, String.append_assoc]
    · obtain ⟨before, after, hold, hnew, hpart⟩ := ihb hb hone
      refine ⟨render a ++ before, after, ?_, ?_, ?_⟩
      · simp [render, hold, String.append_assoc]
      · simp [Doc.respell, Doc.respell_of_not_mem hnot, render, hnew, String.append_assoc]
      · rw [String.utf8ByteSize_append, utf8ByteSize_render]
        exact hpart.right
  | mark l body ih =>
    by_cases hl : l = m
    · subst hl
      obtain rfl : body = .text w := by simpa using h
      exact ⟨"", "", by simp [render], by simp [render], .here⟩
    · have hbody : body.Spells m w := by simpa [hl] using h
      rw [Doc.marks_mark, List.count_cons_of_ne hl] at hcount
      obtain ⟨before, after, hold, hnew, hpart⟩ := ih hbody hcount
      refine ⟨before, after, hold, ?_, hpart.inside⟩
      rw [Doc.respell, if_neg hl]
      exact hnew
  | ref r => cases r

/-- A text respelled as it was stays. -/
theorem render_respell_self {p : Page} (h : p.Spells m w) :
    render (p.respell m n w) = render p := by
  induction p with
  | text s => rfl
  | append a b iha ihb => rw [Doc.respell, render, render, iha h.1, ihb h.2]
  | mark l body ih =>
    rw [Doc.spells_mark] at h
    rw [Doc.respell_mark]
    split
    · next hl =>
      rw [if_pos hl] at h
      rw [h]
      rfl
    · next hl =>
      rw [if_neg hl] at h
      rw [render, render, ih h]
  | ref r => cases r

theorem width_respell {p : Page} (h : p.Spells m w) (hcount : p.marks.count m = 1) :
    width (p.respell m n x) + w.utf8ByteSize = width p + x.utf8ByteSize := by
  obtain ⟨before, after, hold, hnew, _⟩ := render_respell (n := n) (x := x) h hcount
  rw [← utf8ByteSize_render, ← utf8ByteSize_render, hold, hnew]
  simp only [String.utf8ByteSize_append]
  omega

/-! ## The regions -/

variable {slot : Span} {k : Nat}

/-- A page behind the slot moves as a whole. -/
theorem regions_moved_of_ge (hslot : slot.start < slot.stop) {start : Nat} (h : slot.stop ≤ start)
    (p : Page) : (regions start p).map (Region.moved slot k) =
      regions (start + k - (slot.stop - slot.start)) p := by
  induction p generalizing start with
  | text s => rfl
  | append a b iha ihb =>
    have hnext : start + width a + k - (slot.stop - slot.start) =
        start + k - (slot.stop - slot.start) + width a := by omega
    rw [regions, regions, List.map_append, iha h, ihb (by omega), hnext]
  | mark l body ih =>
    have hstop : start + width body + k - (slot.stop - slot.start) =
        start + k - (slot.stop - slot.start) + width body := by omega
    have hend : slot.stop ≤ start + width body := by omega
    rw [regions, regions, List.map_cons, ih h, Region.moved, Span.moved]
    dsimp only
    rw [Span.move_of_ge hslot h, Span.move_of_ge hslot hend, hstop]
  | ref r => cases r

/-- A page in front of the slot does not move. -/
theorem regions_moved_of_le {start : Nat} {p : Page} (h : start + width p ≤ slot.start) :
    (regions start p).map (Region.moved slot k) = regions start p := by
  have hself : ∀ r ∈ regions start p, r.moved slot k = id r := by
    intro r hr
    have := regions_bounds hr
    rw [Region.moved, Span.moved, Span.move_of_le (by omega), Span.move_of_le (by omega)]
    rfl
  rw [List.map_congr_left hself, List.map_id]

theorem clear_of_ge {start : Nat} {p : Page} (h : slot.stop ≤ start) {r : Region}
    (hr : r ∈ regions start p) : slot.Clear r.span := by
  have := regions_bounds hr
  exact ⟨.inr (by omega), .inr (by omega)⟩

theorem clear_of_le {start : Nat} {p : Page} (h : start + width p ≤ slot.start) {r : Region}
    (hr : r ∈ regions start p) : slot.Clear r.span := by
  have := regions_bounds hr
  exact ⟨.inl (by omega), .inl (by omega)⟩

/-- Respelling a mark that stands once, with text under it, moves every other region,
    and no region ends inside that text. -/
theorem regions_respell {p : Page} (h : p.Spells m w) (hcount : p.marks.count m = 1)
    (hw : 0 < w.utf8ByteSize) (start : Nat) :
    ∃ slot l₁ l₂, start ≤ slot.start ∧ slot.start + w.utf8ByteSize = slot.stop ∧
      slot.stop ≤ start + width p ∧ regions start p = l₁ ++ ⟨m, slot⟩ :: l₂ ∧
      regions start (p.respell m n x) = l₁.map (Region.moved slot x.utf8ByteSize) ++
        ⟨n, ⟨slot.start, slot.start + x.utf8ByteSize⟩⟩ :: l₂.map (Region.moved slot x.utf8ByteSize) ∧
      ∀ r ∈ l₁ ++ l₂, slot.Clear r.span := by
  induction p generalizing start with
  | text s => cases hcount
  | append a b iha ihb =>
    obtain ⟨ha, hb⟩ := h
    rcases count_append_eq_one hcount with ⟨hone, hnot⟩ | ⟨hnot, hone⟩
    · obtain ⟨slot, l₁, l₂, hstart, hwidth, hstop, hold, hnew, hclear⟩ := iha ha hone start
      have hlen := width_respell (n := n) (x := x) ha hone
      have hnext : start + width (a.respell m n x) =
          start + width a + x.utf8ByteSize - (slot.stop - slot.start) := by omega
      refine ⟨slot, l₁, l₂ ++ regions (start + width a) b, hstart, hwidth, ?_, ?_, ?_, ?_⟩
      · rw [width]
        omega
      · rw [regions, hold, List.append_assoc, List.cons_append]
      · rw [Doc.respell, regions, Doc.respell_of_not_mem hnot, hnew, hnext, List.map_append,
          regions_moved_of_ge (by omega) hstop, List.append_assoc, List.cons_append]
      · intro r hr
        rw [← List.append_assoc, List.mem_append] at hr
        rcases hr with hr | hr
        · exact hclear r hr
        · exact clear_of_ge hstop hr
    · obtain ⟨slot, l₁, l₂, hstart, hwidth, hstop, hold, hnew, hclear⟩ :=
        ihb hb hone (start + width a)
      refine ⟨slot, regions start a ++ l₁, l₂, by omega, hwidth, ?_, ?_, ?_, ?_⟩
      · rw [width]
        omega
      · rw [regions, hold, List.append_assoc]
      · rw [Doc.respell, regions, Doc.respell_of_not_mem hnot, hnew, List.map_append,
          regions_moved_of_le hstart, List.append_assoc]
      · intro r hr
        rw [List.append_assoc, List.mem_append] at hr
        rcases hr with hr | hr
        · exact clear_of_le hstart hr
        · exact hclear r hr
  | mark l body ih =>
    by_cases hl : l = m
    · subst hl
      obtain rfl : body = .text w := by simpa using h
      refine ⟨⟨start, start + w.utf8ByteSize⟩, [], [], Nat.le_refl _, rfl, Nat.le_refl _, rfl, ?_, ?_⟩
      · simp [regions, width]
      · intro r hr
        cases hr
    · have hbody : body.Spells m w := by simpa [hl] using h
      rw [Doc.marks_mark, List.count_cons_of_ne hl] at hcount
      obtain ⟨slot, l₁, l₂, hstart, hwidth, hstop, hold, hnew, hclear⟩ := ih hbody hcount start
      have hlen := width_respell (n := n) (x := x) hbody hcount
      refine ⟨slot, ⟨l, ⟨start, start + width body⟩⟩ :: l₁, l₂, hstart, hwidth, hstop, ?_, ?_, ?_⟩
      · rw [regions, hold]
        rfl
      · rw [Doc.respell, if_neg hl, regions, hnew, List.map_cons, Region.moved, Span.moved,
          Span.move_of_le hstart, Span.move_of_ge (by omega) hstop]
        have hend : start + width (body.respell m n x) =
            start + width body + x.utf8ByteSize - (slot.stop - slot.start) := by omega
        rw [hend]
        rfl
      · intro r hr
        rcases List.mem_cons.mp hr with rfl | hr
        · exact ⟨.inl hstart, .inr hstop⟩
        · exact hclear r hr
  | ref r => cases r

end Page

end TypeStyle
