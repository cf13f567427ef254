-- SUMMARY: The marked parts of a page, where they stand, and what filling in references does to them.
import TypeStyle.Tree.Basic

/-! # Marked parts

A page is a tree of marks, and a part is one of its subtrees with the offset at
which it stands. The regions of a page are its parts, and a part of a document
that was filled in comes either from the document or from one of the pages filled
in. In the page of a tree this gives each site one body, however often and however
deep it is written. -/

namespace TypeStyle

namespace Doc

variable {ρ σ : Type}

/-- The marks of a document, an outer mark before the marks inside it and otherwise
    from left to right. -/
def marks : Doc ρ → List Mark
  | text _ => []
  | append left right => left.marks ++ right.marks
  | mark m body => m :: body.marks
  | ref _ => []

@[simp] theorem marks_text (s : String) : (text s : Doc ρ).marks = [] := rfl

@[simp] theorem marks_append (a b : Doc ρ) : (a ++ b).marks = a.marks ++ b.marks := rfl

@[simp] theorem marks_mark (m : Mark) (d : Doc ρ) : (mark m d).marks = m :: d.marks := rfl

@[simp] theorem marks_ref (r : ρ) : (ref r).marks = [] := rfl

theorem marks_commaSeparated (ds : List (Doc ρ)) :
    (commaSeparated ds).marks = ds.flatMap marks := by
  fun_induction commaSeparated ds with
  | case1 => rfl
  | case2 d => simp
  | case3 d e ds ih => simp [ih]

/-- The marks of a document in the same order, each with what stands under it. -/
def marked : Doc ρ → List (Mark × Doc ρ)
  | text _ => []
  | append left right => left.marked ++ right.marked
  | mark m body => (m, body) :: body.marked
  | ref _ => []

@[simp] theorem marked_text (s : String) : (text s : Doc ρ).marked = [] := rfl

@[simp] theorem marked_append (a b : Doc ρ) : (a ++ b).marked = a.marked ++ b.marked := rfl

@[simp] theorem marked_mark (m : Mark) (d : Doc ρ) :
    (mark m d).marked = (m, d) :: d.marked := rfl

@[simp] theorem marked_ref (r : ρ) : (ref r).marked = [] := rfl

theorem map_fst_marked (d : Doc ρ) : d.marked.map Prod.fst = d.marks := by
  induction d with
  | text s => rfl
  | append a b iha ihb => simp [marked, marks, iha, ihb]
  | mark m body ih => simp [ih]
  | ref r => rfl

theorem mem_marks_of_marked {d c : Doc ρ} {m : Mark} (h : (m, c) ∈ d.marked) : m ∈ d.marks := by
  rw [← map_fst_marked]
  exact List.mem_map_of_mem h

/-! ## Filling in references -/

@[simp] theorem expand_text (f : ρ → Option (Doc σ)) (s : String) :
    (text s : Doc ρ).expand f = some (.text s) := rfl

@[simp] theorem expand_ref (f : ρ → Option (Doc σ)) (r : ρ) : (ref r).expand f = f r := rfl

theorem expand_append_eq_some {f : ρ → Option (Doc σ)} {a b : Doc ρ} {p : Doc σ} :
    (a ++ b).expand f = some p ↔
      ∃ a' b', a.expand f = some a' ∧ b.expand f = some b' ∧ a' ++ b' = p := by
  simp [Option.bind_eq_some_iff]

theorem expand_mark_eq_some {f : ρ → Option (Doc σ)} {m : Mark} {d : Doc ρ} {p : Doc σ} :
    (mark m d).expand f = some p ↔ ∃ d', d.expand f = some d' ∧ mark m d' = p := by
  simp [expand, Option.bind_eq_some_iff]

/-- A document filled in from one table is filled in the same way from any larger. -/
theorem expand_mono {f g : ρ → Option (Doc σ)} {d : Doc ρ} {p : Doc σ}
    (hfg : ∀ r q, f r = some q → g r = some q) (h : d.expand f = some p) :
    d.expand g = some p := by
  induction d generalizing p with
  | text s => exact h
  | append a b iha ihb =>
    obtain ⟨a', b', ha, hb, rfl⟩ := expand_append_eq_some.mp h
    exact expand_append_eq_some.mpr ⟨a', b', iha ha, ihb hb, rfl⟩
  | mark m body ih =>
    obtain ⟨body', hbody, rfl⟩ := expand_mark_eq_some.mp h
    exact expand_mark_eq_some.mpr ⟨body', ih hbody, rfl⟩
  | ref r => exact hfg r p h

end Doc

/-- A mark that occurs once in two lists occurs in one of them. -/
theorem count_append_eq_one {α : Type} [DecidableEq α] {a : α} {l₁ l₂ : List α}
    (h : (l₁ ++ l₂).count a = 1) :
    (l₁.count a = 1 ∧ a ∉ l₂) ∨ (a ∉ l₁ ∧ l₂.count a = 1) := by
  rw [List.count_append] at h
  by_cases ha : a ∈ l₁
  · have hpos := List.count_pos_iff.mpr ha
    exact .inl ⟨by omega, List.count_eq_zero.mp (by omega)⟩
  · have hzero := List.count_eq_zero.mpr ha
    exact .inr ⟨ha, by omega⟩

namespace Page

@[simp] theorem render_append (a b : Page) : render (a ++ b) = render a ++ render b := rfl

@[simp] theorem width_append (a b : Page) : width (a ++ b) = width a + width b := rfl

theorem regions_map_mark (start : Nat) (p : Page) :
    (regions start p).map Region.mark = p.marks := by
  induction p generalizing start with
  | text s => rfl
  | append a b iha ihb => simp [regions, Doc.marks, iha, ihb]
  | mark m body ih => simp [regions, ih]
  | ref r => cases r

theorem mem_marks_of_mem_regions {start : Nat} {p : Page} {r : Region} (h : r ∈ regions start p) :
    r.mark ∈ p.marks := by
  rw [← regions_map_mark start]
  exact List.mem_map_of_mem h

/-- `body` stands in the page under the mark `m`, at an offset. -/
inductive Part (m : Mark) (body : Page) : Nat → Page → Prop where
  | here : Part m body 0 (.mark m body)
  | left {k : Nat} {a b : Page} : Part m body k a → Part m body k (.append a b)
  | right {k : Nat} {a b : Page} : Part m body k b → Part m body (width a + k) (.append a b)
  | inside {k : Nat} {n : Mark} {c : Page} : Part m body k c → Part m body k (.mark n c)

namespace Part

variable {m : Mark} {body : Page}

theorem offset_le {k : Nat} {p : Page} (h : Part m body k p) : k + body.width ≤ p.width := by
  induction h with
  | here => simp [width]
  | left _ ih => simp only [width]; omega
  | right _ ih => simp only [width]; omega
  | inside _ ih => simpa only [width] using ih

/-- The text of a part is where the part stands. -/
theorem render_eq {k : Nat} {p : Page} (h : Part m body k p) :
    ∃ before after, p.render = before ++ body.render ++ after ∧ before.utf8ByteSize = k := by
  induction h with
  | here => exact ⟨"", "", by simp [render], rfl⟩
  | @left k a b _ ih =>
    obtain ⟨before, after, htext, hk⟩ := ih
    exact ⟨before, after ++ b.render, by simp [render, htext, String.append_assoc], hk⟩
  | @right k a b _ ih =>
    obtain ⟨before, after, htext, hk⟩ := ih
    refine ⟨a.render ++ before, after, by simp [render, htext, String.append_assoc], ?_⟩
    rw [String.utf8ByteSize_append, utf8ByteSize_render, hk]
  | inside _ ih => exact ih

theorem mem_marks {k : Nat} {p : Page} (h : Part m body k p) : m ∈ p.marks := by
  induction h with
  | here => exact List.mem_cons_self
  | left _ ih => exact List.mem_append_left _ ih
  | right _ ih => exact List.mem_append_right _ ih
  | inside _ ih => exact List.mem_cons_of_mem _ ih

/-- A part of a part is a part. -/
theorem trans {n : Mark} {inner : Page} {j k : Nat} {p : Page} (hin : Part n inner j body)
    (h : Part m body k p) : Part n inner (k + j) p := by
  induction h with
  | here => simpa using hin.inside
  | left _ ih => exact ih.left
  | right _ ih => rw [Nat.add_assoc]; exact ih.right
  | inside _ ih => exact ih.inside

end Part

theorem exists_part_of_mem_marks {m : Mark} {p : Page} (h : m ∈ p.marks) :
    ∃ k body, Part m body k p := by
  induction p with
  | text s => cases h
  | append a b iha ihb =>
    rcases List.mem_append.mp h with h | h
    · obtain ⟨k, body, hpart⟩ := iha h
      exact ⟨k, body, hpart.left⟩
    · obtain ⟨k, body, hpart⟩ := ihb h
      exact ⟨_, body, hpart.right⟩
  | mark n c ih =>
    rcases List.mem_cons.mp h with rfl | h
    · exact ⟨0, c, .here⟩
    · obtain ⟨k, body, hpart⟩ := ih h
      exact ⟨k, body, hpart.inside⟩
  | ref r => cases r

theorem mem_regions_iff {start : Nat} {p : Page} {r : Region} :
    r ∈ regions start p ↔
      ∃ k body, Part r.mark body k p ∧ r.span = ⟨start + k, start + k + width body⟩ := by
  constructor
  · intro h
    induction p generalizing start with
    | text s => cases h
    | append a b iha ihb =>
      rcases List.mem_append.mp h with h | h
      · obtain ⟨k, body, hpart, hspan⟩ := iha h
        exact ⟨k, body, hpart.left, hspan⟩
      · obtain ⟨k, body, hpart, hspan⟩ := ihb h
        exact ⟨_, body, hpart.right, by rw [hspan, Nat.add_assoc]⟩
    | mark m c ih =>
      rcases List.mem_cons.mp h with rfl | h
      · exact ⟨0, c, .here, rfl⟩
      · obtain ⟨k, body, hpart, hspan⟩ := ih h
        exact ⟨k, body, hpart.inside, hspan⟩
    | ref r => cases r
  · rintro ⟨k, body, hpart, hspan⟩
    obtain ⟨m, span⟩ := r
    subst hspan
    dsimp only at hpart ⊢
    induction hpart generalizing start with
    | here => exact List.mem_cons_self
    | left _ ih => exact List.mem_append_left _ ih
    | right _ ih =>
      apply List.mem_append_right
      rw [← Nat.add_assoc]
      exact ih
    | inside _ ih => exact List.mem_cons_of_mem _ ih

/-- A part of a page that was filled in is what stands under a mark of the document, filled
    in, or a part of one of the pages filled in. -/
theorem Part.marked_or_of_expand {ρ : Type} {f : ρ → Option Page} {d : Doc ρ} {p body : Page}
    {m : Mark} {k : Nat} (hd : d.expand f = some p) (h : Part m body k p) :
    (∃ c, (m, c) ∈ d.marked ∧ c.expand f = some body) ∨
      ∃ r ∈ d.refs, ∃ q j, f r = some q ∧ Part m body j q := by
  induction d generalizing p k with
  | text s =>
    cases hd
    cases h
  | append a b iha ihb =>
    obtain ⟨a', b', ha, hb, rfl⟩ := Doc.expand_append_eq_some.mp hd
    cases h with
    | left h =>
      rcases iha ha h with ⟨c, hc, hbody⟩ | ⟨r, hr, hq⟩
      · exact .inl ⟨c, List.mem_append_left _ hc, hbody⟩
      · exact .inr ⟨r, List.mem_append_left _ hr, hq⟩
    | right h =>
      rcases ihb hb h with ⟨c, hc, hbody⟩ | ⟨r, hr, hq⟩
      · exact .inl ⟨c, List.mem_append_right _ hc, hbody⟩
      · exact .inr ⟨r, List.mem_append_right _ hr, hq⟩
  | mark n c ih =>
    obtain ⟨c', hc, rfl⟩ := Doc.expand_mark_eq_some.mp hd
    cases h with
    | here => exact .inl ⟨c, List.mem_cons_self, hc⟩
    | inside h =>
      exact (ih hc h).imp_left fun ⟨d, hd, hbody⟩ => ⟨d, List.mem_cons_of_mem _ hd, hbody⟩
  | ref r => exact .inr ⟨r, List.mem_singleton_self r, p, k, hd, h⟩

/-- A part of a page that was filled in, under a mark that the document does not
    have, is a part of one of the pages filled in. -/
theorem Part.of_expand {ρ : Type} {f : ρ → Option Page} {d : Doc ρ} {p body : Page} {m : Mark}
    {k : Nat} (hd : d.expand f = some p) (hm : m ∉ d.marks) (h : Part m body k p) :
    ∃ r ∈ d.refs, ∃ q j, f r = some q ∧ Part m body j q := by
  rcases h.marked_or_of_expand hd with ⟨c, hc, -⟩ | hpages
  · exact absurd (Doc.mem_marks_of_marked hc) hm
  · exact hpages

/-- A mark of a page that was filled in is a mark of the document or of one of the
    pages filled in. -/
theorem mem_marks_of_expand {ρ : Type} {f : ρ → Option Page} {d : Doc ρ} {p : Page} {m : Mark}
    (hd : d.expand f = some p) (h : m ∈ p.marks) :
    m ∈ d.marks ∨ ∃ r ∈ d.refs, ∃ q, f r = some q ∧ m ∈ q.marks := by
  by_cases hm : m ∈ d.marks
  · exact .inl hm
  · obtain ⟨k, body, hpart⟩ := exists_part_of_mem_marks h
    obtain ⟨r, hr, q, j, hq, hpart⟩ := hpart.of_expand hd hm
    exact .inr ⟨r, hr, q, hq, hpart.mem_marks⟩

/-- The marks of a document stay when it is filled in. -/
theorem mem_marks_expand {ρ : Type} {f : ρ → Option Page} {d : Doc ρ} {p : Page} {m : Mark}
    (hd : d.expand f = some p) (h : m ∈ d.marks) : m ∈ p.marks := by
  induction d generalizing p with
  | text s => cases h
  | append a b iha ihb =>
    obtain ⟨a', b', ha, hb, rfl⟩ := Doc.expand_append_eq_some.mp hd
    exact List.mem_append.mpr ((List.mem_append.mp h).imp (iha ha) (ihb hb))
  | mark n c ih =>
    obtain ⟨c', hc, rfl⟩ := Doc.expand_mark_eq_some.mp hd
    exact List.mem_cons.mpr ((List.mem_cons.mp h).imp_right (ih hc))
  | ref r => cases h

/-- The marks of a page that is filled in for a reference are marks of the whole page. -/
theorem mem_marks_expand_ref {ρ : Type} {f : ρ → Option Page} {d : Doc ρ} {p q : Page} {r : ρ}
    {m : Mark} (hd : d.expand f = some p) (hr : r ∈ d.refs) (hq : f r = some q)
    (h : m ∈ q.marks) : m ∈ p.marks := by
  induction d generalizing p with
  | text s => cases hr
  | append a b iha ihb =>
    obtain ⟨a', b', ha, hb, rfl⟩ := Doc.expand_append_eq_some.mp hd
    exact List.mem_append.mpr ((List.mem_append.mp hr).imp (iha ha) (ihb hb))
  | mark n c ih =>
    obtain ⟨c', hc, rfl⟩ := Doc.expand_mark_eq_some.mp hd
    exact List.mem_cons_of_mem _ (ih hc hr)
  | ref r' =>
    obtain rfl := List.mem_singleton.mp hr
    obtain rfl := Option.some.inj (hd.symm.trans hq)
    exact h

/-- Two marks that are equally frequent in every page filled in differ in frequency
    by as much as in the document. -/
theorem count_marks_expand {ρ : Type} {f : ρ → Option Page} {d : Doc ρ} {p : Page} {m n : Mark}
    (hf : ∀ r q, f r = some q → q.marks.count m = q.marks.count n) (hd : d.expand f = some p) :
    p.marks.count m + d.marks.count n = p.marks.count n + d.marks.count m := by
  induction d generalizing p with
  | text s =>
    cases hd
    rfl
  | append a b iha ihb =>
    obtain ⟨a', b', ha, hb, rfl⟩ := Doc.expand_append_eq_some.mp hd
    have := iha ha
    have := ihb hb
    simp only [Doc.marks, Doc.marks_append, List.count_append]
    omega
  | mark l c ih =>
    obtain ⟨c', hc, rfl⟩ := Doc.expand_mark_eq_some.mp hd
    have := ih hc
    simp only [Doc.marks_mark, List.count_cons]
    omega
  | ref r =>
    have := hf r p hd
    simpa [Doc.marks] using this

end Page

/-! ## What stands right before a mark -/

namespace Doc

variable {ρ σ : Type} {m : Mark} {lead : String}

/-- Wherever the mark `m` stands in the document, there is text under it and the text `lead`
    right before it. -/
inductive Leads (m : Mark) (lead : String) : Doc ρ → Prop
  | text (s : String) : Leads m lead (.text s)
  | ref (r : ρ) : Leads m lead (.ref r)
  | append {a b : Doc ρ} : Leads m lead a → Leads m lead b → Leads m lead (a ++ b)
  | mark {l : Mark} {body : Doc ρ} : l ≠ m → Leads m lead body → Leads m lead (.mark l body)
  | here (w : String) : Leads m lead (.text lead ++ .mark m (.text w))

theorem leads_of_not_mem {d : Doc ρ} (h : m ∉ d.marks) : d.Leads m lead := by
  induction d with
  | text s => exact .text s
  | append a b iha ihb =>
    have h : m ∉ a.marks ∧ m ∉ b.marks := by simpa [marks] using h
    exact .append (iha h.1) (ihb h.2)
  | mark l body ih =>
    have h : m ≠ l ∧ m ∉ body.marks := by simpa using h
    exact .mark (Ne.symm h.1) (ih h.2)
  | ref r => exact .ref r

theorem Leads.expand {f : ρ → Option (Doc σ)} (hf : ∀ r q, f r = some q → q.Leads m lead)
    {d : Doc ρ} {p : Doc σ} (h : d.Leads m lead) (hp : d.expand f = some p) : p.Leads m lead := by
  induction h generalizing p with
  | text s =>
    cases hp
    exact .text s
  | ref r => exact hf r p hp
  | append _ _ iha ihb =>
    obtain ⟨a', b', ha, hb, rfl⟩ := expand_append_eq_some.mp hp
    exact .append (iha ha) (ihb hb)
  | mark hl _ ih =>
    obtain ⟨body', hbody, rfl⟩ := expand_mark_eq_some.mp hp
    exact .mark hl (ih hbody)
  | here w =>
    cases hp
    exact .here w

/-- The text right before a part under the mark. -/
theorem Leads.render_eq {p body : Page} {k : Nat} (h : p.Leads m lead)
    (hpart : Page.Part m body k p) :
    ∃ before after, p.render = before ++ lead ++ body.render ++ after ∧
      before.utf8ByteSize + lead.utf8ByteSize = k := by
  induction h generalizing k with
  | text s => cases hpart
  | ref r => cases r
  | @append a b _ _ iha ihb =>
    rw [Page.render_append]
    cases hpart with
    | left hpart =>
      obtain ⟨before, after, htext, hk⟩ := iha hpart
      exact ⟨before, after ++ Page.render b, by simp [htext, String.append_assoc], hk⟩
    | right hpart =>
      obtain ⟨before, after, htext, rfl⟩ := ihb hpart
      refine ⟨Page.render a ++ before, after, by simp [htext, String.append_assoc], ?_⟩
      rw [String.utf8ByteSize_append, Page.utf8ByteSize_render, Nat.add_assoc]
  | mark hl _ ih =>
    cases hpart with
    | here => exact absurd rfl hl
    | inside hpart => exact ih hpart
  | here w =>
    cases hpart with
    | left hpart => cases hpart
    | right hpart =>
      cases hpart with
      | here => exact ⟨"", "", by simp [Page.render], by simp [Page.width]⟩
      | inside hpart => cases hpart

end Doc

end TypeStyle
