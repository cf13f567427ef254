-- SUMMARY: Traces: the marks and references of a document in order, without its slots.
import TypeStyle.Proofs.Layout.Part

/-! # Traces

The trace of a document forgets its text and its slots. Documents with the same
trace, filled in from pages with the same traces, are pages with the same trace:
this is what a retyping cannot change. -/

namespace TypeStyle

def Mark.isSlot : Mark → Bool
  | slot _ => true
  | site _ | declarator _ | expr _ | fault _ => false

/-- What gives no value can be left out before values are read off. -/
theorem filterMap_filter_of_none {α β : Type} {p : α → Bool} {f : α → Option β} {l : List α}
    (h : ∀ x ∈ l, p x = false → f x = none) : (l.filter p).filterMap f = l.filterMap f := by
  induction l with
  | nil => rfl
  | cons x l ih =>
    have hrest := ih fun y hy => h y (List.mem_cons_of_mem _ hy)
    cases hp : p x with
    | true => simp [hp, List.filterMap_cons, hrest]
    | false => simp [hp, h x List.mem_cons_self hp, hrest]

namespace Doc

variable {ρ σ : Type}

/-- The marks other than slots, and the references, in order. -/
def trace : Doc ρ → List (Mark ⊕ ρ)
  | text _ => []
  | append left right => left.trace ++ right.trace
  | mark m body => if m.isSlot then body.trace else .inl m :: body.trace
  | ref r => [.inr r]

@[simp] theorem trace_text (s : String) : (text s : Doc ρ).trace = [] := rfl

@[simp] theorem trace_append (a b : Doc ρ) : (a ++ b).trace = a.trace ++ b.trace := rfl

@[simp] theorem trace_mark (m : Mark) (d : Doc ρ) :
    (mark m d).trace = if m.isSlot then d.trace else .inl m :: d.trace := rfl

@[simp] theorem trace_ref (r : ρ) : (ref r).trace = [.inr r] := rfl

/-- The trace after each reference was replaced by a trace. -/
def fillTrace (f : ρ → Option (List (Mark ⊕ σ))) : List (Mark ⊕ ρ) → Option (List (Mark ⊕ σ))
  | [] => some []
  | .inl m :: rest => (fillTrace f rest).map (.inl m :: ·)
  | .inr r :: rest => do return (← f r) ++ (← fillTrace f rest)

theorem fillTrace_append (f : ρ → Option (List (Mark ⊕ σ))) (as bs : List (Mark ⊕ ρ)) :
    fillTrace f (as ++ bs) = (do return (← fillTrace f as) ++ (← fillTrace f bs)) := by
  induction as with
  | nil => cases h : fillTrace f bs <;> simp [fillTrace, h]
  | cons a as ih =>
    cases a with
    | inl m =>
      simp only [List.cons_append, fillTrace, ih]
      cases fillTrace f as <;> cases fillTrace f bs <;> simp
    | inr r =>
      simp only [List.cons_append, fillTrace, ih]
      cases f r <;> cases fillTrace f as <;> cases fillTrace f bs <;> simp

/-- The trace of a document that was filled in depends on traces alone. -/
theorem map_trace_expand (f : ρ → Option (Doc σ)) (d : Doc ρ) :
    (d.expand f).map trace = fillTrace (fun r => (f r).map trace) d.trace := by
  induction d with
  | text s => rfl
  | append a b iha ihb =>
    have happ : (append a b).trace = a.trace ++ b.trace := rfl
    rw [happ, fillTrace_append, ← iha, ← ihb]
    simp only [expand]
    cases a.expand f <;> cases b.expand f <;> simp
  | mark m body ih =>
    simp only [expand, trace_mark]
    cases hm : m.isSlot with
    | true =>
      simp only [if_true, ← ih]
      cases body.expand f <;> simp [hm]
    | false =>
      simp only [Bool.false_eq_true, if_false, fillTrace, ← ih]
      cases body.expand f <;> simp [hm]
  | ref r => cases h : f r <;> simp [expand, fillTrace, h]

theorem filterMap_getLeft?_trace (d : Doc ρ) :
    d.trace.filterMap Sum.getLeft? = d.marks.filter fun m => !m.isSlot := by
  induction d with
  | text s => rfl
  | append a b iha ihb =>
    have happ : (append a b).trace = a.trace ++ b.trace := rfl
    simp [happ, marks, iha, ihb]
  | mark m body ih => cases hm : m.isSlot <;> simp [hm, ih]
  | ref r => rfl

/-- A mark other than a slot is a mark of the document exactly if its trace has it. -/
theorem mem_marks_iff_mem_trace {d : Doc ρ} {m : Mark} (hm : m.isSlot = false) :
    m ∈ d.marks ↔ .inl m ∈ d.trace := by
  have h : m ∈ d.trace.filterMap Sum.getLeft? ↔ m ∈ d.marks := by
    simp [filterMap_getLeft?_trace, hm]
  rw [← h, List.mem_filterMap]
  constructor
  · rintro ⟨x, hx, hleft⟩
    cases x with
    | inl n =>
      cases hleft
      exact hx
    | inr r => cases hleft
  · intro h
    exact ⟨_, h, rfl⟩

end Doc

end TypeStyle
