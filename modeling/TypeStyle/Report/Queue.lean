-- SUMMARY: Collecting diagnostics without repeats and handing them out by position.
import TypeStyle.Report.Diagnostic

/-! # The diagnostic queue

A queue takes the first diagnostic of each rule at each site. Flushing it hands
them out by position and starts over. What was taken is kept in order of arrival;
what it was about is kept apart, to tell repeats. -/

namespace TypeStyle

namespace Diagnostic

/-- What is reported: which rule, at which site. A second diagnostic with the same
    subject is a repeat. -/
def subject (d : Diagnostic) : Rule × Span := (d.rule, d.site)

/-- By the position of the site, then by rule. -/
def before (a b : Diagnostic) : Bool :=
  if a.site = b.site then a.rule.rank ≤ b.rule.rank else a.site.before b.site

/-- Whether each diagnostic may stand before the next one. -/
def areInOrder (ds : List Diagnostic) : Bool :=
  (ds.zip ds.tail).all fun (a, b) => a.before b

theorem before_iff {a b : Diagnostic} :
    a.before b = true ↔ a.site.start < b.site.start ∨ a.site.start = b.site.start ∧
      (a.site.stop < b.site.stop ∨ a.site.stop = b.site.stop ∧ a.rule.rank ≤ b.rule.rank) := by
  have hsite : a.site = b.site ↔ a.site.start = b.site.start ∧ a.site.stop = b.site.stop := by
    rw [← Span.mk.injEq]
  unfold before
  split
  · next h =>
    obtain ⟨hstart, hstop⟩ := hsite.mp h
    simp [hstart, hstop]
  · next h =>
    rw [hsite] at h
    simp only [Span.before, Bool.or_eq_true, Bool.and_eq_true, decide_eq_true_eq]
    omega

end Diagnostic

structure Queue where
  pending : List Diagnostic
  /-- The subjects of the pending diagnostics. -/
  seen : List (Rule × Span)
  deriving Repr

namespace Queue

def empty : Queue := ⟨[], []⟩

def accepts (q : Queue) (d : Diagnostic) : Bool :=
  !q.seen.contains d.subject

/-- Adds a diagnostic unless its subject was seen. -/
def add (q : Queue) (d : Diagnostic) : Queue :=
  if q.accepts d then ⟨q.pending ++ [d], d.subject :: q.seen⟩ else q

def addAll (q : Queue) (ds : List Diagnostic) : Queue :=
  ds.foldl add q

def size (q : Queue) : Nat := q.pending.length

/-- The pending diagnostics in order, and the queue without them. They are sorted only
    if they did not come in order. -/
def flush (q : Queue) : List Diagnostic × Queue :=
  let inOrder :=
    if Diagnostic.areInOrder q.pending then q.pending
    else q.pending.mergeSort Diagnostic.before
  (inOrder, empty)

theorem accepts_iff {q : Queue} {d : Diagnostic} : q.accepts d = true ↔ d.subject ∉ q.seen := by
  simp [accepts]

theorem add_of_accepts {q : Queue} {d : Diagnostic} (h : q.accepts d = true) :
    q.add d = ⟨q.pending ++ [d], d.subject :: q.seen⟩ := by
  simp [add, h]

theorem add_of_not_accepts {q : Queue} {d : Diagnostic} (h : q.accepts d = false) :
    q.add d = q := by
  simp [add, h]

end Queue

end TypeStyle
