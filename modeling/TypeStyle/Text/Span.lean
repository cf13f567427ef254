-- SUMMARY: Half-open ranges of byte offsets.
import TypeStyle.Text.Offset

/-! # Spans

A span is a pair of byte offsets. Nothing forces `start ≤ stop`: a span may come
from outside, so its length is asked for through `Span.length`, which refuses a
span that ends before it starts. -/

namespace TypeStyle

structure Span where
  start : Nat
  stop : Nat
  deriving DecidableEq, Repr, Inhabited

/-- The length of `span` was asked for, and it ends before it starts. -/
structure ReversedSpan where
  span : Span
  deriving DecidableEq, Repr

def ReversedSpan.message (_ : ReversedSpan) : String :=
  "attempt to subtract with overflow"

namespace Span

/-- The span of a node that has no place in the text. -/
def dummy : Span := ⟨0, 0⟩

def length (s : Span) : Except ReversedSpan Nat :=
  if s.start ≤ s.stop then .ok (s.stop - s.start) else .error ⟨s⟩

def isEmpty (s : Span) : Bool := s.start = s.stop

def contains (s : Span) (offset : Nat) : Bool := s.start ≤ offset && offset < s.stop

/-- The outer span starts no later and stops no earlier than the inner one. -/
def containsSpan (outer inner : Span) : Bool :=
  outer.start ≤ inner.start && inner.stop ≤ outer.stop

def text (s : Span) : String := s!"{s.start}..{s.stop}"

/-- Positions compare by their start, then by their end. -/
def before (a b : Span) : Bool :=
  a.start < b.start || (a.start = b.start && a.stop ≤ b.stop)

theorem length_eq_ok_iff {s : Span} {n : Nat} : s.length = .ok n ↔ s.start + n = s.stop := by
  unfold length
  split
  · simp only [Except.ok.injEq]
    omega
  · simp only [reduceCtorEq, false_iff]
    omega

theorem containsSpan_iff {a b : Span} :
    a.containsSpan b = true ↔ a.start ≤ b.start ∧ b.stop ≤ a.stop := by
  simp [containsSpan]

end Span

namespace Text

/-- The text that `span` covers, if both ends are at character boundaries. -/
def slice? (source : String) (span : Span) : Option String :=
  if span.start ≤ span.stop then do
    let (_, rest) ← cut? source.toList span.start
    let (covered, _) ← cut? rest (span.stop - span.start)
    return .ofList covered
  else
    none

theorem slice?_ofList_append (as bs cs : List Char) :
    slice? (.ofList (as ++ bs ++ cs)) ⟨byteLength as, byteLength (as ++ bs)⟩ =
      some (.ofList bs) := by
  have h : cut? (bs ++ cs) (byteLength bs) = some (bs, cs) := cut?_append bs cs
  simp [slice?, cut?_append as (bs ++ cs), h]

end Text

end TypeStyle
