-- SUMMARY: Text edits: applying a set of them at once, and the smallest edit between two texts.
import TypeStyle.Text.Span

/-! # Edits

An edit replaces the text under a span. A list of edits is applied at once: all
spans speak of the text before any edit, the order of the list matters only for
edits at the same span, and the whole list is refused if two of them overlap or
one of them has no place in the text.

`Edit.between` is the edit from one text to another that leaves their longest
common beginning and, after it, their longest common end alone. -/

namespace TypeStyle

open Text

structure Edit where
  span : Span
  text : String
  deriving DecidableEq, Repr

namespace Edit

/-! ## Applying -/

/-- Applies edits in order to the text that starts at offset `cursor`. -/
def applyFrom (cursor : Nat) (rest : List Char) : List Edit → Option (List Char)
  | [] => some rest
  | e :: es =>
    if e.span.start < cursor ∨ e.span.stop < e.span.start then
      none
    else do
      let (kept, rest) ← cut? rest (e.span.start - cursor)
      let (_, rest) ← cut? rest (e.span.stop - e.span.start)
      let tail ← applyFrom e.span.stop rest es
      return kept ++ e.text.toList ++ tail

/-- Edits by position; edits at the same span keep their order. -/
def sorted (edits : List Edit) : List Edit :=
  edits.mergeSort fun a b => a.span.before b.span

/-- The text after all edits, unless one of them splits a character, lies
    outside the text or overlaps another. -/
def applyAll (source : String) (edits : List Edit) : Option String :=
  (applyFrom 0 source.toList (sorted edits)).map .ofList

/-! ## The smallest edit -/

/-- Splits two texts after their longest common beginning. -/
def splitCommon : List Char → List Char → List Char × List Char × List Char
  | a :: as, b :: bs =>
    if a = b then
      let (common, restA, restB) := splitCommon as bs
      (a :: common, restA, restB)
    else
      ([], a :: as, b :: bs)
  | as, bs => ([], as, bs)

theorem splitCommon_append (as bs : List Char) :
    (splitCommon as bs).1 ++ (splitCommon as bs).2.1 = as ∧
      (splitCommon as bs).1 ++ (splitCommon as bs).2.2 = bs := by
  fun_induction splitCommon as bs with
  | case1 as b bs _ _ _ h ih => simpa [h] using ih
  | case2 => simp
  | case3 => simp

/-- The smallest single replacement that turns `old` into `new`. -/
def between (old new : String) : Edit :=
  let (start, old', new') := splitCommon old.toList new.toList
  let (_, removed, added) := splitCommon old'.reverse new'.reverse
  { span := ⟨byteLength start, byteLength start + byteLength removed⟩
    text := .ofList added.reverse }

end Edit

end TypeStyle
