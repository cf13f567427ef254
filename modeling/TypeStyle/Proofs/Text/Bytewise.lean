-- SUMMARY: The smallest edit found on bytes: no step of the search fails, and it finds the edit between two texts.
import TypeStyle.Proofs.Text.Simultaneous

/-! # The smallest edit on bytes

`Edit.between` compares two texts character by character. `Edit.bytewise?` compares their
bytes: the bytes that two texts share at their beginning or at their end may stop inside a
character, so each of the two numbers is counted down to one at which both texts can be
cut. Every subtraction and every cut of the search is checked, and none of them fails.

Both searches come to the same edit, because the encoding is injective: where both texts
can be cut, equal bytes are equal characters. -/

namespace TypeStyle

namespace Text

/-! ## Bytes -/

/-- The bytes of `cs` in UTF-8. -/
def bytes (cs : List Char) : List UInt8 := cs.flatMap String.utf8EncodeChar

theorem bytes_cons (c : Char) (cs : List Char) :
    bytes (c :: cs) = String.utf8EncodeChar c ++ bytes cs :=
  List.flatMap_cons

@[simp] theorem bytes_append (as bs : List Char) : bytes (as ++ bs) = bytes as ++ bytes bs :=
  List.flatMap_append

@[simp] theorem length_bytes (cs : List Char) : (bytes cs).length = byteLength cs := by
  induction cs with
  | nil => rfl
  | cons c cs ih =>
    rw [bytes_cons, List.length_append, String.length_utf8EncodeChar, ih, byteLength_cons]

/-- Different texts have different bytes. -/
theorem bytes_injective {as bs : List Char} (h : bytes as = bytes bs) : as = bs := by
  have hencode : as.utf8Encode = bs.utf8Encode := congrArg List.toByteArray h
  have htext : String.ofList as = String.ofList bs := by
    rw [← String.toByteArray_inj, String.toByteArray_ofList, String.toByteArray_ofList, hencode]
  rw [← String.toList_ofList (l := as), htext, String.toList_ofList]

/-! ## Shared bytes -/

/-- The number of elements at the beginning that two sequences of bytes share. -/
def commonLength : List UInt8 → List UInt8 → Nat
  | a :: as, b :: bs => if a = b then commonLength as bs + 1 else 0
  | _, _ => 0

/-- A common beginning is counted in full. -/
theorem le_commonLength_append (cs as bs : List UInt8) :
    cs.length ≤ commonLength (cs ++ as) (cs ++ bs) := by
  induction cs with
  | nil => simp
  | cons c cs ih => simpa [commonLength] using ih

/-- What is counted is equal. -/
theorem eq_of_le_commonLength {as bs as' bs' : List UInt8} (hlength : as.length = bs.length)
    (h : as.length ≤ commonLength (as ++ as') (bs ++ bs')) : as = bs := by
  induction as generalizing bs with
  | nil => exact (List.length_eq_zero_iff.mp hlength.symm).symm
  | cons a as ih =>
    cases bs with
    | nil => cases hlength
    | cons b bs =>
      simp only [List.cons_append, commonLength, List.length_cons] at h
      split at h
      · next heq => rw [heq, ih (Nat.succ.inj hlength) (Nat.le_of_succ_le_succ h)]
      · omega

/-- Counting stops where the first sequence was cut off. -/
theorem commonLength_take (as bs : List UInt8) (n : Nat) :
    commonLength (as.take n) bs = min n (commonLength as bs) := by
  induction n generalizing as bs with
  | zero => simp [commonLength]
  | succ n ih =>
    cases as with
    | nil => simp [commonLength]
    | cons a as =>
      cases bs with
      | nil => simp [commonLength]
      | cons b bs =>
        simp only [List.take_succ_cons, commonLength]
        split
        · rw [ih, Nat.succ_min_succ]
        · simp

/-! ## Checked arithmetic -/

/-- The difference of two numbers, unless it is negative. -/
def minus? (a b : Nat) : Option Nat :=
  if b ≤ a then some (a - b) else none

theorem minus?_of_add {a b c : Nat} (h : b + c = a) : minus? a b = some c := by
  have hle : b ≤ a := by omega
  have hsub : a - b = c := by omega
  simp [minus?, hle, hsub]

/-- The greatest number up to `n` that fits, found by counting down. The count fails below
    zero, or where it cannot be told whether a number fits. -/
def backOff? (fits : Nat → Option Bool) : Nat → Option Nat
  | 0 => do if ← fits 0 then return 0 else none
  | n + 1 => do if ← fits (n + 1) then return n + 1 else backOff? fits n

theorem backOff?_eq_some {fits : Nat → Option Bool} {k n : Nat} (hk : k ≤ n)
    (hfits : fits k = some true) (hnot : ∀ j, k < j → j ≤ n → fits j = some false) :
    backOff? fits n = some k := by
  induction n with
  | zero =>
    obtain rfl : k = 0 := Nat.le_zero.mp hk
    simp [backOff?, hfits]
  | succ n ih =>
    by_cases heq : k = n + 1
    · subst heq
      simp [backOff?, hfits]
    · have hlast : fits (n + 1) = some false := hnot (n + 1) (by omega) (Nat.le_refl _)
      have hrest : backOff? fits n = some k := ih (by omega) fun j hj hjn => hnot j hj (by omega)
      simp [backOff?, hlast, hrest]

/-! ## Cuts at shared bytes -/

/-- Two texts cut after as many of their shared bytes have the same beginning. -/
theorem eq_of_cut_start {as bs as' bs' : List Char} (hlength : byteLength as = byteLength bs)
    (h : byteLength as ≤ commonLength (bytes (as ++ as')) (bytes (bs ++ bs'))) : as = bs := by
  apply bytes_injective
  rw [bytes_append, bytes_append, ← length_bytes] at h
  have hlength' : (bytes as).length = (bytes bs).length := by
    rw [length_bytes, length_bytes, hlength]
  exact eq_of_le_commonLength hlength' h

/-- Two texts cut before as many of their shared bytes have the same end. -/
theorem eq_of_cut_stop {as bs as' bs' : List Char} (hlength : byteLength as = byteLength bs)
    (h : byteLength as ≤ commonLength (bytes (as' ++ as)).reverse (bytes (bs' ++ bs)).reverse) :
    as = bs := by
  apply bytes_injective
  apply List.reverse_inj.mp
  rw [bytes_append, bytes_append, List.reverse_append, List.reverse_append, ← length_bytes,
    ← List.length_reverse] at h
  have hlength' : (bytes as).reverse.length = (bytes bs).reverse.length := by
    rw [List.length_reverse, List.length_reverse, length_bytes, length_bytes, hlength]
  exact eq_of_le_commonLength hlength' h

theorem byteLength_reverse (cs : List Char) : byteLength cs.reverse = byteLength cs := by
  induction cs with
  | nil => rfl
  | cons c cs ih => simp [ih, Nat.add_comm]

/-- Of two ends of one text, the one with fewer bytes is an end of the other. -/
theorem suffix_of_byteLength_le {as bs cs : List Char} (ha : as <:+ cs) (hb : bs <:+ cs)
    (h : byteLength as ≤ byteLength bs) : as <:+ bs := by
  rw [← List.reverse_prefix] at ha hb ⊢
  exact prefix_of_byteLength_le ha hb (by rwa [byteLength_reverse, byteLength_reverse])

end Text

open Text

namespace Edit

/-! ## The search on bytes -/

/-- The largest offset that a span keeps. -/
def maxOffset : Nat := 4294967295

/-- An offset as a span keeps it, cut down to the largest one. -/
def offset (n : Nat) : Nat := min n maxOffset

/-- Whether both texts can be cut after `n` bytes. -/
def cutsAfter (old new : String) (n : Nat) : Bool :=
  IsBoundary old.toList n && IsBoundary new.toList n

/-- Whether both texts can be cut before their last `n` bytes, if they are that long. -/
def cutsBefore? (old new : String) (n : Nat) : Option Bool := do
  let atOld ← minus? (bytes old.toList).length n
  let atNew ← minus? (bytes new.toList).length n
  return IsBoundary old.toList atOld && IsBoundary new.toList atNew

theorem cutsBefore?_eq {old new : String} {n atOld atNew : Nat}
    (hold : n + atOld = byteLength old.toList) (hnew : n + atNew = byteLength new.toList) :
    cutsBefore? old new n =
      some (IsBoundary old.toList atOld && IsBoundary new.toList atNew) := by
  simp [cutsBefore?, minus?_of_add hold, minus?_of_add hnew]

/-- The smallest edit, found on bytes, if no step of the search fails. -/
def bytewise? (old new : String) : Option Edit := do
  let a := bytes old.toList
  let b := bytes new.toList
  let start ← backOff? (fun n => some (cutsAfter old new n)) (commonLength a b)
  let room ← minus? (min a.length b.length) start
  let kept ← backOff? (cutsBefore? old new) (commonLength (a.reverse.take room) b.reverse)
  let stop ← minus? a.length kept
  let text ← slice? new ⟨start, ← minus? b.length kept⟩
  return ⟨⟨offset start, offset stop⟩, text⟩

/-! ## The edit between two texts -/

/-- A common beginning of two texts is part of the one that is split off. -/
theorem prefix_splitCommon {cs as bs : List Char} (ha : cs <+: as) (hb : cs <+: bs) :
    cs <+: (splitCommon as bs).1 := by
  induction cs generalizing as bs with
  | nil => exact List.nil_prefix
  | cons c cs ih =>
    obtain ⟨as', rfl⟩ := ha
    obtain ⟨bs', rfl⟩ := hb
    have hrest := ih (List.prefix_append cs as') (List.prefix_append cs bs')
    simpa [splitCommon] using hrest

/-- What two texts share at both ends, and what is left of each in between. The beginning
    is the longest that they share, and the end is the longest that their rests share. -/
structure Split (old new : List Char) where
  start : List Char
  removed : List Char
  added : List Char
  stop : List Char
  old_eq : old = start ++ (removed ++ stop)
  new_eq : new = start ++ (added ++ stop)
  start_longest : ∀ cs, cs <+: old → cs <+: new → cs <+: start
  stop_longest : ∀ cs, cs <:+ removed ++ stop → cs <:+ added ++ stop → cs <:+ stop

/-- The edit that replaces what is in between. -/
def Split.edit {old new : List Char} (s : Split old new) : Edit :=
  ⟨⟨byteLength s.start, byteLength s.start + byteLength s.removed⟩, .ofList s.added⟩

/-- The edit between two texts comes from a split of them. -/
theorem exists_split (old new : String) :
    ∃ s : Split old.toList new.toList, between old new = s.edit := by
  obtain ⟨hold, hnew⟩ := splitCommon_append old.toList new.toList
  have hstart : ∀ cs, cs <+: old.toList → cs <+: new.toList →
      cs <+: (splitCommon old.toList new.toList).1 := fun _ => prefix_splitCommon
  rw [between]
  generalize splitCommon old.toList new.toList = first at hold hnew hstart ⊢
  obtain ⟨start, old', new'⟩ := first
  obtain ⟨hold', hnew'⟩ := splitCommon_append old'.reverse new'.reverse
  have hstop : ∀ cs, cs <+: old'.reverse → cs <+: new'.reverse →
      cs <+: (splitCommon old'.reverse new'.reverse).1 := fun _ => prefix_splitCommon
  dsimp only
  generalize splitCommon old'.reverse new'.reverse = second at hold' hnew' hstop ⊢
  obtain ⟨stop, removed, added⟩ := second
  have hold' : old' = removed.reverse ++ stop.reverse := by
    rw [← List.reverse_append, ← List.reverse_eq_iff, hold']
  have hnew' : new' = added.reverse ++ stop.reverse := by
    rw [← List.reverse_append, ← List.reverse_eq_iff, hnew']
  subst hold' hnew'
  refine ⟨⟨start, removed.reverse, added.reverse, stop.reverse, hold.symm, hnew.symm, hstart, ?_⟩, ?_⟩
  · intro cs hremoved hadded
    rw [← List.reverse_prefix] at hremoved hadded ⊢
    rw [List.reverse_reverse]
    exact hstop cs.reverse hremoved hadded
  · rw [Split.edit, byteLength_reverse]

namespace Split

variable {old new : String} (s : Split old.toList new.toList)

/-- The edit of a split leads from the old text to the new. -/
theorem applyAll_edit : applyAll old [s.edit] = some new := by
  refine applyAll_singleton_eq_some.mpr ⟨s.start, s.removed, s.stop, s.old_eq, rfl, rfl, ?_⟩
  rw [edit, String.toList_ofList]
  exact s.new_eq.symm

theorem byteLength_old : byteLength old.toList =
    byteLength s.start + (byteLength s.removed + byteLength s.stop) :=
  (congrArg byteLength s.old_eq).trans (by simp)

theorem byteLength_new : byteLength new.toList =
    byteLength s.start + (byteLength s.added + byteLength s.stop) :=
  (congrArg byteLength s.new_eq).trans (by simp)

theorem isBoundary_start : IsBoundary old.toList s.edit.span.start :=
  isBoundary_iff.mpr ⟨s.start, s.removed ++ s.stop, s.old_eq, rfl⟩

theorem isBoundary_stop : IsBoundary old.toList s.edit.span.stop :=
  isBoundary_iff.mpr ⟨s.start ++ s.removed, s.stop, by rw [List.append_assoc]; exact s.old_eq,
    by simp [edit]⟩

/-- A beginning of both texts is no longer than the shared one. -/
theorem byteLength_le_start {cs : List Char} (hold : cs <+: old.toList) (hnew : cs <+: new.toList) :
    byteLength cs ≤ byteLength s.start := by
  obtain ⟨rest, hrest⟩ := s.start_longest cs hold hnew
  have hsize := congrArg byteLength hrest
  rw [byteLength_append] at hsize
  omega

/-- An end of both texts that leaves the shared beginning alone is no longer than the shared
    end. -/
theorem byteLength_le_stop {cs : List Char} (hold : cs <:+ old.toList) (hnew : cs <:+ new.toList)
    (hroom : byteLength cs ≤ min (byteLength s.removed) (byteLength s.added) + byteLength s.stop) :
    byteLength cs ≤ byteLength s.stop := by
  have hremoved : cs <:+ s.removed ++ s.stop :=
    suffix_of_byteLength_le hold ⟨s.start, s.old_eq.symm⟩ (by rw [byteLength_append]; omega)
  have hadded : cs <:+ s.added ++ s.stop :=
    suffix_of_byteLength_le hnew ⟨s.start, s.new_eq.symm⟩ (by rw [byteLength_append]; omega)
  obtain ⟨rest, hrest⟩ := s.stop_longest cs hremoved hadded
  have hsize := congrArg byteLength hrest
  rw [byteLength_append] at hsize
  omega

/-- Counting down from the shared bytes at the beginning ends at the shared beginning. -/
theorem backOff?_start :
    backOff? (fun n => some (cutsAfter old new n))
      (commonLength (bytes old.toList) (bytes new.toList)) = some (byteLength s.start) := by
  apply backOff?_eq_some
  · have hcommon := le_commonLength_append (bytes s.start) (bytes (s.removed ++ s.stop))
      (bytes (s.added ++ s.stop))
    rwa [← bytes_append, ← bytes_append, ← s.old_eq, ← s.new_eq, length_bytes] at hcommon
  · have hold := isBoundary_iff.mpr ⟨_, _, s.old_eq, rfl⟩
    have hnew := isBoundary_iff.mpr ⟨_, _, s.new_eq, rfl⟩
    simp [cutsAfter, hold, hnew]
  · intro j hj hle
    refine congrArg some (Bool.eq_false_iff.mpr fun hcuts => ?_)
    simp only [cutsAfter, Bool.and_eq_true, decide_eq_true_eq] at hcuts
    obtain ⟨as, as', hold, rfl⟩ := isBoundary_iff.mp hcuts.1
    obtain ⟨bs, bs', hnew, hlength⟩ := isBoundary_iff.mp hcuts.2
    rw [hold, hnew] at hle
    obtain rfl := eq_of_cut_start hlength.symm hle
    have := s.byteLength_le_start ⟨as', hold.symm⟩ ⟨bs', hnew.symm⟩
    omega

/-- Counting down from the shared bytes at the end of what is left ends at the shared end. -/
theorem backOff?_stop {room : Nat}
    (hroom : room = min (byteLength s.removed) (byteLength s.added) + byteLength s.stop) :
    backOff? (cutsBefore? old new)
      (commonLength ((bytes old.toList).reverse.take room) (bytes new.toList).reverse) =
        some (byteLength s.stop) := by
  have hlengthOld := s.byteLength_old
  have hlengthNew := s.byteLength_new
  rw [commonLength_take]
  apply backOff?_eq_some
  · have hcommon := le_commonLength_append (bytes s.stop).reverse
      (bytes (s.start ++ s.removed)).reverse (bytes (s.start ++ s.added)).reverse
    rw [← List.reverse_append, ← List.reverse_append, ← bytes_append, ← bytes_append,
      List.append_assoc, List.append_assoc, ← s.old_eq, ← s.new_eq, List.length_reverse,
      length_bytes] at hcommon
    omega
  · have hold : IsBoundary old.toList (byteLength s.start + byteLength s.removed) :=
      s.isBoundary_stop
    have hnew : IsBoundary new.toList (byteLength s.start + byteLength s.added) :=
      isBoundary_iff.mpr ⟨s.start ++ s.added, s.stop, by rw [List.append_assoc]; exact s.new_eq,
        by simp⟩
    have hatOld : byteLength s.stop + (byteLength s.start + byteLength s.removed) =
        byteLength old.toList := by omega
    have hatNew : byteLength s.stop + (byteLength s.start + byteLength s.added) =
        byteLength new.toList := by omega
    simp [cutsBefore?_eq hatOld hatNew, hold, hnew]
  · intro j hj hle
    have hatOld : j + (byteLength old.toList - j) = byteLength old.toList := by omega
    have hatNew : j + (byteLength new.toList - j) = byteLength new.toList := by omega
    rw [cutsBefore?_eq hatOld hatNew]
    refine congrArg some (Bool.eq_false_iff.mpr fun hcuts => ?_)
    simp only [Bool.and_eq_true, decide_eq_true_eq] at hcuts
    obtain ⟨as', as, hold, hlength⟩ := isBoundary_iff.mp hcuts.1
    obtain ⟨bs', bs, hnew, hlength'⟩ := isBoundary_iff.mp hcuts.2
    have hsizeOld := congrArg byteLength hold
    have hsizeNew := congrArg byteLength hnew
    rw [byteLength_append] at hsizeOld hsizeNew
    rw [hold, hnew] at hle
    have hshared : byteLength as ≤
        commonLength (bytes (as' ++ as)).reverse (bytes (bs' ++ bs)).reverse := by omega
    obtain rfl := eq_of_cut_stop (by omega) hshared
    have := s.byteLength_le_stop ⟨as', hold.symm⟩ ⟨bs', hnew.symm⟩ (by omega)
    omega

/-- The search finds the edit of the split. -/
theorem bytewise?_eq (h : old.utf8ByteSize ≤ maxOffset) : bytewise? old new = some s.edit := by
  have hlengthOld := s.byteLength_old
  have hlengthNew := s.byteLength_new
  rw [utf8ByteSize_eq] at h
  have hroom : minus? (min (bytes old.toList).length (bytes new.toList).length)
      (byteLength s.start) =
        some (min (byteLength s.removed) (byteLength s.added) + byteLength s.stop) := by
    apply minus?_of_add
    rw [length_bytes, length_bytes]
    omega
  have hstop : minus? (bytes old.toList).length (byteLength s.stop) =
      some (byteLength s.start + byteLength s.removed) := by
    apply minus?_of_add
    rw [length_bytes]
    omega
  have hend : minus? (bytes new.toList).length (byteLength s.stop) =
      some (byteLength (s.start ++ s.added)) := by
    apply minus?_of_add
    rw [length_bytes, byteLength_append]
    omega
  have htext : slice? new ⟨byteLength s.start, byteLength (s.start ++ s.added)⟩ =
      some (.ofList s.added) := by
    rw [← slice?_ofList_append s.start s.added s.stop, List.append_assoc, ← s.new_eq,
      String.ofList_toList]
  have hoffset : ∀ n, n ≤ byteLength old.toList → offset n = n :=
    fun n hn => Nat.min_eq_left (Nat.le_trans hn h)
  simp only [bytewise?, s.backOff?_start, hroom, s.backOff?_stop rfl, hstop, hend, htext,
    Option.bind_eq_bind, Option.bind_some, Option.pure_def, Option.some.injEq]
  rw [edit, hoffset _ (by omega), hoffset _ (by omega)]

end Split

/-- No step of the search on bytes fails, and it finds the edit between the two texts. -/
theorem bytewise?_eq_between {old new : String} (h : old.utf8ByteSize ≤ maxOffset) :
    bytewise? old new = some (between old new) := by
  obtain ⟨s, hs⟩ := exists_split old new
  rw [hs, s.bytewise?_eq h]

theorem applyAll_between (old new : String) : applyAll old [between old new] = some new := by
  obtain ⟨s, hs⟩ := exists_split old new
  rw [hs, s.applyAll_edit]

/-- The edit between two texts replaces a span of the old one. -/
theorem span_between (old new : String) :
    (between old new).span.start ≤ (between old new).span.stop ∧
      IsBoundary old.toList (between old new).span.start ∧
        IsBoundary old.toList (between old new).span.stop := by
  obtain ⟨s, hs⟩ := exists_split old new
  rw [hs]
  exact ⟨Nat.le_add_right _ _, s.isBoundary_start, s.isBoundary_stop⟩

end Edit

end TypeStyle
