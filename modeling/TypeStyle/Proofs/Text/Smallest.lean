-- SUMMARY: No single edit from one text to another replaces less or inserts less than the edit between them.
import TypeStyle.Proofs.Text.Bytewise

/-! # The smallest edit is smallest

The edit between two texts keeps the longest beginning that they share and, of what is left,
the longest end. Another edit may keep less of the beginning and more of the end. It gains
nothing by that: an end that reaches into the shared beginning of one of the texts holds all
that is left of it, so there is nothing to replace in that text anyway. -/

namespace TypeStyle

open Text

namespace Edit

namespace Split

variable {old new : String} (s : Split old.toList new.toList)

/-- An end of both texts is no longer than the shared one, unless all of one text is kept. -/
theorem byteLength_le_stop_or {cs : List Char} (hold : cs <:+ old.toList) (hnew : cs <:+ new.toList) :
    byteLength cs ≤ byteLength s.stop ∨ byteLength s.removed = 0 ∨ byteLength s.added = 0 := by
  have hrestOld : s.removed ++ s.stop <:+ old.toList := ⟨s.start, s.old_eq.symm⟩
  have hrestNew : s.added ++ s.stop <:+ new.toList := ⟨s.start, s.new_eq.symm⟩
  have hsizeOld := byteLength_append s.removed s.stop
  have hsizeNew := byteLength_append s.added s.stop
  by_cases hroom : byteLength cs ≤
      min (byteLength s.removed) (byteLength s.added) + byteLength s.stop
  · exact .inl (s.byteLength_le_stop hold hnew hroom)
  · -- The end holds the shorter rest, which is then an end of both texts.
    right
    rcases Nat.le_total (byteLength s.removed) (byteLength s.added) with hle | hle
    · have hend : s.removed ++ s.stop <:+ cs :=
        suffix_of_byteLength_le hrestOld hold (by omega)
      have := s.byteLength_le_stop hrestOld (hend.trans hnew) (by omega)
      exact .inl (by omega)
    · have hend : s.added ++ s.stop <:+ cs :=
        suffix_of_byteLength_le hrestNew hnew (by omega)
      have := s.byteLength_le_stop (hend.trans hold) hrestNew (by omega)
      exact .inr (by omega)

/-- Whatever is replaced between a beginning and an end of both texts, it is no less than what
    the split replaces, and neither is what is put in its place. -/
theorem byteLength_le_of_eq {before removed added after : List Char}
    (hold : old.toList = before ++ (removed ++ after))
    (hnew : new.toList = before ++ (added ++ after)) :
    byteLength s.removed ≤ byteLength removed ∧ byteLength s.added ≤ byteLength added := by
  have hsizeOld := congrArg byteLength hold
  have hsizeNew := congrArg byteLength hnew
  simp only [byteLength_append] at hsizeOld hsizeNew
  have hlengthOld := s.byteLength_old
  have hlengthNew := s.byteLength_new
  have hstart : byteLength before ≤ byteLength s.start :=
    s.byteLength_le_start ⟨_, hold.symm⟩ ⟨_, hnew.symm⟩
  have hendOld : after <:+ old.toList := ⟨before ++ removed, by rw [List.append_assoc, hold]⟩
  have hendNew : after <:+ new.toList := ⟨before ++ added, by rw [List.append_assoc, hnew]⟩
  rcases s.byteLength_le_stop_or hendOld hendNew with hstop | hnone | hnone
  · omega
  · omega
  · omega

end Split

/-- The search finds the edit between two texts, and every edit that leads from the one to the
    other replaces at least as many bytes, by at least as many. -/
theorem between_smallest {old new : String} {e : Edit} (hsize : old.utf8ByteSize ≤ maxOffset)
    (h : applyAll old [e] = some new) :
    bytewise? old new = some (between old new) ∧
      ∃ least length, (between old new).span.length = .ok least ∧ e.span.length = .ok length ∧
        least ≤ length ∧ (between old new).text.utf8ByteSize ≤ e.text.utf8ByteSize := by
  obtain ⟨before, removed, after, hold, hbefore, hremoved, hnew⟩ := applyAll_singleton_eq_some.mp h
  obtain ⟨s, hs⟩ := exists_split old new
  obtain ⟨hspan, htext⟩ := s.byteLength_le_of_eq hold hnew.symm
  refine ⟨bytewise?_eq_between hsize, byteLength s.removed, byteLength removed, ?_, ?_, hspan, ?_⟩
  · rw [hs, Span.length_eq_ok_iff]
    rfl
  · rwa [Span.length_eq_ok_iff]
  · rwa [hs, Split.edit, utf8ByteSize_ofList, utf8ByteSize_eq]

/-- From `éaa` to `éa` one letter is deleted. An edit that also replaces the letters before it
    is larger. -/
theorem between_smallest_repeatedLetter :
    let e : Edit := ⟨⟨0, 3⟩, "é"⟩
    applyAll "éaa" [e] = some "éa" ∧ between "éaa" "éa" = ⟨⟨3, 4⟩, ""⟩ ∧
      bytewise? "éaa" "éa" = some ⟨⟨3, 4⟩, ""⟩ ∧
      ∃ least length, Span.length ⟨3, 4⟩ = .ok least ∧ e.span.length = .ok length ∧
        least ≤ length ∧ "".utf8ByteSize ≤ e.text.utf8ByteSize := by
  intro e
  have happly : applyAll "éaa" [e] = some "éa" := applyAll_singleton_eq_some.mpr
    ⟨[], ['é', 'a'], ['a'], by decide, by decide, by decide, by decide⟩
  have hbetween : between "éaa" "éa" = ⟨⟨3, 4⟩, ""⟩ := by rfl
  obtain ⟨hfound, hsmallest⟩ := between_smallest (by decide) happly
  rw [hbetween] at hfound hsmallest
  exact ⟨happly, hbetween, hfound, hsmallest⟩

end Edit

end TypeStyle
