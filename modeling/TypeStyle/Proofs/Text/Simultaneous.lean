-- SUMMARY: Edits applied at once come to the same as edits spliced in one after the other, from the last to the first.
import Mathlib.Data.List.Nodup
import TypeStyle.Proofs.Text.Pieces

/-! # Edits at once and one by one

A list of edits is applied in one pass over the text, with a cursor that no edit may start
before. That it never does is a property of every two edits: one of them stops before the other
starts, or where it starts. The pass could as well have spliced in the edits one by one, the
last first, since what stands before an edit is as long as it was. -/

namespace TypeStyle

open Text

/-! ## Spans of a text -/

/-- The span is part of the text, and begins and ends between characters. -/
structure Span.FitsIn (span : Span) (cs : List Char) : Prop where
  ordered : span.start ≤ span.stop
  within : span.stop ≤ byteLength cs
  start_boundary : IsBoundary cs span.start
  stop_boundary : IsBoundary cs span.stop

/-- One of the spans stops before the other starts, or where it starts. -/
def Span.Disjoint (a b : Span) : Prop :=
  a.stop ≤ b.start ∨ b.stop ≤ a.start

/-- Of two beginnings of one text, the one with fewer bytes is a beginning of the other. -/
theorem Text.prefix_of_byteLength_le {as bs cs : List Char} (ha : as <+: cs) (hb : bs <+: cs)
    (h : byteLength as ≤ byteLength bs) : as <+: bs := by
  rcases List.prefix_or_prefix_of_prefix ha hb with hab | ⟨rest, rfl⟩
  · exact hab
  · rw [byteLength_append] at h
    obtain rfl : rest = [] := byteLength_eq_zero (by omega)
    exact ⟨[], by rw [List.append_nil, List.append_nil]⟩

namespace Span

variable {a b span : Span} {cs : List Char}

theorem before_refl (a : Span) : a.before a = true := by
  simp [before]

theorem Disjoint.symm (h : a.Disjoint b) : b.Disjoint a := Or.symm h

/-- A span that fits cuts the text in three. -/
theorem fitsIn_iff : span.FitsIn cs ↔
    ∃ before inside after, cs = before ++ (inside ++ after) ∧
      byteLength before = span.start ∧ span.start + byteLength inside = span.stop := by
  constructor
  · intro h
    obtain ⟨before, rest, hstart, hbefore⟩ := isBoundary_iff.mp h.start_boundary
    obtain ⟨upTo, after, hstop, hupTo⟩ := isBoundary_iff.mp h.stop_boundary
    obtain ⟨inside, rfl⟩ : before <+: upTo :=
      prefix_of_byteLength_le ⟨rest, hstart.symm⟩ ⟨after, hstop.symm⟩
        (by rw [hbefore, hupTo]; exact h.ordered)
    rw [byteLength_append, hbefore] at hupTo
    exact ⟨before, inside, after, by rw [hstop, List.append_assoc], hbefore, hupTo⟩
  · rintro ⟨before, inside, after, rfl, hbefore, hinside⟩
    constructor
    · omega
    · rw [byteLength_append, byteLength_append]
      omega
    · exact isBoundary_iff.mpr ⟨before, inside ++ after, rfl, hbefore⟩
    · refine isBoundary_iff.mpr ⟨before ++ inside, after, by rw [List.append_assoc], ?_⟩
      rw [byteLength_append, hbefore, hinside]

/-- Of two disjoint spans in order, the first stops before the second starts, or where it
    starts. -/
theorem stop_le_start_of_before (hb : b.start ≤ b.stop) (hdisjoint : a.Disjoint b)
    (hbefore : a.before b = true) : a.stop ≤ b.start := by
  simp only [before, Bool.or_eq_true, Bool.and_eq_true, decide_eq_true_eq] at hbefore
  rcases hdisjoint with h | h <;> omega

end Span

namespace Edit

/-! ## Applying edits in order -/

section

variable {cursor : Nat} {before rest result : List Char} {e : Edit} {es : List Edit}

/-- The first edit keeps what stands before its span and replaces what stands under it. -/
theorem applyFrom_cons_eq_some : applyFrom cursor rest (e :: es) = some result ↔
    ∃ kept removed after tail, rest = kept ++ (removed ++ after) ∧
      cursor + byteLength kept = e.span.start ∧
      e.span.start + byteLength removed = e.span.stop ∧
      applyFrom e.span.stop after es = some tail ∧ kept ++ (e.text.toList ++ tail) = result := by
  rw [applyFrom]
  split
  · simp only [reduceCtorEq, false_iff]
    rintro ⟨kept, removed, after, tail, -, hkept, hremoved, -⟩
    omega
  · simp only [Option.bind_eq_bind, Option.bind_eq_some_iff, Option.pure_def, Option.some.injEq,
      Prod.exists, cut?_eq_some_iff, List.append_assoc]
    constructor
    · rintro ⟨kept, _, ⟨rfl, hkept⟩, removed, after, ⟨rfl, hremoved⟩, tail, htail, hresult⟩
      exact ⟨kept, removed, after, tail, rfl, by omega, by omega, htail, hresult⟩
    · rintro ⟨kept, removed, after, tail, rfl, hkept, hremoved, htail, hresult⟩
      exact ⟨kept, removed ++ after, ⟨rfl, by omega⟩, removed, after, ⟨rfl, by omega⟩, tail, htail,
        hresult⟩

/-- A single edit leads to what stands before its span, its text, and what stands after. -/
theorem applyAll_singleton_eq_some {source target : String} : applyAll source [e] = some target ↔
    ∃ before removed after, source.toList = before ++ (removed ++ after) ∧
      byteLength before = e.span.start ∧ e.span.start + byteLength removed = e.span.stop ∧
      before ++ (e.text.toList ++ after) = target.toList := by
  have hsorted : sorted [e] = [e] := List.mergeSort_singleton e
  rw [applyAll, hsorted, Option.map_eq_some_iff]
  constructor
  · rintro ⟨_, happly, rfl⟩
    obtain ⟨before, removed, after, tail, htext, hstart, hstop, htail, rfl⟩ :=
      applyFrom_cons_eq_some.mp happly
    cases htail
    exact ⟨before, removed, after, htext, by omega, hstop, by rw [String.toList_ofList]⟩
  · rintro ⟨before, removed, after, htext, hstart, hstop, htarget⟩
    refine ⟨_, applyFrom_cons_eq_some.mpr
      ⟨before, removed, after, after, htext, by omega, hstop, rfl, htarget⟩, ?_⟩
    rw [String.ofList_toList]

/-- Edits can be applied in their order exactly if each fits into the text, none starts before
    the cursor, and each stops before those that follow it start, or where they start. -/
theorem applyFrom_isSome_iff :
    (applyFrom (byteLength before) rest es).isSome = true ↔
      (∀ e ∈ es, byteLength before ≤ e.span.start ∧ e.span.FitsIn (before ++ rest)) ∧
        es.Pairwise fun a b => a.span.stop ≤ b.span.start := by
  induction es generalizing before rest with
  | nil => simp [applyFrom]
  | cons e es ih =>
    -- What follows the first edit is applied with the cursor behind it.
    have hnext : ∀ {kept removed after : List Char},
        byteLength before + byteLength kept = e.span.start →
        e.span.start + byteLength removed = e.span.stop →
        ((applyFrom e.span.stop after es).isSome = true ↔
          (∀ e' ∈ es, e.span.stop ≤ e'.span.start ∧
            e'.span.FitsIn (before ++ (kept ++ (removed ++ after)))) ∧
            es.Pairwise fun a b => a.span.stop ≤ b.span.start) := by
      intro kept removed after hkept hremoved
      have hcursor : byteLength (before ++ (kept ++ removed)) = e.span.stop := by
        simp only [byteLength_append]
        omega
      have h := @ih (before ++ (kept ++ removed)) after
      simpa only [hcursor, List.append_assoc] using h
    rw [List.pairwise_cons, Option.isSome_iff_exists]
    constructor
    · rintro ⟨result, hresult⟩
      obtain ⟨kept, removed, after, tail, rfl, hkept, hremoved, htail, -⟩ :=
        applyFrom_cons_eq_some.mp hresult
      obtain ⟨hrest, hpairwise⟩ := (hnext hkept hremoved).mp (Option.isSome_of_eq_some htail)
      have hfits : e.span.FitsIn (before ++ (kept ++ (removed ++ after))) := by
        refine Span.fitsIn_iff.mpr ⟨before ++ kept, removed, after, ?_, ?_, hremoved⟩
        · rw [List.append_assoc]
        · rw [byteLength_append, hkept]
      refine ⟨?_, fun e' he' => (hrest e' he').1, hpairwise⟩
      intro e' he'
      rcases List.mem_cons.mp he' with rfl | he'
      · exact ⟨by omega, hfits⟩
      · have := (hrest e' he').1
        exact ⟨by omega, (hrest e' he').2⟩
    · rintro ⟨hfits, hfirst, hpairwise⟩
      obtain ⟨hcursor, hfit⟩ := hfits e List.mem_cons_self
      obtain ⟨upTo, removed, after, htext, hupTo, hremoved⟩ := Span.fitsIn_iff.mp hfit
      obtain ⟨kept, rfl⟩ : before <+: upTo :=
        prefix_of_byteLength_le ⟨rest, rfl⟩ ⟨removed ++ after, htext.symm⟩ (by omega)
      rw [List.append_assoc, List.append_cancel_left_eq] at htext
      subst htext
      rw [byteLength_append] at hupTo
      obtain ⟨tail, htail⟩ := Option.isSome_iff_exists.mp ((hnext hupTo hremoved).mpr
        ⟨fun e' he' => ⟨hfirst e' he', (hfits e' (List.mem_cons_of_mem _ he')).2⟩, hpairwise⟩)
      exact ⟨_, applyFrom_cons_eq_some.mpr
        ⟨kept, removed, after, tail, rfl, hupTo, hremoved, htail, rfl⟩⟩

end

/-! ## Splicing edits in one by one -/

/-- The text with the part under the span of `e` replaced; nothing if it cannot be cut there. -/
def splice? (e : Edit) (cs : List Char) : Option (List Char) := do
  let (before, _) ← cut? cs e.span.start
  let (_, after) ← cut? cs e.span.stop
  return before ++ e.text.toList ++ after

theorem splice?_append {e : Edit} {before removed after : List Char}
    (hstart : byteLength before = e.span.start)
    (hstop : e.span.start + byteLength removed = e.span.stop) :
    e.splice? (before ++ (removed ++ after)) = some (before ++ (e.text.toList ++ after)) := by
  have hcutStart := cut?_append before (removed ++ after)
  have hcutStop := cut?_append (before ++ removed) after
  rw [byteLength_append, hstart, hstop, List.append_assoc] at hcutStop
  rw [hstart] at hcutStart
  simp [splice?, hcutStart, hcutStop]

/-- Edits that can be applied in their order can be spliced in from the last to the first, with
    the same result. -/
theorem foldrM_splice?_of_applyFrom {before rest result : List Char} {es : List Edit}
    (h : applyFrom (byteLength before) rest es = some result) :
    es.foldrM splice? (before ++ rest) = some (before ++ result) := by
  induction es generalizing before rest result with
  | nil =>
    cases h
    rfl
  | cons e es ih =>
    obtain ⟨kept, removed, after, tail, rfl, hkept, hremoved, htail, rfl⟩ :=
      applyFrom_cons_eq_some.mp h
    have hstart : byteLength (before ++ kept) = e.span.start := by
      rw [byteLength_append, hkept]
    have hcursor : byteLength (before ++ kept ++ removed) = e.span.stop := by
      rw [byteLength_append, hstart, hremoved]
    rw [← hcursor] at htail
    have hrest := ih htail
    have hsplice : e.splice? (before ++ kept ++ (removed ++ tail)) =
        some (before ++ kept ++ (e.text.toList ++ tail)) := splice?_append hstart hremoved
    simp only [List.append_assoc] at hrest hsplice
    rw [List.foldrM_cons, hrest]
    exact hsplice

/-! ## The order of the edits -/

/-- `ordered` holds the edits of `es` by position, and those at one span in the order in which
    `es` has them. -/
structure Arranges (ordered es : List Edit) : Prop where
  ascending : ordered.Pairwise fun a b => a.span.before b.span = true
  stable : ∀ span, ordered.filter (fun e => e.span = span) = es.filter (fun e => e.span = span)

theorem arranges_sorted (es : List Edit) : Arranges (sorted es) es := by
  refine ⟨pairwise_sorted es, fun span => ?_⟩
  let here : Edit → Bool := fun e => e.span = span
  have hspan : ∀ e ∈ es.filter here, e.span = span := by
    intro e he
    simpa [here] using (List.mem_filter.mp he).2
  have hpairwise : (es.filter here).Pairwise fun a b => a.span.before b.span = true := by
    refine List.pairwise_of_forall_mem_list fun a ha b hb => ?_
    rw [hspan a ha, hspan b hb]
    exact Span.before_refl span
  have hsublist : (es.filter here).Sublist (sorted es) :=
    List.sublist_mergeSort (fun a b c => Span.before_trans a.span b.span c.span)
      (fun a b => Span.before_total a.span b.span) hpairwise List.filter_sublist
  have hfiltered : (es.filter here).Sublist ((sorted es).filter here) := by
    simpa only [List.filter_filter, Bool.and_self] using hsublist.filter here
  have hlength : (es.filter here).length = ((sorted es).filter here).length :=
    ((List.mergeSort_perm es _).filter here).length_eq.symm
  exact (hfiltered.eq_of_length hlength).symm

theorem mem_iff_of_filter_eq {as bs : List Edit} (e : Edit)
    (h : ∀ span, as.filter (fun e => e.span = span) = bs.filter (fun e => e.span = span)) :
    e ∈ as ↔ e ∈ bs := by
  simpa using congrArg (e ∈ ·) (h e.span)

/-- Edits in order are determined by those at each span. -/
theorem eq_of_filter_eq {as bs : List Edit}
    (ha : as.Pairwise fun a b => a.span.before b.span = true)
    (hb : bs.Pairwise fun a b => a.span.before b.span = true)
    (h : ∀ span, as.filter (fun e => e.span = span) = bs.filter (fun e => e.span = span)) :
    as = bs := by
  induction as generalizing bs with
  | nil =>
    refine (List.eq_nil_iff_forall_not_mem.mpr fun e he => ?_).symm
    exact List.not_mem_nil ((mem_iff_of_filter_eq e h).mpr he)
  | cons a as ih =>
    cases bs with
    | nil => exact absurd ((mem_iff_of_filter_eq a h).mp List.mem_cons_self) List.not_mem_nil
    | cons b bs =>
      obtain ⟨hfirst, has⟩ := List.pairwise_cons.mp ha
      obtain ⟨hfirst', hbs⟩ := List.pairwise_cons.mp hb
      have hab : a.span.before b.span = true := by
        rcases List.mem_cons.mp ((mem_iff_of_filter_eq b h).mpr List.mem_cons_self) with rfl | hmem
        · exact Span.before_refl _
        · exact hfirst b hmem
      have hba : b.span.before a.span = true := by
        rcases List.mem_cons.mp ((mem_iff_of_filter_eq a h).mp List.mem_cons_self) with rfl | hmem
        · exact Span.before_refl _
        · exact hfirst' a hmem
      have hspan : a.span = b.span := Span.before_antisymm hab hba
      have hhead := h a.span
      simp only [List.filter_cons, hspan, decide_true, if_true, List.cons.injEq] at hhead
      obtain ⟨rfl, -⟩ := hhead
      have hrest : ∀ span, as.filter (fun e => e.span = span) = bs.filter (fun e => e.span = span) := by
        intro span
        have := h span
        by_cases heq : a.span = span <;> simpa [List.filter_cons, heq] using this
      rw [ih has hbs hrest]

theorem Arranges.eq_sorted {ordered es : List Edit} (h : Arranges ordered es) :
    ordered = sorted es := by
  have hsorted := arranges_sorted es
  exact eq_of_filter_eq h.ascending hsorted.ascending fun span =>
    (h.stable span).trans (hsorted.stable span).symm

/-! ## Edits at once -/

theorem applyAll_eq_some {source result : String} {es : List Edit} :
    applyAll source es = some result ↔
      applyFrom 0 source.toList (sorted es) = some result.toList := by
  rw [applyAll, Option.map_eq_some_iff]
  constructor
  · rintro ⟨cs, h, rfl⟩
    rwa [String.toList_ofList]
  · intro h
    exact ⟨_, h, String.ofList_toList⟩

theorem applyAll_isSome_iff {source : String} {es : List Edit} :
    (applyAll source es).isSome = true ↔
      (∀ e ∈ es, e.span.FitsIn source.toList) ∧ es.Pairwise fun a b => a.span.Disjoint b.span := by
  have hperm : (sorted es).Perm es := List.mergeSort_perm es _
  have hrun := @applyFrom_isSome_iff [] source.toList (sorted es)
  rw [byteLength_nil, List.nil_append] at hrun
  rw [applyAll, Option.isSome_map, hrun,
    ← hperm.pairwise_iff (R := fun a b => a.span.Disjoint b.span) fun h => h.symm]
  constructor
  · rintro ⟨hfits, hpairwise⟩
    exact ⟨fun e he => (hfits e (hperm.mem_iff.mpr he)).2, hpairwise.imp .inl⟩
  · rintro ⟨hfits, hdisjoint⟩
    refine ⟨fun e he => ⟨Nat.zero_le _, hfits e (hperm.mem_iff.mp he)⟩, ?_⟩
    refine (hdisjoint.and (pairwise_sorted es)).imp_of_mem fun {a b} _ hb hab => ?_
    have hfit := hfits b (hperm.mem_iff.mp hb)
    exact Span.stop_le_start_of_before hfit.ordered hab.1 hab.2

theorem sorted_perm {es es' : List Edit} (hspans : (es.map Edit.span).Nodup)
    (hperm : es'.Perm es) : sorted es' = sorted es := by
  have hsorted : (sorted es).Perm es := List.mergeSort_perm es _
  refine sorted_eq_of_perm (hperm.trans hsorted.symm) (pairwise_sorted es) fun a ha b hb hspan => ?_
  exact List.inj_on_of_nodup_map hspans (hsorted.mem_iff.mp ha) (hsorted.mem_iff.mp hb) hspan

/-- Edits have a result exactly if each fits into the text and every two of them are disjoint.
    There is one way to arrange them by position, with those at one span as the list has them,
    and the result is that of splicing them in one by one, from the last to the first. The order
    of a list with no two edits at one span does not matter. -/
theorem applyAll_at_once (source : String) (es : List Edit) :
    ((applyAll source es).isSome = true ↔
      (∀ e ∈ es, e.span.FitsIn source.toList) ∧ es.Pairwise fun a b => a.span.Disjoint b.span) ∧
    (∃ ordered, Arranges ordered es ∧ (∀ other, Arranges other es → other = ordered) ∧
      ∀ result, applyAll source es = some result →
        ordered.foldrM splice? source.toList = some result.toList) ∧
    ((es.map Edit.span).Nodup → ∀ es', es'.Perm es → applyAll source es' = applyAll source es) := by
  refine ⟨applyAll_isSome_iff, ⟨sorted es, arranges_sorted es, fun _ h => h.eq_sorted, ?_⟩, ?_⟩
  · intro result happly
    have hrun : applyFrom (byteLength []) source.toList (sorted es) = some result.toList :=
      applyAll_eq_some.mp happly
    exact foldrM_splice?_of_applyFrom hrun
  · intro hspans es' hperm
    rw [applyAll, applyAll, sorted_perm hspans hperm]

/-- Two letters, the second of two bytes, are replaced, and behind them two are inserted at the
    same place. The edits touch, and the two insertions keep their order. Those before them may
    come in any. -/
theorem applyAll_at_once_touching :
    let first : Edit := ⟨⟨0, 1⟩, "x"⟩
    let second : Edit := ⟨⟨1, 3⟩, "e"⟩
    let third : Edit := ⟨⟨3, 3⟩, "y"⟩
    let fourth : Edit := ⟨⟨3, 3⟩, "z"⟩
    applyAll "aéb" [third, second, fourth, first] = some "xeyzb" ∧
      Arranges [first, second, third, fourth] [third, second, fourth, first] ∧
      [first, second, third, fourth].foldrM splice? "aéb".toList = some "xeyzb".toList ∧
      (∀ e ∈ [third, second, fourth, first], e.span.FitsIn "aéb".toList) ∧
      applyAll "aéb" [second, first] = applyAll "aéb" [first, second] := by
  intro first second third fourth
  have hsorted : sorted [third, second, fourth, first] = [first, second, third, fourth] := by
    simp [sorted, List.mergeSort, List.MergeSort.Internal.splitInTwo, Span.before, first, second,
      third, fourth]
  have hresult : applyAll "aéb" [third, second, fourth, first] = some "xeyzb" := by
    rw [applyAll_eq_some, hsorted]
    decide
  have harranges := arranges_sorted [third, second, fourth, first]
  rw [hsorted] at harranges
  obtain ⟨happlicable, ⟨ordered, -, hunique, hsplices⟩, -⟩ :=
    applyAll_at_once "aéb" [third, second, fourth, first]
  obtain rfl := hunique _ harranges
  obtain ⟨-, -, horder⟩ := applyAll_at_once "aéb" [first, second]
  refine ⟨hresult, harranges, hsplices _ hresult, ?_, ?_⟩
  · exact (happlicable.mp (Option.isSome_of_eq_some hresult)).1
  · exact horder (by decide) _ (List.Perm.swap first second [])

end Edit

end TypeStyle
