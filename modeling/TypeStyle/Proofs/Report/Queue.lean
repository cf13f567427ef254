-- SUMMARY: A queue takes all diagnostics that come in order and without repeats, and hands out what it took in order.
import TypeStyle.Report.Queue

/-! # Queues of diagnostics in order

The subjects that a queue has seen are those of its pending diagnostics. Flushing hands the
pending diagnostics out in order, whether they have to be sorted or not. Diagnostics at sites
that begin one after the other do not repeat each other: a queue takes them all and has nothing
to sort. -/

namespace TypeStyle

namespace Diagnostic

variable {a b c : Diagnostic} {ds : List Diagnostic}

theorem before_trans (hab : a.before b = true) (hbc : b.before c = true) : a.before c = true := by
  rw [before_iff] at *
  omega

theorem before_total (a b : Diagnostic) : (a.before b || b.before a) = true := by
  rw [Bool.or_eq_true, before_iff, before_iff]
  omega

/-- To look at neighbours is enough. -/
theorem areInOrder_iff : areInOrder ds = true ↔ ds.Pairwise fun a b => a.before b = true := by
  induction ds with
  | nil => simp [areInOrder]
  | cons d ds ih =>
    cases ds with
    | nil => simp [areInOrder]
    | cons e ds =>
      have hcons : areInOrder (d :: e :: ds) = (d.before e && areInOrder (e :: ds)) := rfl
      rw [hcons, Bool.and_eq_true, ih, List.pairwise_cons (a := d)]
      constructor
      · rintro ⟨hde, hpairwise⟩
        refine ⟨fun x hx => ?_, hpairwise⟩
        rcases List.mem_cons.mp hx with rfl | hx
        · exact hde
        · exact before_trans hde ((List.pairwise_cons.mp hpairwise).1 x hx)
      · rintro ⟨hd, hpairwise⟩
        exact ⟨hd e List.mem_cons_self, hpairwise⟩

theorem subject_ne_of_start_lt (h : a.site.start < b.site.start) : a.subject ≠ b.subject := by
  intro heq
  rw [(Prod.mk.inj heq).2] at h
  exact Nat.lt_irrefl _ h

theorem before_of_start_lt (h : a.site.start < b.site.start) : a.before b = true :=
  before_iff.mpr (.inl h)

end Diagnostic

namespace Queue

variable {q : Queue} {d : Diagnostic} {ds : List Diagnostic}

/-- What is handed out is what was pending, in order. -/
theorem flush_spec (q : Queue) :
    q.flush.1.Perm q.pending ∧ (q.flush.1.Pairwise fun a b => a.before b = true) ∧
      q.flush.2 = empty := by
  unfold flush
  split
  · next h => exact ⟨.refl _, Diagnostic.areInOrder_iff.mp h, rfl⟩
  · refine ⟨List.mergeSort_perm _ _, List.pairwise_mergeSort (fun _ _ _ => ?_) ?_ _, rfl⟩
    · exact Diagnostic.before_trans
    · exact Diagnostic.before_total

/-- The queue has seen the subjects of its pending diagnostics, and no others. -/
def InStep (q : Queue) : Prop := ∀ subject, subject ∈ q.seen ↔ subject ∈ q.pending.map Diagnostic.subject

theorem inStep_empty : empty.InStep := fun _ => Iff.rfl

theorem InStep.add (h : q.InStep) (d : Diagnostic) : (q.add d).InStep := by
  cases haccepts : q.accepts d with
  | true =>
    intro subject
    rw [add_of_accepts haccepts]
    simp only [List.mem_cons, List.map_append, List.mem_append, List.map_cons, List.map_nil,
      List.not_mem_nil, or_false, h subject]
    exact or_comm
  | false => rwa [add_of_not_accepts haccepts]

theorem InStep.accepts_iff (h : q.InStep) :
    q.accepts d = true ↔ d.subject ∉ q.pending.map Diagnostic.subject := by
  rw [Queue.accepts_iff, h]

/-- Diagnostics that repeat neither each other nor a pending one are all taken. -/
theorem InStep.pending_addAll (h : q.InStep)
    (hnodup : ((q.pending ++ ds).map Diagnostic.subject).Nodup) :
    (q.addAll ds).pending = q.pending ++ ds ∧ (q.addAll ds).InStep := by
  induction ds generalizing q with
  | nil => exact ⟨(List.append_nil _).symm, h⟩
  | cons d ds ih =>
    have hcons : q.pending ++ d :: ds = q.pending ++ [d] ++ ds := by simp
    have hnew : d.subject ∉ q.pending.map Diagnostic.subject := by
      rw [List.map_append, List.nodup_append] at hnodup
      exact fun hmem => hnodup.2.2 _ hmem _ List.mem_cons_self rfl
    have hpending : (q.add d).pending = q.pending ++ [d] := by
      rw [add_of_accepts (h.accepts_iff.mpr hnew)]
    rw [hcons, ← hpending] at hnodup ⊢
    exact ih (h.add d) hnodup

/-- Each of the diagnostics is at a site that begins after the sites of those before it. -/
def Ascending (ds : List Diagnostic) : Prop :=
  ds.Pairwise fun a b => a.site.start < b.site.start

namespace Ascending

theorem nodup (h : Ascending ds) : (ds.map Diagnostic.subject).Nodup :=
  List.pairwise_map.mpr (h.imp Diagnostic.subject_ne_of_start_lt)

theorem pending_addAll (h : Ascending ds) : (empty.addAll ds).pending = ds :=
  (inStep_empty.pending_addAll h.nodup).1

/-- None is dropped as a repeat. -/
theorem accepts {before after : List Diagnostic} (h : Ascending (before ++ d :: after)) :
    (empty.addAll before).accepts d = true := by
  obtain ⟨hbefore, -, hlt⟩ := List.pairwise_append.mp h
  obtain ⟨hpending, hinStep⟩ := inStep_empty.pending_addAll (nodup hbefore)
  rw [hinStep.accepts_iff, hpending]
  intro hmem
  obtain ⟨p, hp, hsubject⟩ := List.mem_map.mp hmem
  exact Diagnostic.subject_ne_of_start_lt (hlt p hp d List.mem_cons_self) hsubject

theorem flush_addAll (h : Ascending ds) : (empty.addAll ds).flush = (ds, empty) := by
  have hsorted : Diagnostic.areInOrder ds = true :=
    Diagnostic.areInOrder_iff.mpr (h.imp Diagnostic.before_of_start_lt)
  rw [flush, h.pending_addAll, hsorted]
  rfl

end Ascending

end Queue

end TypeStyle
