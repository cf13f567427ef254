-- SUMMARY: What a queue answers to any requests in any order: it drops repeats and nothing else.
import TypeStyle.Proofs.Report.Queue

/-! # Requests to a queue

A queue is filled and flushed in any order. What it holds after some requests is determined by
what came in since the last flush (`Holds`): the first diagnostic of each subject. Every answer
follows from that. -/

namespace TypeStyle

namespace Diagnostic

variable {a b d e : Diagnostic} {ds : List Diagnostic}

/-- By the start of the site, then by its end, then by rule; never two with one subject. -/
def Precedes (a b : Diagnostic) : Prop :=
  a.site.start < b.site.start ∨ a.site.start = b.site.start ∧
    (a.site.stop < b.site.stop ∨ a.site.stop = b.site.stop ∧ a.rule.rank < b.rule.rank)

theorem precedes_of_before (h : a.before b = true) (hne : a.subject ≠ b.subject) : a.Precedes b := by
  rcases before_iff.mp h with hstart | ⟨hstart, hstop | ⟨hstop, hrank⟩⟩
  · exact .inl hstart
  · exact .inr ⟨hstart, .inl hstop⟩
  · refine .inr ⟨hstart, .inr ⟨hstop, Nat.lt_of_le_of_ne hrank fun heq => hne ?_⟩⟩
    have hrule : a.rule = b.rule := by
      revert heq
      cases a.rule <;> cases b.rule <;> simp [Rule.rank]
    have hsite : a.site = b.site :=
      (Span.mk.injEq a.site.start a.site.stop b.site.start b.site.stop).mpr ⟨hstart, hstop⟩
    exact Prod.ext hrule hsite

theorem Precedes.asymm (h : a.Precedes b) : ¬ b.Precedes a := by
  unfold Precedes at *
  omega

/-- The first of several diagnostics that has its subject. -/
def IsFirstIn (d : Diagnostic) (ds : List Diagnostic) : Prop :=
  ds.find? (fun e => e.subject = d.subject) = some d

theorem mem_subjects_iff {subject : Rule × Span} :
    subject ∈ ds.map Diagnostic.subject ↔ ∃ d : Diagnostic, d.IsFirstIn ds ∧ d.subject = subject := by
  constructor
  · intro h
    obtain ⟨e, he, rfl⟩ := List.mem_map.mp h
    cases hfind : ds.find? (fun x => x.subject = e.subject) with
    | none => simpa using List.find?_eq_none.mp hfind e he
    | some d =>
      have hsubject : d.subject = e.subject := by simpa using List.find?_some hfind
      exact ⟨d, by rwa [IsFirstIn, hsubject], hsubject⟩
  · rintro ⟨d, hd, rfl⟩
    exact List.mem_map_of_mem (List.mem_of_find?_eq_some hd)

theorem isFirstIn_append_singleton :
    d.IsFirstIn (ds ++ [e]) ↔ d.IsFirstIn ds ∨ d = e ∧ e.subject ∉ ds.map Diagnostic.subject := by
  have hnone : ds.find? (fun x => x.subject = d.subject) = none ↔
      d.subject ∉ ds.map Diagnostic.subject := by
    simp
  unfold IsFirstIn
  rw [List.find?_append, Option.or_eq_some_iff, hnone]
  refine or_congr_right ?_
  constructor
  · rintro ⟨hnew, he⟩
    obtain rfl : e = d := (show _ ∧ e = d by simpa using he).2
    exact ⟨rfl, hnew⟩
  · rintro ⟨rfl, hnew⟩
    exact ⟨hnew, by simp⟩

end Diagnostic

namespace Queue

open Diagnostic

inductive Request where
  | add (d : Diagnostic)
  /-- Adds a diagnostic without asking whether it was taken. -/
  | emit (d : Diagnostic)
  | flush

inductive Answer where
  | taken (accepted : Bool)
  | nothing
  | handedOut (ds : List Diagnostic)

def next (q : Queue) : Request → Queue
  | .add d | .emit d => q.add d
  | .flush => q.flush.2

def answer (q : Queue) : Request → Answer
  | .add d => .taken (q.accepts d)
  | .emit _ => .nothing
  | .flush => .handedOut q.flush.1

/-- The queue after some requests. -/
def after (q : Queue) (requests : List Request) : Queue :=
  requests.foldl next q

/-- The answers to requests that are made one after the other. -/
def answers (q : Queue) : List Request → List Answer
  | [] => []
  | request :: requests => q.answer request :: (q.next request).answers requests

/-- What has come in since the last flush if it was `ds` before the request. -/
def Request.cameIn (ds : List Diagnostic) : Request → List Diagnostic
  | .add d | .emit d => ds ++ [d]
  | .flush => []

/-- What has come in since the last flush, repeats included. -/
def cameIn (past : List Request) : List Diagnostic :=
  past.foldl Request.cameIn []

/-! ## What a queue holds -/

/-- Of the diagnostics `ds` that came in, the first of each subject are pending. -/
structure Holds (q : Queue) (ds : List Diagnostic) : Prop where
  inStep : q.InStep
  nodup : (q.pending.map Diagnostic.subject).Nodup
  mem_pending_iff : ∀ d, d ∈ q.pending ↔ d.IsFirstIn ds

namespace Holds

variable {q : Queue} {ds : List Diagnostic}

theorem empty : Queue.empty.Holds [] where
  inStep := inStep_empty
  nodup := .nil
  mem_pending_iff d := by simp [Queue.empty, IsFirstIn]

theorem accepts_iff (h : q.Holds ds) {d : Diagnostic} :
    q.accepts d = true ↔ d.subject ∉ ds.map Diagnostic.subject := by
  have hsubjects : d.subject ∈ q.pending.map Diagnostic.subject ↔
      d.subject ∈ ds.map Diagnostic.subject :=
    calc
      _ ↔ ∃ e ∈ q.pending, e.subject = d.subject := List.mem_map
      _ ↔ ∃ e : Diagnostic, e.IsFirstIn ds ∧ e.subject = d.subject := by
        simp only [h.mem_pending_iff]
      _ ↔ _ := mem_subjects_iff.symm
  rw [h.inStep.accepts_iff, hsubjects]

theorem add (h : q.Holds ds) (d : Diagnostic) : (q.add d).Holds (ds ++ [d]) := by
  refine ⟨h.inStep.add d, ?_, fun x => ?_⟩
  · cases haccepts : q.accepts d with
    | true =>
      have hnew := h.inStep.accepts_iff.mp haccepts
      rw [add_of_accepts haccepts, List.map_append, List.nodup_append]
      refine ⟨h.nodup, by simp, fun subject hsubject other hother heq => hnew ?_⟩
      rw [← List.mem_singleton.mp hother, ← heq]
      exact hsubject
    | false =>
      rw [add_of_not_accepts haccepts]
      exact h.nodup
  · rw [isFirstIn_append_singleton, ← h.mem_pending_iff, ← h.accepts_iff]
    cases haccepts : q.accepts d with
    | true => simp [add_of_accepts haccepts]
    | false => simp [add_of_not_accepts haccepts]

theorem next (h : q.Holds ds) (request : Request) : (q.next request).Holds (request.cameIn ds) := by
  cases request with
  | add d | emit d => exact h.add d
  | flush =>
    rw [Queue.next, q.flush_spec.2.2]
    exact .empty

theorem foldl (h : q.Holds ds) (requests : List Request) :
    (q.after requests).Holds (requests.foldl Request.cameIn ds) := by
  induction requests generalizing q ds with
  | nil => exact h
  | cons request requests ih => exact ih (h.next request)

theorem flush (h : q.Holds ds) :
    q.flush.1.Pairwise Precedes ∧ ∀ d, d ∈ q.flush.1 ↔ d.IsFirstIn ds := by
  obtain ⟨hperm, hordered, -⟩ := q.flush_spec
  have hnodup : q.flush.1.Pairwise fun a b => a.subject ≠ b.subject :=
    List.pairwise_map.mp ((hperm.map Diagnostic.subject).nodup_iff.mpr h.nodup)
  refine ⟨(hordered.and hnodup).imp fun hab => precedes_of_before hab.1 hab.2, fun d => ?_⟩
  rw [hperm.mem_iff, h.mem_pending_iff]

/-- Two queues that hold the same first diagnostics hand out the same list. -/
theorem flush_eq {q' : Queue} {ds' : List Diagnostic} (h : q.Holds ds) (h' : q'.Holds ds')
    (hfirsts : ∀ d : Diagnostic, d.IsFirstIn ds' ↔ d.IsFirstIn ds) : q'.flush.1 = q.flush.1 := by
  obtain ⟨hordered, hmem⟩ := h.flush
  obtain ⟨hordered', hmem'⟩ := h'.flush
  have hnodup : ∀ {out : List Diagnostic}, out.Pairwise Precedes → out.Nodup :=
    fun hout => hout.imp fun {a b} hab heq => (heq ▸ hab).asymm (heq ▸ hab)
  have hperm : q'.flush.1.Perm q.flush.1 :=
    (List.perm_ext_iff_of_nodup (hnodup hordered') (hnodup hordered)).mpr fun d => by
      rw [hmem, hmem', hfirsts]
  exact List.Perm.eq_of_pairwise (fun a b _ _ hab hba => absurd hba hab.asymm) hordered' hordered
    hperm

end Holds

theorem holds_after (past : List Request) : (empty.after past).Holds (cameIn past) :=
  Holds.empty.foldl past

/-! ## Answers -/

theorem getElem?_answers (q : Queue) (past future : List Request) (request : Request) :
    (q.answers (past ++ request :: future))[past.length]? = some ((q.after past).answer request) := by
  induction past generalizing q with
  | nil => rfl
  | cons r past ih => exact ih (q.next r)

/-- Whatever a queue was asked before: it takes a diagnostic exactly if none with its subject
    came in since the last flush. A flush hands out the first of each subject, in strictly
    increasing order, and leaves the queue as it was at the beginning. So what is handed out
    depends on the order in which diagnostics came in only through which of several repeats
    came first. -/
theorem answers_spec (past future : List Request) :
    (∀ d, (empty.answers (past ++ .add d :: future))[past.length]? =
      some (.taken (decide (d.subject ∉ (cameIn past).map Diagnostic.subject)))) ∧
    (∃ ds, (empty.answers (past ++ .flush :: future))[past.length]? = some (.handedOut ds) ∧
      ds.Pairwise Precedes ∧ ∀ d, d ∈ ds ↔ d.IsFirstIn (cameIn past)) ∧
    empty.after (past ++ [.flush]) = empty ∧
    ∀ past', (∀ d : Diagnostic, d.IsFirstIn (cameIn past') ↔ d.IsFirstIn (cameIn past)) →
      (empty.after past').answer .flush = (empty.after past).answer .flush := by
  have h := holds_after past
  refine ⟨fun d => ?_, ⟨(empty.after past).flush.1, ?_, h.flush⟩, ?_, fun past' hfirsts => ?_⟩
  · rw [getElem?_answers, answer, Bool.eq_iff_iff.mpr (h.accepts_iff.trans decide_eq_true_iff.symm)]
  · rw [getElem?_answers, answer]
  · rw [after, List.foldl_append]
    exact (empty.after past).flush_spec.2.2
  · rw [answer, answer, h.flush_eq (holds_after past') hfirsts]

/-- Two diagnostics come in out of order, and then a louder repeat of the second, which is not
    taken. What is handed out is as if the two had come in order. -/
theorem answers_spec_repeat :
    let at10 : Diagnostic :=
      { rule := .useImplicit, severity := .note, site := ⟨10, 16⟩, slot := ⟨10, 13⟩ }
    let at40 : Diagnostic :=
      { rule := .useExplicit, severity := .warning, site := ⟨40, 43⟩, slot := ⟨40, 43⟩ }
    let louder : Diagnostic := { at10 with severity := .error }
    (empty.answers [.emit at40, .add at10, .add louder])[2]? = some (.taken false) ∧
      (empty.after [.emit at40, .add at10, .add louder]).answer .flush =
        .handedOut [at10, at40] := by
  intro at10 at40 louder
  obtain ⟨hadd, -, -, -⟩ := answers_spec [.emit at40, .add at10] []
  obtain ⟨-, -, -, horder⟩ := answers_spec [.emit at10, .emit at40] []
  refine ⟨hadd louder, ?_⟩
  rw [horder [.emit at40, .add at10, .add louder]]
  · rfl
  · intro d
    have hlouder : louder.subject = at10.subject := rfl
    have hne : at10.subject ≠ at40.subject := by decide
    by_cases h10 : at10.subject = d.subject <;> by_cases h40 : at40.subject = d.subject <;>
      simp_all [IsFirstIn, cameIn, Request.cameIn]

end Queue

end TypeStyle
