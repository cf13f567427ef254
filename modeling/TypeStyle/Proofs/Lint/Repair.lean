-- SUMMARY: Runs of a repair: what one step does, and where a repair of everything that was found ends.
import TypeStyle.Proofs.Lint.Judgement

/-! # Repairs

For each site `Linter.outcome?` says what a repair would do to it: nothing, or fix it
under a rule, or fail to. If a fix settles its own site and leaves the outcome of every
other site alone (`Linter.FixesAlone`), then a repair of all that a scan finds ends in a
tree where only the failed fixes are still found. -/

namespace TypeStyle

namespace Linter

variable {l : Linter} {t : SyntaxTree} {s : Site}

def failure? {α : Type} : Except FixError α → Option FixError
  | .ok _ => none
  | .error e => some e

/-- The rule that site `id` breaks, and the error that its fix fails with, if any. -/
def outcome? (l : Linter) (t : SyntaxTree) (id : NodeId) : Option (Rule × Option FixError) :=
  (t.site? id).bind fun s =>
    (l.rule? t s).map fun rule => (rule, failure? (l.resolver.wantedType t s rule))

theorem outcome?_eq_some {id : NodeId} {rule : Rule} {fe : Option FixError}
    (h : l.outcome? t id = some (rule, fe)) :
    ∃ s, t.site? id = some s ∧ s.id = id ∧ l.rule? t s = some rule ∧
      failure? (l.resolver.wantedType t s rule) = fe := by
  obtain ⟨s, hs, hmap⟩ := Option.bind_eq_some_iff.mp h
  obtain ⟨rule', hrule, heq⟩ := Option.map_eq_some_iff.mp hmap
  obtain ⟨rfl, hfe⟩ := Prod.mk.inj heq
  exact ⟨s, hs, Tables.id_of_site? hs, hrule, hfe⟩

theorem outcome?_of_rule? {rule : Rule} (hs : t.site? s.id = some s) (h : l.rule? t s = some rule) :
    l.outcome? t s.id = some (rule, failure? (l.resolver.wantedType t s rule)) := by
  simp [outcome?, hs, h]

theorem outcome?_ne_some {id : NodeId} (hs : t.site? id = none) (o : Rule × Option FixError) :
    l.outcome? t id ≠ some o := by
  simp [outcome?, hs]

/-- A scan without a stop finds exactly the sites that have an outcome. -/
theorem exists_mem_scan_iff (hstop : l.stop = none) (hn : t.Numbered) {id : NodeId} {rule : Rule} :
    (∃ g ∈ l.scan t, g.site = id ∧ g.rule = rule) ↔ ∃ fe, l.outcome? t id = some (rule, fe) := by
  constructor
  · rintro ⟨g, hg, rfl, rfl⟩
    obtain ⟨s, _, hs, hjudge⟩ := exists_site_of_mem_scan hg
    obtain ⟨hrule, hsite, _⟩ := eq_of_judge hjudge
    rw [hsite]
    exact ⟨_, outcome?_of_rule? hs hrule⟩
  · rintro ⟨fe, h⟩
    obtain ⟨s, hs, rfl, hrule, _⟩ := outcome?_eq_some h
    obtain ⟨span, slotSpan, _, _, hjudge⟩ := judge_of_rule? hn hs hrule
    have hfree := (form_of_rule? hrule).1
    rw [scan_of_stop_eq_none hstop]
    exact ⟨_, List.mem_filterMap.mpr ⟨s, hn.mem_sites_of_obstacle? hs hfree, hjudge⟩, rfl, rfl⟩

/-- Nothing stands in the way of the placeholder where a rule asks for it. -/
theorem failure?_wantedType_useImplicit (h : l.rule? t s = some .useImplicit) :
    failure? (l.resolver.wantedType t s .useImplicit) = none := by
  have hform := (form_of_rule? h).2.1
  simp [Resolver.wantedType, hform, failure?]

/-- A fix settles its site and does not change the outcome of any other. -/
def FixesAlone (l : Linter) : Prop :=
  ∀ ⦃t : SyntaxTree⦄ ⦃s : Site⦄ ⦃type : TypeExpr⦄ ⦃r : Retyped⦄ ⦃rule : Rule⦄, t.Numbered →
    t.Retypes s type r → l.rule? t s = some rule → l.resolver.wantedType t s rule = .ok type →
      ∀ id, l.outcome? r.tree id = if id = s.id then none else l.outcome? t id

end Linter

namespace Repair

variable {l : Linter} {R : Repair} {g : Finding}

/-! ## One step -/

/-- What one step of a repair comes to. -/
inductive Step (l : Linter) (R : Repair) (g : Finding) : Repair → Prop where
  | missing (h : R.tree.site? g.site = none) : Step l R g (R.skip g.site .noSite)
  | outdated (h : ∀ fe, l.outcome? R.tree g.site ≠ some (g.rule, fe)) :
      Step l R g (R.skip g.site .outdated)
  | failed {e : FixError} (h : l.outcome? R.tree g.site = some (g.rule, some e)) :
      Step l R g (R.skip g.site (.failed e))
  | applied {s : Site} {type : TypeExpr} {r : Retyped} {fix : Fix} (hsite : s.id = g.site)
      (hrule : l.rule? R.tree s = some g.rule)
      (htype : l.resolver.wantedType R.tree s g.rule = .ok type) (hr : R.tree.Retypes s type r)
      (hfixed : fix.site = g.site) (htree : fix.tree = r.tree) (hnew : fix.new = r.new) :
      Step l R g (R.record fix)

theorem step_spec (hn : R.tree.Numbered) : Step l R g (step l R g) := by
  unfold step
  cases hs : R.tree.site? g.site with
  | none => exact .missing hs
  | some s =>
    have hid := Tables.id_of_site? hs
    have hs' : R.tree.site? s.id = some s := by rwa [hid]
    dsimp only
    cases hrule : l.rule? R.tree s with
    | none =>
      rw [Linter.judge_of_rule?_eq_none hrule]
      apply Step.outdated
      intro fe h
      simp [Linter.outcome?, hs, hrule] at h
    | some rule =>
      obtain ⟨span, slotSpan, _, _, hjudge⟩ := Linter.judge_of_rule? hn hs' hrule
      have houtcome := Linter.outcome?_of_rule? hs' hrule
      rw [hid] at houtcome
      simp only [hjudge]
      split
      · next hne =>
        apply Step.outdated
        intro fe h
        rw [houtcome] at h
        exact hne (Prod.mk.inj (Option.some.inj h)).1
      · next heq =>
        have heq : rule = g.rule := not_not.mp heq
        have hfree := (Linter.form_of_rule? hrule).1
        obtain ⟨hfail, hok⟩ := Resolver.fix_of_wantedType (r := l.resolver)
          (g := ⟨s.id, s.slot.id, span, slotSpan, rule⟩) hs' rfl hfree
        cases htype : l.resolver.wantedType R.tree s rule with
        | error e =>
          rw [hfail e htype]
          apply Step.failed
          rw [houtcome, htype, heq]
          rfl
        | ok type =>
          obtain ⟨fix, r, hfix, hfixed, htree, hnew, hr⟩ := hok type htype
          rw [hfix]
          rw [heq] at hrule htype
          exact .applied hid hrule htype hr (hfixed.trans hid) htree hnew

/-- A fix that has to fail is skipped with its error. -/
theorem step_of_failing (hn : R.tree.Numbered) {e : FixError}
    (h : l.outcome? R.tree g.site = some (g.rule, some e)) :
    step l R g = R.skip g.site (.failed e) := by
  have hstep := step_spec (l := l) (g := g) hn
  generalize step l R g = R' at hstep ⊢
  cases hstep with
  | missing hnone => exact absurd h (Linter.outcome?_ne_some hnone _)
  | outdated hnone => exact absurd h (hnone _)
  | failed h' =>
    rw [h] at h'
    cases h'
    rfl
  | applied hsite hrule htype hr =>
    rw [← hsite, Linter.outcome?_of_rule? hr.site hrule, htype] at h
    cases h

/-! ## Runs -/

/-- How far a repair of `t` has come after the findings `done`. What was fixed has no
    outcome any more, and every other site still has the one it had in `t`. -/
structure Progress (l : Linter) (t : SyntaxTree) (done : List Finding) (R : Repair) : Prop where
  numbered : R.tree.Numbered
  outcome : ∀ id, l.outcome? R.tree id = if id ∈ R.applied then none else l.outcome? t id
  applied : ∀ id ∈ R.applied, ∃ rule, l.outcome? t id = some (rule, none)
  failed : ∀ id e, (id, .failed e) ∈ R.skipped → ∃ rule, l.outcome? t id = some (rule, some e)
  settled : ∀ g ∈ done, (∃ fe, l.outcome? t g.site = some (g.rule, fe)) →
    g.site ∈ R.applied ∨ ∃ e, (g.site, .failed e) ∈ R.skipped

theorem Progress.initial {t : SyntaxTree} (hn : t.Numbered) : Progress l t [] { tree := t } where
  numbered := hn
  outcome _ := by simp
  applied _ h := by cases h
  failed _ _ h := by cases h
  settled _ h := by cases h

namespace Progress

variable {t : SyntaxTree} {done : List Finding}

/-- An outcome that the tree still has is the one it had at first. -/
theorem outcome_of_some (h : Progress l t done R) {id : NodeId} {o : Rule × Option FixError}
    (ho : l.outcome? R.tree id = some o) : id ∉ R.applied ∧ l.outcome? t id = some o := by
  rw [h.outcome] at ho
  split at ho
  · cases ho
  · next hid => exact ⟨hid, ho⟩

theorem skip (h : Progress l t done R) {reason : SkipReason}
    (hfailed : ∀ e, reason = .failed e → l.outcome? R.tree g.site = some (g.rule, some e))
    (hout : ∀ fe, l.outcome? R.tree g.site = some (g.rule, fe) → ∃ e, reason = .failed e) :
    Progress l t (done ++ [g]) (R.skip g.site reason) where
  numbered := h.numbered
  outcome := h.outcome
  applied := h.applied
  failed id e he := by
    rcases List.mem_append.mp he with he | he
    · exact h.failed id e he
    · obtain ⟨rfl, heq⟩ := Prod.mk.inj (List.mem_singleton.mp he)
      exact ⟨g.rule, (h.outcome_of_some (hfailed e heq.symm)).2⟩
  settled g' hg' ho := by
    rcases List.mem_append.mp hg' with hg' | hg'
    · apply (h.settled g' hg' ho).imp_right
      rintro ⟨e, he⟩
      exact ⟨e, List.mem_append_left _ he⟩
    · obtain rfl := List.mem_singleton.mp hg'
      obtain ⟨fe, ho⟩ := ho
      by_cases happlied : g'.site ∈ R.applied
      · exact .inl happlied
      · obtain ⟨e, rfl⟩ := hout fe (by rw [h.outcome, if_neg happlied, ho])
        exact .inr ⟨e, List.mem_append_right _ (List.mem_singleton_self _)⟩

theorem record (h : Progress l t done R) {fix : Fix} (hfixed : fix.site = g.site)
    (hsettled : l.outcome? R.tree g.site = some (g.rule, none)) (hnumbered : fix.tree.Numbered)
    (houtcome : ∀ id, l.outcome? fix.tree id = if id = g.site then none else l.outcome? R.tree id) :
    Progress l t (done ++ [g]) (R.record fix) where
  numbered := hnumbered
  outcome id := by
    rw [Repair.record, houtcome, h.outcome, hfixed]
    simp only [List.mem_append, List.mem_singleton]
    by_cases hid : id = g.site <;> by_cases happlied : id ∈ R.applied <;> simp [hid, happlied]
  applied id hid := by
    rcases List.mem_append.mp hid with hid | hid
    · exact h.applied id hid
    · rw [List.mem_singleton.mp hid, hfixed]
      exact ⟨g.rule, (h.outcome_of_some hsettled).2⟩
  failed := h.failed
  settled g' hg' ho := by
    rcases List.mem_append.mp hg' with hg' | hg'
    · exact (h.settled g' hg' ho).imp_left (List.mem_append_left _)
    · rw [List.mem_singleton.mp hg', ← hfixed]
      exact .inl (List.mem_append_right _ (List.mem_singleton_self _))

theorem step (hl : l.FixesAlone) (h : Progress l t done R) (g : Finding) :
    Progress l t (done ++ [g]) (Repair.step l R g) := by
  have hstep := step_spec (l := l) (g := g) h.numbered
  generalize Repair.step l R g = R' at hstep ⊢
  cases hstep with
  | missing hnone =>
    refine h.skip (fun _ he => ?_) fun fe hfe => absurd hfe (Linter.outcome?_ne_some hnone _)
    cases he
  | outdated hnone =>
    refine h.skip (fun _ he => ?_) fun fe hfe => absurd hfe (hnone fe)
    cases he
  | @failed e he =>
    apply h.skip
    · intro e' heq
      cases heq
      exact he
    · intro _ _
      exact ⟨e, rfl⟩
  | @applied s type r fix hsite hrule htype hr hfixed htree =>
    have houtcome : l.outcome? R.tree g.site = some (g.rule, none) := by
      rw [← hsite, Linter.outcome?_of_rule? hr.site hrule, htype]
      rfl
    have hnumbered : fix.tree.Numbered := by
      rw [htree]
      exact hr.numbered h.numbered
    apply h.record hfixed houtcome hnumbered
    intro id
    rw [htree, hl h.numbered hr hrule htype, hsite]

theorem foldl (hl : l.FixesAlone) (h : Progress l t done R) (gs : List Finding) :
    Progress l t (done ++ gs) (gs.foldl (Repair.step l) R) := by
  induction gs generalizing done R with
  | nil => simpa using h
  | cons g gs ih =>
    rw [List.foldl_cons, List.append_cons]
    exact ih (h.step hl g)

end Progress

end Repair

/-! ## Repairing everything -/

namespace Linter

variable {l : Linter} {t : SyntaxTree}

theorem progress_repair (hl : l.FixesAlone) (hn : t.Numbered) (gs : List Finding) :
    Repair.Progress l t gs (l.repair t gs) :=
  (Repair.Progress.initial hn).foldl hl gs

/-- After a repair of all that a scan finds, a site has an outcome exactly if its fix
    failed, and fails again in the same way. -/
theorem outcome?_repair_scan (hl : l.FixesAlone) (hstop : l.stop = none) (hn : t.Numbered)
    {id : NodeId} {rule : Rule} {fe : Option FixError} :
    l.outcome? (l.repair t (l.scan t)).tree id = some (rule, fe) ↔
      ∃ e, fe = some e ∧ (id, .failed e) ∈ (l.repair t (l.scan t)).skipped ∧
        l.outcome? t id = some (rule, some e) := by
  have hprogress := progress_repair hl hn (l.scan t)
  constructor
  · intro h
    obtain ⟨hnot, ho⟩ := hprogress.outcome_of_some h
    obtain ⟨g, hg, rfl, rfl⟩ := (exists_mem_scan_iff hstop hn).mpr ⟨fe, ho⟩
    rcases hprogress.settled g hg ⟨fe, ho⟩ with happlied | ⟨e, he⟩
    · exact absurd happlied hnot
    · obtain ⟨rule', ho'⟩ := hprogress.failed _ e he
      rw [ho] at ho'
      cases ho'
      exact ⟨e, rfl, he, ho⟩
  · rintro ⟨e, rfl, _, ho⟩
    rw [hprogress.outcome, if_neg, ho]
    intro happlied
    obtain ⟨rule', ho'⟩ := hprogress.applied id happlied
    rw [ho] at ho'
    cases ho'

/-- A repair of findings whose fixes all fail skips each of them. -/
theorem repair_of_failing (hn : t.Numbered) {gs : List Finding}
    (h : ∀ g ∈ gs, ∃ e, l.outcome? t g.site = some (g.rule, some e)) :
    (l.repair t gs).tree = t ∧ (l.repair t gs).applied = [] := by
  have hrun : ∀ R : Repair, R.tree = t → R.applied = [] →
      (gs.foldl (Repair.step l) R).tree = t ∧ (gs.foldl (Repair.step l) R).applied = [] := by
    induction gs with
    | nil => exact fun R htree happlied => ⟨htree, happlied⟩
    | cons g gs ih =>
      intro R htree happlied
      obtain ⟨e, ho⟩ := h g List.mem_cons_self
      have hstep : Repair.step l R g = R.skip g.site (.failed e) :=
        Repair.step_of_failing (by rwa [htree]) (by rwa [htree])
      rw [List.foldl_cons, hstep]
      exact ih (fun g' hg' => h g' (List.mem_cons_of_mem _ hg')) _ htree happlied
  exact hrun { tree := t } rfl rfl

end Linter

end TypeStyle
