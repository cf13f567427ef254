-- SUMMARY: A repair turn by turn: every finding is applied or skipped, and the applied ones alone come to the same.
import Mathlib.Data.List.Chain
import TypeStyle.Proofs.Lint.Judgement
import TypeStyle.Proofs.Tree.Run
import TypeStyle.Types.Facts

/-! # Turns

A repair gives every finding its turn, on the tree that the turns before have left. Nothing is
assumed of the resolver but that it spells types in the usual way: its answers may change with
the tree, so a site that was fixed can be found again, but only in its other form. -/

namespace TypeStyle

/-- What became of a finding, and the tree it was tried on. -/
structure Turn where
  tree : SyntaxTree
  finding : Finding
  result : Except SkipReason Fix

namespace Turn

def isApplied (u : Turn) : Bool := u.result.isOk

/-- The tree that the next turn is on. -/
def after (u : Turn) : SyntaxTree :=
  match u.result with
  | .ok fix => fix.tree
  | .error _ => u.tree

/-- The record of a finding that was not applied. -/
def skipped? (u : Turn) : Option (NodeId × SkipReason) :=
  match u.result with
  | .ok _ => none
  | .error reason => some (u.finding.site, reason)

end Turn

namespace Linter

/-- Tries to apply a finding, as it is judged now. -/
def attempt (l : Linter) (t : SyntaxTree) (g : Finding) : Except SkipReason Fix :=
  match t.site? g.site with
  | none => .error .noSite
  | some s =>
    match (l.judge t s).filter fun current => current.rule = g.rule with
    | none => .error .outdated
    | some current => (l.resolver.fix t current).mapError .failed

/-- The turns of a repair. -/
def turns (l : Linter) (t : SyntaxTree) : List Finding → List Turn
  | [] => []
  | g :: gs =>
    let turn : Turn := ⟨t, g, l.attempt t g⟩
    turn :: l.turns turn.after gs

/-- The findings that a repair applies. -/
def appliedOf (l : Linter) (t : SyntaxTree) (gs : List Finding) : List Finding :=
  ((l.turns t gs).filter Turn.isApplied).map Turn.finding

variable {l : Linter} {t : SyntaxTree} {g : Finding} {gs : List Finding}

/-! ## One turn -/

/-- A finding that is applied is fixed at its site under its rule. -/
theorem eq_of_attempt {fix : Fix} (h : l.attempt t g = .ok fix) :
    ∃ s type r, s.id = g.site ∧ l.rule? t s = some g.rule ∧
      l.resolver.wantedType t s g.rule = .ok type ∧ t.Retypes s type r ∧
      fix.site = g.site ∧ fix.tree = r.tree ∧ fix.new = r.new := by
  unfold attempt at h
  cases hs : t.site? g.site with
  | none => simp [hs] at h
  | some s =>
    simp only [hs] at h
    cases hcurrent : (l.judge t s).filter fun current => current.rule = g.rule with
    | none => simp [hcurrent] at h
    | some current =>
      simp only [hcurrent] at h
      obtain ⟨hjudge, hsame⟩ := Option.filter_eq_some_iff.mp hcurrent
      have hsame : current.rule = g.rule := of_decide_eq_true hsame
      obtain ⟨hrule, hsite, -⟩ := eq_of_judge hjudge
      have hid := Tables.id_of_site? hs
      cases hfix : l.resolver.fix t current with
      | error e =>
        rw [hfix] at h
        cases h
      | ok fix' =>
        rw [hfix] at h
        cases h
        obtain ⟨s', type, r, hs', _, htype, hr, rfl⟩ := Resolver.eq_of_fix hfix
        rw [hsite, hid, hs] at hs'
        obtain rfl := Option.some.inj hs'
        rw [hsame] at hrule htype
        exact ⟨s, type, r, hid, hrule, htype, hr, hid, rfl, rfl⟩

theorem turns_of_ok {fix : Fix} (h : l.attempt t g = .ok fix) :
    l.turns t (g :: gs) = ⟨t, g, .ok fix⟩ :: l.turns fix.tree gs := by
  rw [turns, h]
  rfl

theorem turns_of_error {reason : SkipReason} (h : l.attempt t g = .error reason) :
    l.turns t (g :: gs) = ⟨t, g, .error reason⟩ :: l.turns t gs := by
  rw [turns, h]
  rfl

theorem appliedOf_of_ok {fix : Fix} (h : l.attempt t g = .ok fix) :
    l.appliedOf t (g :: gs) = g :: l.appliedOf fix.tree gs := by
  rw [appliedOf, turns_of_ok h]
  rfl

theorem appliedOf_of_error {reason : SkipReason} (h : l.attempt t g = .error reason) :
    l.appliedOf t (g :: gs) = l.appliedOf t gs := by
  rw [appliedOf, turns_of_error h]
  rfl

end Linter

namespace Repair

variable {l : Linter} {R : Repair} {g : Finding} {gs : List Finding}

theorem step_eq (l : Linter) (R : Repair) (g : Finding) :
    step l R g = match l.attempt R.tree g with
      | .ok fix => R.record fix
      | .error reason => R.skip g.site reason := by
  unfold step Linter.attempt
  cases R.tree.site? g.site with
  | none => rfl
  | some s =>
    dsimp only
    cases l.judge R.tree s with
    | none => rfl
    | some current =>
      by_cases hsame : current.rule = g.rule
      · simp only [Option.filter_some, hsame, decide_true, if_true, ne_eq, not_true, if_false]
        cases l.resolver.fix R.tree current <;> rfl
      · simp [Option.filter_some, hsame]

theorem step_of_ok {fix : Fix} (h : l.attempt R.tree g = .ok fix) : step l R g = R.record fix := by
  rw [step_eq, h]

theorem step_of_error {reason : SkipReason} (h : l.attempt R.tree g = .error reason) :
    step l R g = R.skip g.site reason := by
  rw [step_eq, h]

/-! ## Runs -/

theorem applied_foldl (gs : List Finding) (R : Repair) :
    (gs.foldl (step l) R).applied = R.applied ++ (l.appliedOf R.tree gs).map Finding.site := by
  induction gs generalizing R with
  | nil => simp [Linter.appliedOf, Linter.turns]
  | cons g gs ih =>
    rw [List.foldl_cons]
    cases hresult : l.attempt R.tree g with
    | ok fix =>
      obtain ⟨_, _, _, _, _, _, _, hsite, _⟩ := Linter.eq_of_attempt hresult
      rw [step_of_ok hresult, ih, Linter.appliedOf_of_ok hresult]
      simp [record, hsite]
    | error reason =>
      rw [step_of_error hresult, ih, Linter.appliedOf_of_error hresult]
      rfl

theorem skipped_foldl (gs : List Finding) (R : Repair) :
    (gs.foldl (step l) R).skipped =
      R.skipped ++ (l.turns R.tree gs).filterMap Turn.skipped? := by
  induction gs generalizing R with
  | nil => simp [Linter.turns]
  | cons g gs ih =>
    rw [List.foldl_cons]
    cases hresult : l.attempt R.tree g with
    | ok fix =>
      rw [step_of_ok hresult, ih, Linter.turns_of_ok hresult]
      rfl
    | error reason =>
      rw [step_of_error hresult, ih, Linter.turns_of_error hresult]
      simp [skip, Turn.skipped?]

/-- Without the findings that it skips a repair goes the same way. -/
theorem foldl_appliedOf (gs : List Finding) {R R' : Repair} (htree : R'.tree = R.tree)
    (happlied : R'.applied = R.applied) (himports : R'.imports = R.imports) :
    (l.appliedOf R.tree gs).foldl (step l) R' =
      { gs.foldl (step l) R with skipped := R'.skipped } := by
  induction gs generalizing R R' with
  | nil =>
    obtain ⟨tree, applied, skipped, imports⟩ := R'
    obtain rfl : tree = R.tree := htree
    obtain rfl : applied = R.applied := happlied
    obtain rfl : imports = R.imports := himports
    rfl
  | cons g gs ih =>
    cases hresult : l.attempt R.tree g with
    | ok fix =>
      have hresult' : l.attempt R'.tree g = .ok fix := by rw [htree, hresult]
      rw [Linter.appliedOf_of_ok hresult, List.foldl_cons, List.foldl_cons, step_of_ok hresult,
        step_of_ok hresult']
      refine ih (R := R.record fix) rfl ?_ ?_
      · simp [record, happlied]
      · simp [record, himports]
    | error reason =>
      rw [Linter.appliedOf_of_error hresult, List.foldl_cons, step_of_error hresult]
      exact ih (R := R.skip g.site reason) htree happlied himports

/-- A site at which nothing is applied stays as it was. -/
theorem site?_foldl {id : NodeId} (gs : List Finding) {R : Repair}
    (h : id ∉ (l.appliedOf R.tree gs).map Finding.site) :
    (gs.foldl (step l) R).tree.site? id = R.tree.site? id := by
  induction gs generalizing R with
  | nil => rfl
  | cons g gs ih =>
    rw [List.foldl_cons]
    cases hresult : l.attempt R.tree g with
    | ok fix =>
      obtain ⟨s, _, r, hid, _, _, hr, _, htree, _⟩ := Linter.eq_of_attempt hresult
      rw [Linter.appliedOf_of_ok hresult, List.map_cons, List.mem_cons, not_or] at h
      rw [step_of_ok hresult, ih (R := R.record fix) h.2]
      change fix.tree.site? id = _
      rw [htree, hr.site?_of_ne (hid ▸ h.1)]
    | error reason =>
      rw [Linter.appliedOf_of_error hresult] at h
      rw [step_of_error hresult]
      exact ih (R := R.skip g.site reason) h

end Repair

namespace Linter

variable {l : Linter} {t : SyntaxTree} {gs : List Finding}

theorem finding_turns (l : Linter) (t : SyntaxTree) (gs : List Finding) :
    (l.turns t gs).map Turn.finding = gs := by
  induction gs generalizing t with
  | nil => rfl
  | cons g gs ih => rw [turns, List.map_cons, ih]

/-- The rules under which a site is fixed, one after the other. -/
def rulesAt (l : Linter) (t : SyntaxTree) (gs : List Finding) (id : NodeId) : List Rule :=
  ((l.appliedOf t gs).filter fun g => g.site = id).map Finding.rule

/-- A fix leaves its site in the form in which only the other rule can be broken. The first fix
    of a site is for the form that it has. -/
theorem isChain_rulesAt (hl : l.resolver.SpellsUsually) (gs : List Finding) (t : SyntaxTree)
    (id : NodeId) :
    (l.rulesAt t gs id).IsChain (· ≠ ·) ∧ ∀ rule ∈ (l.rulesAt t gs id).head?,
      (t.site? id).map (fun s => s.slot.isImplicit) = some (decide (rule = .useExplicit)) := by
  induction gs generalizing t with
  | nil => exact ⟨.nil, fun rule h => by cases h⟩
  | cons g gs ih =>
    cases hresult : l.attempt t g with
    | error reason =>
      rw [rulesAt, appliedOf_of_error hresult]
      exact ih t
    | ok fix =>
      obtain ⟨s, type, r, hid, hrule, htype, hr, _, htree, _⟩ := eq_of_attempt hresult
      obtain ⟨hchain, hhead⟩ := ih fix.tree
      rw [htree] at hchain hhead
      by_cases hsite : g.site = id
      · have hrules : l.rulesAt t (g :: gs) id = g.rule :: l.rulesAt r.tree gs id := by
          simp [rulesAt, appliedOf_of_ok hresult, hsite, htree]
        have hbefore : s.slot.isImplicit = decide (g.rule = .useExplicit) := (form_of_rule? hrule).2.1
        have hafter : r.new.isImplicit = decide (g.rule = .useImplicit) := by
          rw [hr.isImplicit_new, Resolver.isImplicit_of_wantedType hl htype]
        rw [hrules]
        refine ⟨List.isChain_cons.mpr ⟨?_, hchain⟩, ?_⟩
        · rintro rule hmem rfl
          have hform := hhead _ hmem
          rw [← hsite, ← hid, hr.site?_self, Option.map_some, Option.some.injEq, hafter] at hform
          cases hg : g.rule <;> simp [hg] at hform
        · rintro rule ⟨⟩
          rw [← hsite, ← hid, hr.site, Option.map_some, hbefore]
      · have hrules : l.rulesAt t (g :: gs) id = l.rulesAt r.tree gs id := by
          simp [rulesAt, appliedOf_of_ok hresult, hsite, htree]
        rw [hrules]
        refine ⟨hchain, fun rule hmem => ?_⟩
        rw [← hhead rule hmem, hr.site?_of_ne]
        rw [hid]
        exact fun heq => hsite heq.symm

theorem appliedOf_sublist (l : Linter) (t : SyntaxTree) (gs : List Finding) :
    (l.appliedOf t gs).Sublist gs := by
  have hsub : ((l.turns t gs).filter Turn.isApplied).Sublist (l.turns t gs) := List.filter_sublist
  have hmap := hsub.map Turn.finding
  rwa [finding_turns] at hmap

/-- Of rules that alternate and are all the same there is at most one. -/
theorem length_le_one_of_isChain {rules : List Rule} {rule : Rule}
    (hchain : rules.IsChain (· ≠ ·)) (hsame : ∀ x ∈ rules, x = rule) : rules.length ≤ 1 := by
  match rules with
  | [] | [_] => simp
  | a :: b :: _ =>
    have hab : a = b := by rw [hsame a (by simp), hsame b (by simp)]
    exact absurd hab (List.isChain_cons_cons.mp hchain).1

/-- A repair accounts for every finding. The sites of the findings come apart into those that
    were applied and those that were skipped, each in the order of the findings. Findings that
    are applied at one site alternate between the rules, so there is at most one if they all have
    the same rule. A site that is not among the applied ones stays as it was. The applied
    findings alone lead to the same tree, sites and imports, and none of them is skipped. -/
theorem repair_by_turns (hl : l.resolver.SpellsUsually) (t : SyntaxTree) (gs : List Finding) :
    let R := l.repair t gs
    let done := ((l.turns t gs).filter Turn.isApplied).map Turn.finding
    (l.turns t gs).map Turn.finding = gs ∧
    R.applied = done.map Finding.site ∧
    R.skipped = (l.turns t gs).filterMap Turn.skipped? ∧
    (∀ id, ((done.filter fun g => g.site = id).map Finding.rule).IsChain (· ≠ ·)) ∧
    (∀ id rule, (∀ g ∈ gs, g.site = id → g.rule = rule) → R.applied.count id ≤ 1) ∧
    (∀ id, id ∉ R.applied → R.tree.site? id = t.site? id) ∧
    l.repair t done = { R with skipped := [] } := by
  intro R done
  have happlied : R.applied = done.map Finding.site := Repair.applied_foldl gs { tree := t }
  have hskipped : R.skipped = (l.turns t gs).filterMap Turn.skipped? :=
    Repair.skipped_foldl gs { tree := t }
  refine ⟨l.finding_turns t gs, happlied, hskipped, fun id => (isChain_rulesAt hl gs t id).1, ?_,
    ?_, Repair.foldl_appliedOf gs rfl rfl rfl⟩
  · intro id rule hsame
    have hcount : R.applied.count id = (l.rulesAt t gs id).length := by
      rw [happlied, rulesAt, List.length_map, List.count_eq_countP, List.countP_map,
        List.countP_eq_length_filter]
      rfl
    have hall : ∀ x ∈ l.rulesAt t gs id, x = rule := by
      intro x hx
      obtain ⟨g, hg, rfl⟩ := List.mem_map.mp hx
      obtain ⟨hdone, hsite⟩ := List.mem_filter.mp hg
      exact hsame g ((l.appliedOf_sublist t gs).mem hdone) (of_decide_eq_true hsite)
    rw [hcount]
    exact length_le_one_of_isChain (isChain_rulesAt hl gs t id).1 hall
  · intro id hid
    rw [happlied] at hid
    exact Repair.site?_foldl gs (R := { tree := t }) hid

/-- The resolver changes its mind with the form of `x`, which is fixed three times, there and
    back. The second finding comes too early for that, and there is no site of the third. -/
theorem repair_by_turns_literalAndCall :
    let int : Ty := .predefined .int
    let long : Ty := .predefined .long
    let contrary : Resolver := {
      exprType := fun t _ => (t.site? ⟨2⟩).map fun s =>
        if s.slot.isImplicit then ⟨some int, some long⟩ else .exact int
      declaredType := fun _ _ => some int
      symbols := fun _ _ _ => [] }
    let l : Linter := { resolver := contrary }
    let t := Draft.literalAndCall.finish
    let x : Finding := ⟨⟨2⟩, ⟨1⟩, ⟨0, 9⟩, ⟨0, 3⟩, .useImplicit⟩
    let back : Finding := { x with rule := .useExplicit }
    let R := l.repair t [x, x, { x with site := ⟨999⟩ }, back, x]
    R.applied = [⟨2⟩, ⟨2⟩, ⟨2⟩] ∧ R.skipped = [(⟨2⟩, .outdated), (⟨999⟩, .noSite)] ∧
      R.tree.site? ⟨5⟩ = t.site? ⟨5⟩ ∧ l.repair t [x, back, x] = { R with skipped := [] } := by
  intro int long contrary l t x back R
  have hl : l.resolver.SpellsUsually := rfl
  obtain ⟨-, happlied, hskipped, -, -, hrest, halone⟩ :=
    repair_by_turns hl t [x, x, { x with site := ⟨999⟩ }, back, x]
  have hdone : l.appliedOf t [x, x, { x with site := ⟨999⟩ }, back, x] = [x, back, x] := by
    decide +kernel
  have happlied : R.applied = [⟨2⟩, ⟨2⟩, ⟨2⟩] := by
    rw [happlied]
    exact congrArg (List.map Finding.site) hdone
  refine ⟨happlied, ?_, hrest ⟨5⟩ ?_, ?_⟩
  · rw [hskipped]
    decide +kernel
  · rw [happlied]
    decide
  · rw [← halone]
    exact congrArg (l.repair t) hdone.symm

end Linter

end TypeStyle
