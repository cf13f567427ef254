-- SUMMARY: What a repair comes to is a matter of which findings it is given, not of their order.
import TypeStyle.Proofs.Lint.Convergence
import TypeStyle.Proofs.Tree.Likeness

/-! # The order of a repair

`Repair.Tally` says what a repair has done so far without saying in which order: which
sites are fixed, what stands in their slots, which findings are skipped and why. It
refers to the tree at the beginning alone. Two repairs with the same findings have the
same tally, and it leaves only the identities in the slots open. -/

namespace TypeStyle

namespace Linter

variable {l : Linter} {t : SyntaxTree} {s : Site}

/-- A retyping does not change the type that is wanted for a site as it was. -/
def KeepsWantedTypes (l : Linter) : Prop :=
  ∀ ⦃t : SyntaxTree⦄ ⦃s : Site⦄ ⦃type : TypeExpr⦄ ⦃r : Retyped⦄, t.Retypes s type r →
    ∀ x rule, l.resolver.wantedType r.tree x rule = l.resolver.wantedType t x rule

/-- Site `id` as its fix leaves it, without the identities in its slot. -/
def fixed? (l : Linter) (t : SyntaxTree) (id : NodeId) : Option Site := do
  let s ← t.site? id
  let rule ← l.rule? t s
  let type ← (l.resolver.wantedType t s rule).toOption
  return { s with slot := type.withTriviaOf s.slot }.withoutSlotIds

theorem fixed?_of_wantedType {rule : Rule} {type : TypeExpr} (hs : t.site? s.id = some s)
    (hrule : l.rule? t s = some rule) (htype : l.resolver.wantedType t s rule = .ok type) :
    l.fixed? t s.id = some { s with slot := type.withTriviaOf s.slot }.withoutSlotIds := by
  simp [fixed?, hs, hrule, htype, Except.toOption]

/-- Why a finding at site `id` is skipped if it is not applied: its fix fails, or the site
    has been fixed by then. -/
def skipReason (l : Linter) (t : SyntaxTree) (id : NodeId) : SkipReason :=
  match l.outcome? t id with
  | some (_, some e) => .failed e
  | some (_, none) | none => .outdated

end Linter

namespace Repair

variable {l : Linter} {t : SyntaxTree} {done : List Finding} {R : Repair} {g : Finding}

/-- What a repair of `t` has come to after the findings `done`. -/
structure Tally (l : Linter) (t : SyntaxTree) (done : List Finding) (R : Repair) : Prop where
  progress : Progress l t done R
  wantedType : ∀ x rule, l.resolver.wantedType R.tree x rule = l.resolver.wantedType t x rule
  items : R.tree.items = t.items
  exprs : R.tree.tables.exprs = t.tables.exprs
  size : R.tree.tables.sites.length = t.tables.sites.length
  kept : ∀ id, id ∉ R.applied → R.tree.site? id = t.site? id
  fixed : ∀ id ∈ R.applied, ∃ s, l.fixed? t id = some s ∧
    (R.tree.site? id).map Site.withoutSlotIds = some s
  nodup : R.applied.Nodup
  /-- Each finding is skipped for the reason that its site gives, or it is the one that
      was applied there. -/
  perm : (R.skipped ++ R.applied.map fun id => (id, SkipReason.outdated)).Perm
    (done.map fun g : Finding => (g.site, l.skipReason t g.site))
  increasing : R.imports.Pairwise (· < ·)
  mem_imports : ∀ ns, ns ∈ R.imports ↔
    ∃ id ∈ R.applied, ∃ s, l.fixed? t id = some s ∧ ns ∈ s.slot.info.imports

theorem Tally.initial (hn : t.Numbered) : Tally l t [] { tree := t } where
  progress := .initial hn
  wantedType _ _ := rfl
  items := rfl
  exprs := rfl
  size := rfl
  kept _ _ := rfl
  fixed _ h := by cases h
  nodup := List.nodup_nil
  perm := List.Perm.refl _
  increasing := List.Pairwise.nil
  mem_imports _ := by simp

namespace Tally

theorem skip (h : Tally l t done R) {reason : SkipReason}
    (hprogress : Progress l t (done ++ [g]) (R.skip g.site reason))
    (hreason : reason = l.skipReason t g.site) :
    Tally l t (done ++ [g]) (R.skip g.site reason) where
  progress := hprogress
  wantedType := h.wantedType
  items := h.items
  exprs := h.exprs
  size := h.size
  kept := h.kept
  fixed := h.fixed
  nodup := h.nodup
  perm := by
    have hlast : ((R.skip g.site reason).skipped ++
          R.applied.map fun id => (id, SkipReason.outdated)).Perm
        ((R.skipped ++ R.applied.map fun id => (id, SkipReason.outdated)) ++
          [(g.site, reason)]) := by
      rw [Repair.skip, List.append_assoc, List.append_assoc]
      exact List.perm_append_comm.append_left R.skipped
    rw [List.map_append, List.map_singleton, ← hreason]
    exact hlast.trans (h.perm.append_right _)
  increasing := h.increasing
  mem_imports := h.mem_imports

/-- A site that can be fixed now could be fixed at first, in the same way. -/
theorem fixed?_of_rule? (h : Tally l t done R) {s : Site} {rule : Rule} {type : TypeExpr}
    (hs : R.tree.site? s.id = some s) (hrule : l.rule? R.tree s = some rule)
    (htype : l.resolver.wantedType R.tree s rule = .ok type) :
    s.id ∉ R.applied ∧ l.skipReason t s.id = .outdated ∧
      l.fixed? t s.id = some { s with slot := type.withTriviaOf s.slot }.withoutSlotIds := by
  have houtcome : l.outcome? R.tree s.id = some (rule, none) := by
    rw [Linter.outcome?_of_rule? hs hrule, htype]
    rfl
  obtain ⟨hnot, houtcome⟩ := h.progress.outcome_of_some houtcome
  have hs' : t.site? s.id = some s := by rw [← h.kept s.id hnot, hs]
  have hrule' : l.rule? t s = some rule := by
    obtain ⟨x, hx, _, hrule', _⟩ := Linter.outcome?_eq_some houtcome
    rw [hs'] at hx
    rw [Option.some.inj hx, hrule']
  have htype' : l.resolver.wantedType t s rule = .ok type := by rw [← h.wantedType, htype]
  exact ⟨hnot, by rw [Linter.skipReason, houtcome], Linter.fixed?_of_wantedType hs' hrule' htype'⟩

theorem record (h : Tally l t done R) (hkeeps : l.KeepsWantedTypes) {s : Site} {type : TypeExpr}
    {r : Retyped} {fix : Fix} (hprogress : Progress l t (done ++ [g]) (R.record fix))
    (hsite : s.id = g.site) (hrule : l.rule? R.tree s = some g.rule)
    (htype : l.resolver.wantedType R.tree s g.rule = .ok type) (hr : R.tree.Retypes s type r)
    (hfixed : fix.site = g.site) (htree : fix.tree = r.tree) (hnew : fix.new = r.new) :
    Tally l t (done ++ [g]) (R.record fix) := by
  obtain ⟨hnot, hreason, hleft⟩ := h.fixed?_of_rule? hr.site hrule htype
  have htree : (R.record fix).tree = r.tree := htree
  have happlied : (R.record fix).applied = R.applied ++ [s.id] := by
    rw [Repair.record, hfixed, hsite]
  have hmem : ∀ {id : NodeId}, id ∈ (R.record fix).applied ↔ id ∈ R.applied ∨ id = s.id := by
    simp [happlied]
  have hnames : ∀ ns, ns ∈ (R.record fix).imports ↔ ns ∈ type.info.imports ∨ ns ∈ R.imports := by
    intro ns
    rw [← hr.imports_new, ← hnew]
    exact NameSet.mem_foldr_insert
  refine
    { progress := hprogress
      wantedType := fun x rule => by rw [htree, hkeeps hr, h.wantedType]
      items := by rw [htree, hr.items, h.items]
      exprs := by rw [htree, hr.exprs, h.exprs]
      size := by rw [htree, hr.size, h.size]
      kept := ?kept
      fixed := ?fixed
      nodup := ?nodup
      perm := ?perm
      increasing := NameSet.pairwise_foldr_insert h.increasing
      mem_imports := ?mem_imports }
  case kept =>
    intro id hid
    rw [hmem, not_or] at hid
    rw [htree, hr.site?_of_ne hid.2, h.kept id hid.1]
  case fixed =>
    intro id hid
    rw [htree]
    rcases hmem.mp hid with hid | rfl
    · have hne : id ≠ s.id := fun heq => hnot (heq ▸ hid)
      rw [hr.site?_of_ne hne]
      exact h.fixed id hid
    · exact ⟨_, hleft, by rw [hr.site?_self, Option.map_some, hr.withoutSlotIds_new]⟩
  case nodup =>
    rw [happlied]
    refine List.nodup_append.mpr ⟨h.nodup, by simp, ?_⟩
    intro id hid id' hid' heq
    rw [heq, List.mem_singleton.mp hid'] at hid
    exact hnot hid
  case perm =>
    have hskipped : (R.record fix).skipped = R.skipped := rfl
    rw [happlied, hskipped, List.map_append, List.map_append, ← List.append_assoc]
    simp only [List.map_singleton, ← hsite, hreason]
    exact h.perm.append_right _
  case mem_imports =>
    intro ns
    rw [hnames, h.mem_imports]
    simp only [hmem]
    constructor
    · rintro (hns | ⟨id, hid, x, hx, hns⟩)
      · exact ⟨s.id, .inr rfl, _, hleft,
          by simpa [Site.withoutSlotIds, TypeExpr.withTriviaOf] using hns⟩
      · exact ⟨id, .inl hid, x, hx, hns⟩
    · rintro ⟨id, hid | rfl, x, hx, hns⟩
      · exact .inr ⟨id, hid, x, hx, hns⟩
      · rw [hleft] at hx
        obtain rfl := Option.some.inj hx
        exact .inl (by simpa [Site.withoutSlotIds, TypeExpr.withTriviaOf] using hns)

/-- One step of a repair keeps the tally, if its finding was found in the first tree. -/
theorem step (h : Tally l t done R) (hl : l.FixesAlone) (hkeeps : l.KeepsWantedTypes)
    (hg : ∃ fe, l.outcome? t g.site = some (g.rule, fe)) :
    Tally l t (done ++ [g]) (Repair.step l R g) := by
  have hprogress := h.progress.step hl g
  have hstep := step_spec (l := l) (g := g) h.progress.numbered
  generalize Repair.step l R g = R' at hprogress hstep ⊢
  obtain ⟨fe, hg⟩ := hg
  cases hstep with
  | missing hnone =>
    -- No site goes away: neither what is kept nor what is fixed.
    by_cases happlied : g.site ∈ R.applied
    · obtain ⟨s, _, hs⟩ := h.fixed _ happlied
      rw [hnone] at hs
      cases hs
    · rw [h.kept _ happlied] at hnone
      exact absurd hg (Linter.outcome?_ne_some hnone _)
  | outdated hnone =>
    refine h.skip hprogress ?_
    by_cases happlied : g.site ∈ R.applied
    · obtain ⟨rule, ho⟩ := h.progress.applied _ happlied
      rw [Linter.skipReason, ho]
    · have ho := h.progress.outcome g.site
      rw [if_neg happlied, hg] at ho
      exact absurd ho (hnone fe)
  | failed ho =>
    refine h.skip hprogress ?_
    rw [Linter.skipReason, (h.progress.outcome_of_some ho).2]
  | applied hsite hrule htype hr hfixed htree hnew =>
    exact h.record hkeeps hprogress hsite hrule htype hr hfixed htree hnew

theorem foldl (h : Tally l t done R) (hl : l.FixesAlone) (hkeeps : l.KeepsWantedTypes)
    {gs : List Finding} (hgs : ∀ g ∈ gs, ∃ fe, l.outcome? t g.site = some (g.rule, fe)) :
    Tally l t (done ++ gs) (gs.foldl (Repair.step l) R) := by
  induction gs generalizing done R with
  | nil => simpa using h
  | cons g gs ih =>
    rw [List.foldl_cons, List.append_cons]
    exact ih (h.step hl hkeeps (hgs g List.mem_cons_self)) fun g' hg' =>
      hgs g' (List.mem_cons_of_mem _ hg')

/-- The fixed sites are those with a finding whose fix can be made. -/
theorem mem_applied_iff (h : Tally l t done R)
    (hdone : ∀ g ∈ done, ∃ fe, l.outcome? t g.site = some (g.rule, fe)) {id : NodeId} :
    id ∈ R.applied ↔ (∃ g ∈ done, g.site = id) ∧ ∃ rule, l.outcome? t id = some (rule, none) := by
  constructor
  · intro hid
    have hmem : (id, SkipReason.outdated) ∈
        done.map fun g : Finding => (g.site, l.skipReason t g.site) :=
      h.perm.mem_iff.mp (List.mem_append_right _ (List.mem_map_of_mem hid))
    obtain ⟨g, hg, heq⟩ := List.mem_map.mp hmem
    exact ⟨⟨g, hg, (Prod.mk.inj heq).1⟩, h.progress.applied id hid⟩
  · rintro ⟨⟨g, hg, rfl⟩, rule, ho⟩
    rcases h.progress.settled g hg (hdone g hg) with happlied | ⟨e, he⟩
    · exact happlied
    · obtain ⟨rule', ho'⟩ := h.progress.failed _ e he
      rw [ho] at ho'
      cases ho'

/-- Two repairs of the same findings come to the same, but for the identities in the slots. -/
theorem agree (h : Tally l t done R) {done' : List Finding} {R' : Repair}
    (h' : Tally l t done' R') (hdone : ∀ g ∈ done, ∃ fe, l.outcome? t g.site = some (g.rule, fe))
    (hperm : done'.Perm done) :
    R.tree.Alike R'.tree ∧ R'.applied.Perm R.applied ∧ R'.skipped.Perm R.skipped ∧
      R'.imports = R.imports := by
  have hdone' : ∀ g ∈ done', ∃ fe, l.outcome? t g.site = some (g.rule, fe) :=
    fun g hg => hdone g (hperm.mem_iff.mp hg)
  have hmem : ∀ id, id ∈ R'.applied ↔ id ∈ R.applied := by
    intro id
    rw [h'.mem_applied_iff hdone', h.mem_applied_iff hdone]
    simp only [hperm.mem_iff]
  have happlied : R'.applied.Perm R.applied := (List.perm_ext_iff_of_nodup h'.nodup h.nodup).mpr hmem
  refine ⟨⟨?_, ?_, ?_, ?_⟩, happlied, ?_, ?_⟩
  · rw [h'.items, h.items]
  · rw [h'.exprs, h.exprs]
  · rw [h'.size, h.size]
  · intro id
    by_cases hid : id ∈ R.applied
    · obtain ⟨s, hs, hsite⟩ := h.fixed id hid
      obtain ⟨s', hs', hsite'⟩ := h'.fixed id ((hmem id).mpr hid)
      rw [hsite, hsite', ← hs, ← hs']
    · rw [h.kept id hid, h'.kept id fun hid' => hid ((hmem id).mp hid')]
  · have houtdated := happlied.map fun id => (id, SkipReason.outdated)
    have htallies := h'.perm.trans ((hperm.map _).trans h.perm.symm)
    exact (List.perm_append_right_iff _).mp
      ((houtdated.symm.append_left R'.skipped).trans htallies)
  · refine NameSet.eq_of_mem_iff h'.increasing h.increasing fun ns => ?_
    rw [h'.mem_imports, h.mem_imports]
    simp only [hmem]

end Tally

end Repair

namespace Linter

variable {l : Linter} {t : SyntaxTree}

theorem tally_repair (hl : l.FixesAlone) (hkeeps : l.KeepsWantedTypes) (hn : t.Numbered)
    {gs : List Finding} (hgs : ∀ g ∈ gs, ∃ fe, l.outcome? t g.site = some (g.rule, fe)) :
    Repair.Tally l t gs (l.repair t gs) :=
  (Repair.Tally.initial hn).foldl hl hkeeps hgs

/-- Repairing what a scan finds does not depend on the order of the findings. -/
theorem agree_of_perm_scan (hl : l.FixesAlone) (hkeeps : l.KeepsWantedTypes) (hstop : l.stop = none)
    (hn : t.Numbered) {gs : List Finding} (hgs : gs.Perm (l.scan t)) :
    (l.repair t (l.scan t)).tree.Alike (l.repair t gs).tree ∧
      (l.repair t gs).applied.Perm (l.repair t (l.scan t)).applied ∧
      (l.repair t gs).skipped.Perm (l.repair t (l.scan t)).skipped ∧
      (l.repair t gs).imports = (l.repair t (l.scan t)).imports := by
  have hscan : ∀ g ∈ l.scan t, ∃ fe, l.outcome? t g.site = some (g.rule, fe) :=
    fun g hg => (exists_mem_scan_iff hstop hn).mp ⟨g, hg, rfl, rfl⟩
  have hgs' : ∀ g ∈ gs, ∃ fe, l.outcome? t g.site = some (g.rule, fe) :=
    fun g hg => hscan g (hgs.mem_iff.mp hg)
  exact (tally_repair hl hkeeps hn hscan).agree (tally_repair hl hkeeps hn hgs') hscan hgs

end Linter

namespace Facts

theorem keepsWantedTypes_linter (f : Facts) (settings : Settings) :
    (f.linter settings).KeepsWantedTypes :=
  fun _ _ _ _ hr x rule => wantedType_retype hr x rule

/-- Over a table of facts, repairing what a scan finds in any order gives the same source, the
    same slots but for identities, the same fixed sites, the same skipped findings and the
    same namespaces to import. -/
theorem repair_perm_scan (f : Facts) (settings : Settings) {t : SyntaxTree} (ht : t.Reachable)
    {gs : List Finding} (hgs : gs.Perm ((f.linter settings).scan t)) :
    let l := f.linter settings
    let R := l.repair t (l.scan t)
    let R' := l.repair t gs
    R'.tree.source = R.tree.source ∧
      (∀ id, (R'.tree.site? id).map Site.withoutSlotIds =
        (R.tree.site? id).map Site.withoutSlotIds) ∧
      (∀ id, id ∈ R'.applied ↔ id ∈ R.applied) ∧ R'.applied.Perm R.applied ∧
      R'.skipped.Perm R.skipped ∧ R'.imports = R.imports := by
  intro l R R'
  obtain ⟨halike, happlied, hskipped, himports⟩ := Linter.agree_of_perm_scan
    (f.fixesAlone_linter settings) (f.keepsWantedTypes_linter settings) rfl ht.numbered hgs
  exact ⟨halike.source_eq, halike.sites, fun _ => happlied.mem_iff, happlied, hskipped, himports⟩

/-- Whether `x` or `y` is fixed first, the source is the same. -/
theorem repair_perm_scan_literalAndCall :
    let ints : Ty := .named (some "System") "List" [.predefined .int]
    let l := ({ methods := [("f", ints)] } : Facts).linter {}
    let t := Draft.literalAndCall.finish
    let R' := l.repair t (l.scan t).reverse
    (l.repair t (l.scan t)).applied = [⟨2⟩, ⟨5⟩] ∧ R'.applied = [⟨5⟩, ⟨2⟩] ∧
      R'.tree.source = "var x = 1;\nList<int> y = f();\n" ∧ R'.imports = ["System"] := by
  intro ints l t R'
  obtain ⟨hsource, _, _, _, _, himports⟩ := repair_perm_scan { methods := [("f", ints)] } {}
    (.finish Draft.built_literalAndCall) (List.reverse_perm _)
  have hsource' : R'.tree.source = "var x = 1;\nList<int> y = f();\n" := hsource.trans (by rfl)
  have himports' : R'.imports = ["System"] := himports.trans (by rfl)
  exact ⟨by rfl, by rfl, hsource', himports'⟩

end Facts

end TypeStyle
