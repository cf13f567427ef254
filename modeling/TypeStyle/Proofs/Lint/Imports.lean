-- SUMMARY: A repair asks for the imports that the types it has written need, and for no others.
import TypeStyle.Proofs.Lint.Acceptance
import TypeStyle.Proofs.Lint.Turn
import TypeStyle.Proofs.Text.ByteOrder
import TypeStyle.Proofs.Tree.Likeness

/-! # Imports

A type is written with simple names, so the namespaces that the names come from have to be
imported. Which ones those are is noted on the new slot, of a fix that is applied, and collected
over the run. -/

namespace TypeStyle

/-- A type spelled for a site notes the namespaces of the named types in it that are not imported
    there. -/
theorem mem_imports_of_spellFor {isImported : SyntaxTree → Site → String → Bool} {t : SyntaxTree}
    {s : Site} {ty : Ty} {type : TypeExpr} (h : spellFor isImported t s ty = .ok type)
    {ns : String} : ns ∈ type.info.imports ↔
      (∃ name, (some ns, name) ∈ ty.namedParts) ∧ isImported t s ns = false := by
  unfold spellFor at h
  cases hspell : ty.spell.result with
  | error e =>
    rw [hspell] at h
    cases h
  | ok spelled =>
    rw [hspell] at h
    obtain rfl := Except.ok.inj h
    simp [TypeExpr.info_withInfo, NameSet.mem_ofList, Ty.namespaces_of_spell hspell]

namespace Linter

variable {l : Linter} {t : SyntaxTree} {g : Finding} {ns : String}

/-- To apply a finding to a tree, a namespace has to be imported: the finding asks for a type, and
    the one that is known has a name from that namespace in it, which is not imported yet. -/
def Needs (l : Linter) (t : SyntaxTree) (g : Finding) (ns : String) : Prop :=
  g.rule = .useExplicit ∧ ∃ s ty, t.site? g.site = some s ∧
    l.resolver.declaredType t s = some ty ∧ (∃ name, (some ns, name) ∈ ty.namedParts) ∧
    l.resolver.isImported t s ns = false

/-- A fix asks for the imports that it needs. -/
theorem mem_imports_of_attempt (hl : l.resolver.SpellsUsually) {fix : Fix}
    (h : l.attempt t g = .ok fix) : ns ∈ fix.imports ↔ l.Needs t g ns := by
  obtain ⟨s, type, r, hid, hrule, htype, hr, _, _, hnew⟩ := eq_of_attempt h
  have hsite : t.site? g.site = some s := by rw [← hid, hr.site]
  rw [Fix.imports, hnew, hr.imports_new, Needs]
  constructor
  · intro hns
    cases hg : g.rule with
    | useImplicit =>
      rw [hg] at hrule htype
      rw [Resolver.wantedType_useImplicit (form_of_rule? hrule).2.1] at htype
      obtain rfl := Except.ok.inj htype
      cases hns
    | useExplicit =>
      rw [hg] at htype
      obtain ⟨ty, hdeclared, hspell⟩ := Resolver.spellFor_of_wantedType hl htype
      exact ⟨rfl, s, ty, hsite, hdeclared, (mem_imports_of_spellFor hspell).mp hns⟩
  · rintro ⟨hg, s', ty', hsite', hdeclared', hneeded⟩
    rw [hg] at htype
    obtain ⟨ty, hdeclared, hspell⟩ := Resolver.spellFor_of_wantedType hl htype
    obtain rfl := Option.some.inj (hsite.symm.trans hsite')
    obtain rfl := Option.some.inj (hdeclared.symm.trans hdeclared')
    exact (mem_imports_of_spellFor hspell).mpr hneeded

end Linter

/-! ## Runs -/

namespace Repair

variable {l : Linter} {R : Repair} {g : Finding} {gs : List Finding} {ns : String}

/-- A finding is applied exactly if it is noted among the applied ones. -/
theorem applied_step_iff :
    (step l R g).applied = R.applied ++ [g.site] ↔ ∃ fix, l.attempt R.tree g = .ok fix := by
  cases hresult : l.attempt R.tree g with
  | ok fix =>
    obtain ⟨_, _, _, _, _, _, _, hsite, _⟩ := Linter.eq_of_attempt hresult
    simp [step_of_ok hresult, record, hsite]
  | error reason => simp [step_of_error hresult, skip]

theorem mem_imports_step (hl : l.resolver.SpellsUsually) :
    ns ∈ (step l R g).imports ↔ ns ∈ R.imports ∨
      (step l R g).applied = R.applied ++ [g.site] ∧ l.Needs R.tree g ns := by
  rw [applied_step_iff]
  cases hresult : l.attempt R.tree g with
  | ok fix =>
    rw [step_of_ok hresult, record, NameSet.mem_foldr_insert,
      Linter.mem_imports_of_attempt hl hresult]
    simp [or_comm]
  | error reason => simp [step_of_error hresult, skip]

theorem mem_imports_foldl (hl : l.resolver.SpellsUsually) (gs : List Finding) (R : Repair)
    (ns : String) :
    ns ∈ (gs.foldl (step l) R).imports ↔ ns ∈ R.imports ∨
      ∃ before g after, gs = before ++ g :: after ∧
        (step l (before.foldl (step l) R) g).applied =
          (before.foldl (step l) R).applied ++ [g.site] ∧
        l.Needs (before.foldl (step l) R).tree g ns := by
  induction gs generalizing R with
  | nil => simp
  | cons g gs ih =>
    rw [List.foldl_cons, ih, mem_imports_step hl, or_assoc]
    refine or_congr_right ⟨?_, ?_⟩
    · rintro (⟨happlied, hneeds⟩ | ⟨before, x, after, rfl, happlied, hneeds⟩)
      · exact ⟨[], g, gs, rfl, happlied, hneeds⟩
      · exact ⟨g :: before, x, after, rfl, happlied, hneeds⟩
    · rintro ⟨before, x, after, heq, happlied, hneeds⟩
      rcases List.cons_eq_append_iff.mp heq with ⟨rfl, hrest⟩ | ⟨before, rfl, rfl⟩
      · obtain ⟨rfl, rfl⟩ := List.cons_eq_cons.mp hrest
        exact .inl ⟨happlied, hneeds⟩
      · exact .inr ⟨before, x, after, rfl, happlied, hneeds⟩

theorem increasing_imports_foldl (gs : List Finding) {R : Repair}
    (h : R.imports.Pairwise (· < ·)) : (gs.foldl (step l) R).imports.Pairwise (· < ·) := by
  induction gs generalizing R with
  | nil => exact h
  | cons g gs ih =>
    apply ih
    cases hresult : l.attempt R.tree g with
    | ok fix =>
      rw [step_of_ok hresult]
      exact NameSet.pairwise_foldr_insert h
    | error reason =>
      rw [step_of_error hresult]
      exact h

end Repair

namespace Linter

variable {l : Linter}

/-- A repair asks for the imports that the findings it applies need on the trees that they are
    applied to, each once, in the order of their bytes. -/
theorem mem_imports_repair (hl : l.resolver.SpellsUsually) (t : SyntaxTree) (gs : List Finding) :
    (l.repair t gs).imports.Pairwise (fun a b => Text.bytes a.toList < Text.bytes b.toList) ∧
    ∀ ns, ns ∈ (l.repair t gs).imports ↔ ∃ before g after, gs = before ++ g :: after ∧
      (l.repair t (before ++ [g])).applied = (l.repair t before).applied ++ [g.site] ∧
      l.Needs (l.repair t before).tree g ns := by
  constructor
  · have hincreasing : (l.repair t gs).imports.Pairwise (· < ·) :=
      Repair.increasing_imports_foldl gs (R := { tree := t }) .nil
    exact hincreasing.imp fun hlt => Text.bytes_lt_bytes hlt
  · intro ns
    have hrun := Repair.mem_imports_foldl hl gs { tree := t } ns
    simp only [List.not_mem_nil, false_or] at hrun
    simp only [repair, List.foldl_append, List.foldl_cons, List.foldl_nil]
    exact hrun

/-- The type of the call has names from four namespaces at different depths, one of which is
    imported already. Its slot is written by the second finding: there is no site of the first,
    the third asks for the placeholder, and the last comes too late. -/
theorem mem_imports_repair_literalAndCall :
    let pair : Ty := .tuple [.named (some "Ähre") "V" [], .named none "Global" []]
    let map : Ty := .named (some "Zoo") "Map"
      [.array (.named (some "System") "K" []), .nullable pair, .named (some "Alpha") "W" []]
    let overlay : Overlay := { imported := ["System"] }
    let l : Linter := { resolver := overlay.apply ({ methods := [("f", map)] } : Facts).resolver }
    let t := Draft.literalAndCall.finish
    let x : Finding := ⟨⟨2⟩, ⟨1⟩, ⟨0, 9⟩, ⟨0, 3⟩, .useImplicit⟩
    let y : Finding := ⟨⟨5⟩, ⟨4⟩, ⟨11, 22⟩, ⟨11, 14⟩, .useExplicit⟩
    let R := l.repair t [{ y with site := ⟨999⟩ }, y, x, y]
    R.imports = ["Alpha", "Zoo", "Ähre"] ∧ l.Needs t y "Ähre" ∧ "Ähre" ∈ R.imports ∧
      R.imports.Pairwise fun a b => Text.bytes a.toList < Text.bytes b.toList := by
  intro pair map overlay l t x y R
  have hl : l.resolver.SpellsUsually := rfl
  obtain ⟨hincreasing, hmem⟩ := mem_imports_repair hl t [{ y with site := ⟨999⟩ }, y, x, y]
  let s : Site := ⟨⟨5⟩, .implicit { id := ⟨4⟩, trailing := [.space] },
    .«variables» (.statement false false) [⟨⟨3⟩, "y", some ⟨2⟩⟩]⟩
  have hpart : (some "Ähre", "V") ∈ map.namedParts := by decide +kernel
  have hneeds : l.Needs t y "Ähre" :=
    ⟨rfl, s, map, by rfl, by rfl, ⟨"V", hpart⟩, by rfl⟩
  have happlied : (l.repair t [{ y with site := ⟨999⟩ }, y]).applied =
      (l.repair t [{ y with site := ⟨999⟩ }]).applied ++ [⟨5⟩] := by
    decide +kernel
  refine ⟨by decide +kernel, hneeds, ?_, hincreasing⟩
  exact (hmem "Ähre").mpr ⟨[{ y with site := ⟨999⟩ }], y, [x, y], rfl, happlied, hneeds⟩

end Linter

end TypeStyle
