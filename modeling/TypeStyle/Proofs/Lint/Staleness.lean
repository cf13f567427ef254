-- SUMMARY: A finding is refused as outdated exactly if the slot it was made for was replaced since.
import TypeStyle.Proofs.Lint.Replacement
import TypeStyle.Types.Facts

/-! # Stale findings

A finding tells its slot by identity. Whatever replaces a slot gives it an identity that was
never given out before, so along any run of replacements the identity in a slot is the one of
a finding exactly if nothing replaced that slot. What the slot holds does not matter: a type
replaced by an equal one is replaced. -/

namespace TypeStyle

namespace Resolver

variable {r : Resolver} {t : SyntaxTree} {g : Finding} {s : Site}

theorem fix_of_slot_ne (hs : t.site? g.site = some s) (hslot : s.slot.id ≠ g.slot) :
    r.fix t g = .error (.invalidSite g.site .slotReplaced) := by
  simp [fix, hs, hslot, Tables.id_of_site? hs]

theorem wantedType_ne_mismatch {rule : Rule} {id : NodeId} {reason : Mismatch}
    (hreason : reason = .slotReplaced ∨ reason = .noSite) :
    r.wantedType t s rule ≠ .error (.invalidSite id reason) := by
  intro h
  cases rule with
  | useImplicit =>
    simp only [wantedType] at h
    split at h <;> cases h
    rcases hreason with hreason | hreason <;> cases hreason
  | useExplicit =>
    simp only [wantedType] at h
    split at h
    · cases h
      rcases hreason with hreason | hreason <;> cases hreason
    · split at h
      · cases h
      · split at h <;> cases h

/-- A finding whose slot is still there is refused neither for its site nor for its slot. -/
theorem fix_ne_mismatch (hs : t.site? g.site = some s) (hslot : s.slot.id = g.slot) {id : NodeId}
    {reason : Mismatch} (hreason : reason = .slotReplaced ∨ reason = .noSite) :
    r.fix t g ≠ .error (.invalidSite id reason) := by
  intro h
  cases hobstacle : t.obstacle? s with
  | some o =>
    simp only [fix, hs, hslot, hobstacle, ne_eq, not_true_eq_false, if_false] at h
    cases h
    rcases hreason with hreason | hreason <;> cases hreason
  | none =>
    obtain ⟨herror, hok⟩ := fix_of_wantedType (r := r) hs hslot hobstacle
    cases hwanted : r.wantedType t s g.rule with
    | error e =>
      rw [herror e hwanted] at h
      cases h
      exact wantedType_ne_mismatch hreason hwanted
    | ok type =>
      obtain ⟨fix, -, hfix, -⟩ := hok type hwanted
      rw [hfix] at h
      cases h

end Resolver

/-- A finding may be applied at any later point of a run of replacements, by any resolver. It is
    refused because its slot was replaced if that happened since it was made, even if the slot
    got an equal type. Otherwise the slot is the same as when it was made, and the finding is
    refused neither for the slot nor for a missing site. -/
theorem Linter.fix_after_replacements {d : Draft} (hd : d.Built) {before after : List NodeId}
    {t t' : SyntaxTree} (ht : Replacements d.finish before t) {l : Linter} {s : Site}
    (hs : t.site? s.id = some s) {g : Finding} (hg : l.judge t s = some g)
    (ht' : Replacements t after t') (r : Resolver) :
    (g.site ∈ after → r.fix t' g = .error (.invalidSite g.site .slotReplaced)) ∧
      (g.site ∉ after → (t'.site? g.site).map Site.slot = some s.slot ∧
        ∀ id, r.fix t' g ≠ .error (.invalidSite id .slotReplaced) ∧
          r.fix t' g ≠ .error (.invalidSite id .noSite)) := by
  have hn : t.Numbered := (ht.replaced (SyntaxTree.Reachable.finish hd).numbered).numbered
  have hreplaced := ht'.replaced hn
  obtain ⟨-, hsite, hslot, -⟩ := eq_of_judge hg
  rw [hsite]
  constructor
  · intro hmem
    obtain ⟨slot, hs', hle⟩ := hreplaced.fresh s hs hmem
    have hlt := Tables.Numbered.slot_lt_next hn (Tables.mem_of_site? hs)
    have hne : slot.id ≠ g.slot := by
      rw [hslot]
      intro heq
      rw [heq] at hle
      exact absurd hle (Nat.not_le.mpr hlt)
    rw [← hsite] at hs' ⊢
    exact r.fix_of_slot_ne hs' hne
  · intro hnot
    have hs' := hreplaced.kept s hs hnot
    refine ⟨by rw [hs', Option.map_some], fun id => ?_⟩
    rw [← hsite] at hs'
    exact ⟨r.fix_ne_mismatch hs' hslot.symm (.inl rfl), r.fix_ne_mismatch hs' hslot.symm (.inr rfl)⟩

/-- After `int` was replaced by `int` in the first declaration, the source is the same, and the
    finding at the first declaration is refused. The one at the second can still be applied. -/
theorem Linter.fix_after_replacements_literalAndCall :
    let t := Draft.literalAndCall.finish
    let l : Linter := { resolver := ({ methods := [("f", .predefined .int)] } : Facts).resolver }
    let x : Finding := ⟨⟨2⟩, ⟨1⟩, ⟨0, 9⟩, ⟨0, 3⟩, .useImplicit⟩
    let y : Finding := ⟨⟨5⟩, ⟨4⟩, ⟨11, 22⟩, ⟨11, 14⟩, .useExplicit⟩
    ∃ r, t.retype ⟨2⟩ (.keyword {} "int") = some r ∧ r.tree.source = t.source ∧
      l.scan t = [x, y] ∧
      l.resolver.fix r.tree x = .error (.invalidSite ⟨2⟩ .slotReplaced) ∧
      (r.tree.site? ⟨5⟩).map Site.slot = (t.site? ⟨5⟩).map Site.slot ∧
      l.resolver.fix r.tree y ≠ .error (.invalidSite ⟨5⟩ .slotReplaced) := by
  intro t l x y
  have ht : Replacements t [] t := .refl t
  obtain ⟨r, hr⟩ : ∃ r, t.retype ⟨2⟩ (.keyword {} "int") = some r := ⟨_, rfl⟩
  have hrun : Replacements t [⟨2⟩] r.tree := .step (.retype hr) (.refl _)
  have hsource : (t.retype ⟨2⟩ (.keyword {} "int")).map (fun r => r.tree.source) =
      some t.source := by rfl
  rw [hr] at hsource
  let sx : Site := ⟨⟨2⟩, .keyword { id := ⟨1⟩, trailing := [.space] } "int",
    .«variables» (.statement false false) [⟨⟨0⟩, "x", some ⟨0⟩⟩]⟩
  let sy : Site := ⟨⟨5⟩, .implicit { id := ⟨4⟩, trailing := [.space] },
    .«variables» (.statement false false) [⟨⟨3⟩, "y", some ⟨2⟩⟩]⟩
  have hx : l.judge t sx = some x := by rfl
  have hy : l.judge t sy = some y := by rfl
  have hstale := (fix_after_replacements Draft.built_literalAndCall ht rfl hx hrun l.resolver).1
  have hlive := (fix_after_replacements Draft.built_literalAndCall ht rfl hy hrun l.resolver).2
  obtain ⟨hslot, hfix⟩ := hlive (by decide)
  exact ⟨r, hr, Option.some.inj hsource, by rfl, hstale (by decide), hslot, (hfix ⟨5⟩).1⟩

end TypeStyle
