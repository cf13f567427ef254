-- SUMMARY: Runs of replacements: in every tree of a run no two nodes share an identity, what replaces a slot is new to the run, and references lead in a circle only if they did at first.
import TypeStyle.Proofs.Lint.Judgement
import TypeStyle.Proofs.Tree.Provider

/-! # Runs of replacements

A slot is replaced by a retyping or by a fix. Along a run of replacements the identities of a
tree stay distinct, and each replacement gives out identities that no tree of the run had
before, whatever identities the new type comes with. -/

namespace TypeStyle

/-- The type in the slot of the site `id` is replaced, by a retyping or by a fix. -/
inductive Replacement : SyntaxTree → NodeId → SyntaxTree → Prop where
  | retype {t : SyntaxTree} {id : NodeId} {type : TypeExpr} {r : Retyped} :
      t.retype id type = some r → Replacement t id r.tree
  | fix {t : SyntaxTree} (r : Resolver) {g : Finding} {fix : Fix} :
      r.fix t g = .ok fix → Replacement t g.site fix.tree

/-- The slots of the sites `ids` are replaced one after the other. -/
inductive Replacements : SyntaxTree → List NodeId → SyntaxTree → Prop where
  | refl (t : SyntaxTree) : Replacements t [] t
  | step {t u v : SyntaxTree} {id : NodeId} {ids : List NodeId} :
      Replacement t id u → Replacements u ids v → Replacements t (id :: ids) v

/-- What replacements at the sites `ids` make of a tree: a site among them has a slot with an
    identity that was not given out before, and any other site is as it was. -/
structure Replaced (t : SyntaxTree) (ids : List NodeId) (t' : SyntaxTree) : Prop where
  numbered : t'.Numbered
  supply_le : t.supply.next ≤ t'.supply.next
  fresh : ∀ s, t.site? s.id = some s → s.id ∈ ids →
    ∃ slot, t'.site? s.id = some { s with slot } ∧ t.supply.next ≤ slot.id.raw
  kept : ∀ s, t.site? s.id = some s → s.id ∉ ids → t'.site? s.id = some s

namespace Replaced

variable {t u v : SyntaxTree}

theorem refl (h : t.Numbered) : Replaced t [] t where
  numbered := h
  supply_le := Nat.le_refl _
  fresh := by simp
  kept _ hs _ := hs

theorem trans {ids ids' : List NodeId} (h : Replaced t ids u) (h' : Replaced u ids' v) :
    Replaced t (ids ++ ids') v where
  numbered := h'.numbered
  supply_le := Nat.le_trans h.supply_le h'.supply_le
  fresh s hs hmem := by
    by_cases hlater : s.id ∈ ids'
    · -- Replaced later on: what stood in the slot before that is the same to us.
      obtain ⟨slot, hslot⟩ : ∃ slot, u.site? s.id = some { s with slot } := by
        by_cases hfirst : s.id ∈ ids
        · obtain ⟨slot, hslot, -⟩ := h.fresh s hs hfirst
          exact ⟨slot, hslot⟩
        · exact ⟨s.slot, h.kept s hs hfirst⟩
      obtain ⟨new, hnew, hle⟩ := h'.fresh { s with slot } hslot hlater
      exact ⟨new, hnew, Nat.le_trans h.supply_le hle⟩
    · have hfirst : s.id ∈ ids := (List.mem_append.mp hmem).resolve_right hlater
      obtain ⟨slot, hslot, hle⟩ := h.fresh s hs hfirst
      exact ⟨slot, h'.kept { s with slot } hslot hlater, hle⟩
  kept s hs hnot := by
    rw [List.mem_append, not_or] at hnot
    exact h'.kept s (h.kept s hs hnot.1) hnot.2

theorem of_retypes {s : Site} {type : TypeExpr} {r : Retyped} (h : t.Retypes s type r)
    (hn : t.Numbered) : Replaced t [s.id] r.tree where
  numbered := h.numbered hn
  supply_le := h.supply_le
  fresh x hx hmem := by
    have hid := List.mem_singleton.mp hmem
    rw [hid, h.site] at hx
    cases hx
    exact ⟨r.new, h.site?_self, h.le_id_new⟩
  kept x hx hnot := by
    rw [h.site?_of_ne fun heq => hnot (heq ▸ List.mem_singleton_self _), hx]

end Replaced

/-- Either way the replacement is a retyping. -/
theorem Replacement.retypes {t u : SyntaxTree} {id : NodeId} (h : Replacement t id u) :
    ∃ s type r, s.id = id ∧ t.Retypes s type r ∧ u = r.tree := by
  cases h with
  | retype hretype =>
    obtain ⟨s, hid, hr⟩ := SyntaxTree.retypes_of_retype hretype
    exact ⟨s, _, _, hid, hr, rfl⟩
  | fix r hfix =>
    obtain ⟨s, type, retyped, -, hid, -, hr, htree⟩ := Resolver.retypes_of_fix hfix
    exact ⟨s, type, retyped, hid, hr, htree⟩

theorem Replacement.replaced {t u : SyntaxTree} {id : NodeId} (h : Replacement t id u)
    (hn : t.Numbered) : Replaced t [id] u := by
  obtain ⟨s, type, r, rfl, hr, rfl⟩ := h.retypes
  exact .of_retypes hr hn

theorem Replacements.replaced {t v : SyntaxTree} {ids : List NodeId} (h : Replacements t ids v)
    (hn : t.Numbered) : Replaced t ids v := by
  induction h with
  | refl t => exact .refl hn
  | step hstep _ ih =>
    have hfirst := hstep.replaced hn
    exact hfirst.trans (ih hfirst.numbered)

/-! ## Identities along a run -/

/-- However a draft was put together, and whatever replaced its slots since, the identities of the
    sites, the declarators and all types in the slots are distinct. While the supply has not come
    to the identity of nodes that belong to no tree they are attached, too. Each site is found by
    its identity, and can be retyped: all nodes of the new slot then have identities that no
    tree `u` from earlier in the run had. -/
theorem SyntaxTree.nodeIds_of_replacements {d : Draft} (hd : d.Built) {ids ids' : List NodeId}
    {u t : SyntaxTree} (hu : Replacements d.finish ids u) (ht : Replacements u ids' t)
    (hcount : t.supply.next ≤ NodeId.detached.raw) :
    t.tables.nodeIds.Nodup ∧
      (∀ id ∈ t.tables.nodeIds, id.isAttached = true ∧ id.raw < t.supply.next) ∧
      ∀ s ∈ t.tables.sites, t.site? s.id = some s ∧
        ∀ type, ∃ r, t.retype s.id type = some r ∧
          r.tree.site? s.id = some { s with slot := r.new } ∧
          ∀ id ∈ r.new.ids, id ∉ u.tables.nodeIds := by
  have hnu : u.Numbered := (hu.replaced (Reachable.finish hd).numbered).numbered
  have hafter := ht.replaced hnu
  have hn : t.Numbered := hafter.numbered
  refine ⟨hn.nodup, fun id hid => ?_, fun s hs => ?_⟩
  · have hlt := hn.lt_next id hid
    refine ⟨?_, hlt⟩
    have hne : id ≠ .detached := by
      rintro rfl
      exact absurd hlt (Nat.not_lt.mpr hcount)
    simp [NodeId.isAttached, hne]
  · have hsite : t.site? s.id = some s := Tables.Numbered.site?_eq hn hs
    refine ⟨hsite, fun type => ?_⟩
    obtain ⟨r, hr, hretypes⟩ := exists_retypes hsite type
    refine ⟨r, hr, hretypes.site?_self, fun id hid hold => ?_⟩
    -- What an earlier tree had is below the supply of the later one, and the new slot is not.
    have hlt := Nat.lt_of_lt_of_le (hnu.lt_next id hold) hafter.supply_le
    exact absurd hlt (Nat.not_lt.mpr (hretypes.le_of_mem_new hid))

/-- A type is put into the slot that already has the identities of the tree, and then the old
    slot is put back: both get identities of their own. -/
theorem SyntaxTree.nodeIds_of_replacements_genericPlaceholder :
    let u := Draft.genericPlaceholder.finish
    let type : TypeExpr :=
      .named { id := ⟨0⟩ } none "List" [.array { id := ⟨1⟩ } (.keyword { id := ⟨3⟩ } "int")]
    ∃ r r', u.retype ⟨3⟩ type = some r ∧ r.tree.tables.nodeIds = [⟨0⟩, ⟨4⟩, ⟨5⟩, ⟨6⟩, ⟨3⟩] ∧
      r.tree.retype ⟨3⟩ r.old = some r' ∧ r'.new.ids = [⟨7⟩, ⟨8⟩] ∧
      ∀ id ∈ r'.new.ids, id ∉ u.tables.nodeIds := by
  intro u type
  let r : Retyped := (u.retype ⟨3⟩ type).get (by rfl)
  let x : Site := ⟨⟨3⟩, r.new, .«variables» (.statement false false) [⟨⟨0⟩, "x", some ⟨0⟩⟩]⟩
  have hr : u.retype ⟨3⟩ type = some r := by rfl
  have hx : x ∈ r.tree.tables.sites := List.mem_singleton_self x
  have hrun : Replacements u [⟨3⟩] r.tree := .step (.retype hr) (.refl _)
  obtain ⟨-, -, hsites⟩ := nodeIds_of_replacements Draft.built_genericPlaceholder (.refl u) hrun
    (by decide)
  obtain ⟨r', hr', -, hnew⟩ := (hsites x hx).2 r.old
  have hids : (r.tree.retype ⟨3⟩ r.old).map (fun r' => r'.new.ids) = some [⟨7⟩, ⟨8⟩] := by rfl
  rw [hr'] at hids
  exact ⟨r, r', hr, by rfl, hr', Option.some.inj hids, hnew⟩

/-! ## Layouts along a run -/

/-- What the nodes mention is the same in all trees of a run. -/
theorem Replacements.parts_eq {t v : SyntaxTree} {ids : List NodeId} (h : Replacements t ids v)
    (r : Ref) : v.tables.parts r = t.tables.parts r := by
  induction h with
  | refl t => rfl
  | step hstep _ ih =>
    obtain ⟨s, type, retyped, -, hr, rfl⟩ := hstep.retypes
    rw [ih, hr.tables, Tables.parts_setSlot]

/-- A provider that passes on only nodes it was given, whether expressions or sites of any shape
    and each as often as it likes, makes trees in which no way through the nodes goes on
    forever, and neither does one after any replacements. So all of these can be laid out. -/
theorem SyntaxTree.hasPage_of_provided {known : List Ref} {d : Draft} (hd : d.Provided known)
    {ids : List NodeId} {t : SyntaxTree} (ht : Replacements d.finish ids t) :
    WellFounded (fun q r => q ∈ t.tables.parts r) ∧ t.HasPage := by
  have hparts : t.tables.parts = d.tables.parts := funext ht.parts_eq
  have hgrounded : ∀ r, t.tables.Grounded r := by
    intro r
    rw [Tables.Grounded, hparts]
    exact hd.orderly.2.grounded r
  exact ⟨⟨hgrounded⟩, hasPage_iff.mpr fun r _ => hgrounded r⟩

/-- The site of `x` is written as a declaration and as an argument, and retyped in both places. -/
theorem SyntaxTree.hasPage_of_provided_sharedNodes :
    let t := Draft.sharedNodes.finish
    t.source = "var x = f(out var z);\nf(f(out var z), var x = f(out var z));\n" ∧
      ∃ r, t.retype ⟨4⟩ (.keyword {} "int") = some r ∧
        WellFounded (fun q r' => q ∈ r.tree.tables.parts r') ∧ r.tree.HasPage ∧
        r.tree.source = "int x = f(out var z);\nf(f(out var z), int x = f(out var z));\n" := by
  intro t
  obtain ⟨known, hknown⟩ := Draft.provided_sharedNodes
  let r : Retyped := (t.retype ⟨4⟩ (.keyword {} "int")).get (by rfl)
  have hr : t.retype ⟨4⟩ (.keyword {} "int") = some r := by rfl
  have hrun : Replacements t [⟨4⟩] r.tree := .step (.retype hr) (.refl _)
  obtain ⟨hwf, hpage⟩ := hasPage_of_provided hknown hrun
  exact ⟨by decide +kernel, r, hr, hwf, hpage, by decide +kernel⟩

end TypeStyle
