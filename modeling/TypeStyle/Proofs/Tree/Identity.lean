-- SUMMARY: No two nodes of a tree share an identity, and an identity that was given out is never given out again.
import Mathlib.Data.List.Nodup
import Mathlib.Data.List.Pairwise
import TypeStyle.Proofs.Tree.Retype
import TypeStyle.Proofs.Tree.Run

/-! # Identities

The identities of a tree are pairwise distinct and below its supply. A draft keeps
more: its identities are exactly those given out so far, in order. A retyping takes
the identities of one slot away and gives it fresh ones. -/

namespace TypeStyle

/-! ## The supply -/

namespace NodeSupply

/-- The identities given out between two states of a supply. -/
def between (s s' : NodeSupply) : List NodeId :=
  (List.range' s.next (s'.next - s.next)).map NodeId.mk

@[simp] theorem between_self (s : NodeSupply) : between s s = [] := by
  simp [between]

theorem between_append {s s' s'' : NodeSupply} (h : s.next ≤ s'.next) (h' : s'.next ≤ s''.next) :
    between s s' ++ between s' s'' = between s s'' := by
  have hmid : s'.next = s.next + (s'.next - s.next) := by omega
  have hlen : s''.next - s.next = (s'.next - s.next) + (s''.next - s'.next) := by omega
  rw [between, between, between, ← List.map_append, hlen, ← List.range'_append_1, ← hmid]

theorem between_fresh (s : NodeSupply) : between s s.fresh.2 = [s.fresh.1] := by
  simp [between, fresh]

theorem le_fresh (s : NodeSupply) : s.next ≤ s.fresh.2.next := Nat.le_succ _

/-- The next identity and then all those after it. -/
theorem cons_between {s s' : NodeSupply} (h : s.fresh.2.next ≤ s'.next) :
    s.fresh.1 :: between s.fresh.2 s' = between s s' := by
  rw [← between_append s.le_fresh h, between_fresh]
  rfl

theorem mem_between {s s' : NodeSupply} {id : NodeId} :
    id ∈ between s s' ↔ s.next ≤ id.raw ∧ id.raw < s'.next := by
  obtain ⟨raw⟩ := id
  simp only [between, List.mem_map, List.mem_range'_1, NodeId.mk.injEq, exists_eq_right]
  omega

theorem nodup_between (s s' : NodeSupply) : (between s s').Nodup :=
  List.Pairwise.map _ (fun _ _ hne h => hne (NodeId.mk.inj h)) List.nodup_range'

end NodeSupply

open NodeSupply (between)

/-! ## Giving out identities -/

namespace TypeExpr

mutual

/-- Attaching a type gives its nodes the next identities, in order. -/
theorem ids_attach (t : TypeExpr) (s : NodeSupply) :
    s.fresh.2.next ≤ (t.attach s).2.next ∧ (t.attach s).1.ids = between s (t.attach s).2 := by
  cases t with
  | implicit info => exact ⟨Nat.le_refl _, by simp [attach, ids, NodeSupply.between_fresh]⟩
  | keyword info name => exact ⟨Nat.le_refl _, by simp [attach, ids, NodeSupply.between_fresh]⟩
  | named info qualifier name args =>
    obtain ⟨hle, hids⟩ := ids_attachList args s.fresh.2
    refine ⟨hle, ?_⟩
    simp only [attach, ids, hids]
    exact NodeSupply.cons_between hle
  | array info element =>
    obtain ⟨hlt, hids⟩ := ids_attach element s.fresh.2
    have hle := Nat.le_trans (NodeSupply.le_fresh _) hlt
    refine ⟨hle, ?_⟩
    simp only [attach, ids, hids]
    exact NodeSupply.cons_between hle
  | nullable info inner =>
    obtain ⟨hlt, hids⟩ := ids_attach inner s.fresh.2
    have hle := Nat.le_trans (NodeSupply.le_fresh _) hlt
    refine ⟨hle, ?_⟩
    simp only [attach, ids, hids]
    exact NodeSupply.cons_between hle
  | tuple info elements =>
    obtain ⟨hle, hids⟩ := ids_attachList elements s.fresh.2
    refine ⟨hle, ?_⟩
    simp only [attach, ids, hids]
    exact NodeSupply.cons_between hle

theorem ids_attachList (ts : List TypeExpr) (s : NodeSupply) :
    s.next ≤ (attachList ts s).2.next ∧ idsList (attachList ts s).1 = between s (attachList ts s).2 := by
  match ts with
  | [] => simp [attachList, idsList]
  | t :: ts =>
    obtain ⟨hlt, hids⟩ := ids_attach t s
    obtain ⟨hle, hidsList⟩ := ids_attachList ts (t.attach s).2
    have hle' := Nat.le_trans s.le_fresh hlt
    refine ⟨Nat.le_trans hle' hle, ?_⟩
    simp only [attachList, idsList, hids, hidsList]
    exact NodeSupply.between_append hle' hle

end

theorem le_attach (t : TypeExpr) (s : NodeSupply) : s.next ≤ (t.attach s).2.next :=
  Nat.le_trans s.le_fresh (t.ids_attach s).1

theorem id_mem_ids (t : TypeExpr) : t.id ∈ t.ids := by
  cases t <;> simp [id, info, ids]

/-- Changing what a node carries, but not its identity, keeps all identities. -/
theorem ids_withInfo {t : TypeExpr} {info : NodeInfo} (h : info.id = t.info.id) :
    (t.withInfo info).ids = t.ids := by
  cases t <;> simp_all [withInfo, ids, TypeExpr.info]

@[simp] theorem ids_spacedAfter (t : TypeExpr) : t.spacedAfter.ids = t.ids := by
  unfold spacedAfter
  split
  · exact ids_withInfo rfl
  · rfl

end TypeExpr

theorem Draft.ids_freshDeclarators (vars : List (String × Option ExprId)) (s : NodeSupply) :
    s.next ≤ (freshDeclarators vars s).2.next ∧
      (freshDeclarators vars s).1.map Declarator.id =
        between s (freshDeclarators vars s).2 := by
  induction vars generalizing s with
  | nil => simp [freshDeclarators]
  | cons v vars ih =>
    obtain ⟨hle, hids⟩ := ih s.fresh.2
    refine ⟨Nat.le_trans s.le_fresh hle, ?_⟩
    simp only [freshDeclarators, List.map_cons, hids]
    exact NodeSupply.cons_between hle

/-! ## The identities of a tree -/

/-- The identities of a site in the order in which a draft gives them out: its
    declarators, the types in its slot, and the site. -/
def Site.nodeIds (s : Site) : List NodeId :=
  s.shape.declaratorIds ++ s.slot.ids ++ [s.id]

theorem Site.id_mem_nodeIds (s : Site) : s.id ∈ s.nodeIds := by
  simp [nodeIds]

theorem Site.slotId_mem_nodeIds (s : Site) : s.slot.id ∈ s.nodeIds := by
  simp [nodeIds, s.slot.id_mem_ids]

def Tables.nodeIds (t : Tables) : List NodeId := t.sites.flatMap Site.nodeIds

/-- No two nodes share an identity, and the supply has given out all of them. -/
structure Tables.Numbered (t : Tables) (supply : NodeSupply) : Prop where
  nodup : t.nodeIds.Nodup
  lt_next : ∀ id ∈ t.nodeIds, id.raw < supply.next

namespace Draft

/-- The identities of a draft are exactly those given out so far. -/
def Numbered (d : Draft) : Prop :=
  d.tables.nodeIds = between .initial d.supply

theorem tables_push (d : Draft) (stmt : Stmt) :
    (d.push stmt).tables = d.tables ∧ (d.push stmt).supply = d.supply := by
  unfold push
  split <;> exact ⟨rfl, rfl⟩

theorem tables_closeBody (d : Draft) :
    d.closeBody.tables = d.tables ∧ d.closeBody.supply = d.supply := by
  unfold closeBody
  split
  · exact ⟨rfl, rfl⟩
  · exact tables_push _ _

theorem tables_abandonBody (d : Draft) :
    d.abandonBody.tables = d.tables ∧ d.abandonBody.supply = d.supply := by
  unfold abandonBody
  split <;> exact ⟨rfl, rfl⟩

theorem le_addSite (d : Draft) (type : TypeExpr) (shape : Shape) :
    d.supply.next ≤ (d.addSite type shape).2.supply.next :=
  Nat.le_trans (type.le_attach d.supply) (NodeSupply.le_fresh _)

/-- A new site takes the next identities after those of its declarators. -/
theorem nodeIds_addSite {d : Draft} {s₀ : NodeSupply} {shape : Shape} (type : TypeExpr)
    (hle : s₀.next ≤ d.supply.next) (hshape : shape.declaratorIds = between s₀ d.supply) :
    (d.addSite type shape).2.tables.nodeIds =
      d.tables.nodeIds ++ between s₀ (d.addSite type shape).2.supply := by
  let s := (type.attach d.supply).2
  have hnew : (addSite d type shape).2.supply = s.fresh.2 := rfl
  have hsite : (addSite d type shape).2.tables.nodeIds =
      d.tables.nodeIds ++ (between s₀ d.supply ++ between d.supply s ++ [s.fresh.1]) := by
    simp [addSite, Tables.nodeIds, Site.nodeIds, hshape, (type.ids_attach d.supply).2, s]
  have hle' : s₀.next ≤ s.next := Nat.le_trans hle (type.le_attach d.supply)
  rw [hsite, hnew, ← NodeSupply.between_fresh,
    NodeSupply.between_append hle (type.le_attach d.supply),
    NodeSupply.between_append hle' s.le_fresh]

theorem Numbered.addSite {d : Draft} (h : d.Numbered) (type : TypeExpr) {shape : Shape}
    (hshape : shape.declaratorIds = []) : (d.addSite type shape).2.Numbered := by
  unfold Numbered at h ⊢
  rw [nodeIds_addSite type (Nat.le_refl _) (by simpa using hshape), h]
  exact NodeSupply.between_append (Nat.zero_le _) (le_addSite d type shape)

theorem Numbered.declare {d : Draft} (h : d.Numbered) (holder : Holder) (type : TypeExpr)
    (vars : List (String × Option ExprId)) : (d.declare holder type vars).2.Numbered := by
  obtain ⟨hle, hids⟩ := ids_freshDeclarators vars d.supply
  let d₁ : Draft := { d with supply := (freshDeclarators vars d.supply).2 }
  let shape : Shape := .«variables» holder (freshDeclarators vars d.supply).1
  have hnew : (d₁.addSite type shape).2.tables.nodeIds =
      d.tables.nodeIds ++ between d.supply (d₁.addSite type shape).2.supply :=
    nodeIds_addSite (d := d₁) type hle hids
  have hdeclare : (d.declare holder type vars).2 =
      (d₁.addSite type shape).2.push (.declaration (d₁.addSite type shape).1) := rfl
  unfold Numbered at h ⊢
  rw [hdeclare, (tables_push _ _).1, (tables_push _ _).2, hnew, h]
  exact NodeSupply.between_append (Nat.zero_le _) (Nat.le_trans hle (le_addSite d₁ type shape))

theorem Numbered.of_tables {d d' : Draft} (h : d.Numbered)
    (heq : d'.tables = d.tables ∧ d'.supply = d.supply) : d'.Numbered := by
  unfold Numbered at h ⊢
  rw [heq.1, heq.2, h]

/-- Each call gives out the identities of what it adds, and no others. -/
theorem Numbered.call {d d' : Draft} (h : d.Numbered) (hcall : Call d d') : d'.Numbered := by
  cases hcall with
  | usingNamespace name => exact h.of_tables (tables_push _ _)
  | statement e => exact h.of_tables (tables_push _ _)
  | openClass name typeParams => exact h.of_tables ⟨rfl, rfl⟩
  | openMethod returns name => exact h.of_tables ⟨rfl, rfl⟩
  | openBranch condition => exact h.of_tables ⟨rfl, rfl⟩
  | openLoop type name collection => exact (h.addSite type rfl).of_tables ⟨rfl, rfl⟩
  | openPatternLoop type parts collection => exact (h.addSite type rfl).of_tables ⟨rfl, rfl⟩
  | closeBody => exact h.of_tables (tables_closeBody d)
  | abandonBody => exact h.of_tables (tables_abandonBody d)
  | declare holder type vars => exact h.declare holder type vars
  | deconstruct type parts value => exact (h.addSite type rfl).of_tables (tables_push _ _)
  | addExpr e => exact h
  | addOutArg type name => exact h.addSite type rfl

theorem Built.numbered {d : Draft} (h : d.Built) : d.Numbered := by
  induction h with
  | empty => rfl
  | call _ hcall ih => exact ih.call hcall

end Draft

/-! ## Distinct identities -/

/-- Lists without common elements stay so if each element of a new list was in the
    old one, or is new altogether and belongs to one fixed place. -/
theorem nodup_flatMap_of_update {α β : Type} {f g : α → List β} {l : List α} {x : α}
    (h : (l.flatMap f).Nodup) (hx : f x ≠ []) (hg : ∀ y ∈ l, (g y).Nodup)
    (hsub : ∀ y ∈ l, ∀ b ∈ g y, b ∈ f y ∨ (y = x ∧ b ∉ l.flatMap f)) :
    (l.flatMap g).Nodup := by
  refine List.nodup_flatMap.mpr ⟨hg, List.Pairwise.imp_of_mem ?_ (List.nodup_flatMap.mp h).2⟩
  intro y z hy hz hdisjoint b hby hbz
  rcases hsub y hy b hby with hfy | ⟨hyx, hnew⟩
  · rcases hsub z hz b hbz with hfz | ⟨_, hnew⟩
    · exact hdisjoint hfy hfz
    · exact hnew (List.mem_flatMap.mpr ⟨y, hy, hfy⟩)
  · rcases hsub z hz b hbz with hfz | ⟨hzx, _⟩
    · exact hnew (List.mem_flatMap.mpr ⟨z, hz, hfz⟩)
    · subst hyx hzx
      obtain ⟨c, hc⟩ := List.exists_mem_of_ne_nil _ hx
      exact hdisjoint hc hc

namespace Site

/-- A site with another slot has the identities it had, or those of the new slot. -/
theorem mem_nodeIds_slot {s : Site} {slot : TypeExpr} {id : NodeId}
    (h : id ∈ { s with slot }.nodeIds) : id ∈ s.nodeIds ∨ id ∈ slot.ids := by
  simp only [nodeIds, List.mem_append] at h ⊢
  rcases h with (h | h) | h
  · exact .inl (.inl (.inl h))
  · exact .inr h
  · exact .inl (.inr h)

theorem nodup_nodeIds_slot {s : Site} {slot : TypeExpr} (h : s.nodeIds.Nodup) (hslot : slot.ids.Nodup)
    (hfresh : ∀ id ∈ s.nodeIds, id ∉ slot.ids) : { s with slot }.nodeIds.Nodup := by
  have hdecl : ∀ id ∈ s.shape.declaratorIds, id ∉ slot.ids :=
    fun id hid => hfresh id (by simp [nodeIds, hid])
  have hself : s.id ∉ slot.ids := hfresh _ s.id_mem_nodeIds
  simp only [nodeIds, List.append_assoc, List.nodup_append, List.mem_append, List.mem_singleton] at h ⊢
  obtain ⟨hd, ⟨_, hone, _⟩, hdisjoint⟩ := h
  refine ⟨hd, ⟨hslot, hone, ?_⟩, ?_⟩
  · intro a ha b hb hab
    subst hab hb
    exact hself ha
  · intro a ha b hb hab
    subst hab
    rcases hb with hb | rfl
    · exact hdecl a ha hb
    · exact hdisjoint s.id ha s.id (.inr rfl) rfl

end Site

namespace Tables.Numbered

variable {t : Tables} {supply : NodeSupply}

theorem nodup_site (h : t.Numbered supply) {s : Site} (hs : s ∈ t.sites) : s.nodeIds.Nodup :=
  (List.nodup_flatMap.mp h.nodup).1 s hs

/-- An identity belongs to one site. -/
theorem eq_of_mem (h : t.Numbered supply) {s s' : Site} {id : NodeId} (hs : s ∈ t.sites)
    (hs' : s' ∈ t.sites) (hid : id ∈ s.nodeIds) (hid' : id ∈ s'.nodeIds) : s = s' := by
  by_contra hne
  have : Std.Symm (Function.onFun List.Disjoint Site.nodeIds) :=
    ⟨fun _ _ hd => List.disjoint_symm hd⟩
  exact (List.nodup_flatMap.mp h.nodup).2.forall hs hs' hne hid hid'

theorem site?_eq (h : t.Numbered supply) {s : Site} (hs : s ∈ t.sites) : t.site? s.id = some s := by
  have hsome : (t.site? s.id).isSome = true := by
    rw [site?, List.find?_isSome]
    exact ⟨s, hs, by simp⟩
  obtain ⟨s', hs'⟩ := Option.isSome_iff_exists.mp hsome
  have hid : s.id ∈ s'.nodeIds := by
    rw [← id_of_site? hs']
    exact s'.id_mem_nodeIds
  rw [hs', h.eq_of_mem (mem_of_site? hs') hs hid s.id_mem_nodeIds]

theorem slot_lt_next (h : t.Numbered supply) {s : Site} (hs : s ∈ t.sites) :
    s.slot.id.raw < supply.next :=
  h.lt_next _ (List.mem_flatMap.mpr ⟨s, hs, s.slotId_mem_nodeIds⟩)

/-- A site has the identities that it had, or it is the retyped one and has those of
    the new slot. -/
theorem mem_nodeIds_retyped (h : t.Numbered supply) {s s' : Site} (hs : s ∈ t.sites)
    (hs' : s' ∈ t.sites) {slot : TypeExpr} {id : NodeId} (hid : id ∈ (s'.retyped s.id slot).nodeIds) :
    id ∈ s'.nodeIds ∨ (s' = s ∧ id ∈ slot.ids) := by
  unfold Site.retyped at hid
  split at hid
  · next heq =>
    have hsame : s' = s := h.eq_of_mem hs' hs s'.id_mem_nodeIds (heq ▸ s.id_mem_nodeIds)
    exact (Site.mem_nodeIds_slot hid).imp_right fun hid => ⟨hsame, hid⟩
  · exact .inl hid

theorem nodup_nodeIds_retyped (h : t.Numbered supply) {s : Site} (hs : s ∈ t.sites) {id : NodeId}
    {slot : TypeExpr} (hslot : slot.ids.Nodup) (hfresh : ∀ id ∈ t.nodeIds, id ∉ slot.ids) :
    (s.retyped id slot).nodeIds.Nodup := by
  unfold Site.retyped
  split
  · apply Site.nodup_nodeIds_slot (h.nodup_site hs) hslot
    exact fun id hid => hfresh id (List.mem_flatMap.mpr ⟨s, hs, hid⟩)
  · exact h.nodup_site hs

/-- Putting a type with fresh identities into the slot of one site keeps all
    identities distinct. -/
theorem setSlot (h : t.Numbered supply) {supply' : NodeSupply} {s : Site} {slot : TypeExpr}
    (hs : s ∈ t.sites) (hids : slot.ids = between supply supply') (hle : supply.next ≤ supply'.next) :
    (t.setSlot s.id slot).Numbered supply' := by
  have hall : (t.setSlot s.id slot).nodeIds =
      t.sites.flatMap fun s' => (s'.retyped s.id slot).nodeIds := by
    rw [nodeIds, sites_setSlot, List.flatMap_map]
  have hfresh : ∀ id ∈ t.nodeIds, id ∉ slot.ids := by
    intro id hid hslot
    rw [hids, NodeSupply.mem_between] at hslot
    exact absurd (h.lt_next id hid) (Nat.not_lt.mpr hslot.1)
  constructor
  · have hslot : slot.ids.Nodup := by
      rw [hids]
      exact NodeSupply.nodup_between _ _
    rw [hall]
    apply nodup_flatMap_of_update h.nodup (List.ne_nil_of_mem s.id_mem_nodeIds)
    · intro s' hs'
      exact h.nodup_nodeIds_retyped hs' hslot hfresh
    · intro s' hs' id hid
      apply (h.mem_nodeIds_retyped hs hs' hid).imp_right
      rintro ⟨heq, hslot⟩
      exact ⟨heq, fun hold => hfresh id hold hslot⟩
  · intro id hid
    rw [hall, List.mem_flatMap] at hid
    obtain ⟨s', hs', hid⟩ := hid
    rcases h.mem_nodeIds_retyped hs hs' hid with hid | ⟨_, hid⟩
    · exact Nat.lt_of_lt_of_le (h.lt_next id (List.mem_flatMap.mpr ⟨s', hs', hid⟩)) hle
    · rw [hids, NodeSupply.mem_between] at hid
      exact hid.2

end Tables.Numbered

namespace SyntaxTree

/-- No two nodes of the tree share an identity, and all are below its supply. -/
def Numbered (t : SyntaxTree) : Prop := t.tables.Numbered t.supply

/-- The nodes of the new slot have the identities that the retyping gives out. -/
theorem Retypes.ids_new {t : SyntaxTree} {s : Site} {type : TypeExpr} {r : Retyped}
    (h : t.Retypes s type r) : r.new.ids = between t.supply r.tree.supply := by
  rw [h.supply, h.new]
  exact ((type.withTriviaOf s.slot).ids_attach t.supply).2

theorem Retypes.supply_le {t : SyntaxTree} {s : Site} {type : TypeExpr} {r : Retyped}
    (h : t.Retypes s type r) : t.supply.next ≤ r.tree.supply.next := by
  rw [h.supply]
  exact TypeExpr.le_attach _ _

theorem Retypes.numbered {t : SyntaxTree} {s : Site} {type : TypeExpr} {r : Retyped}
    (h : t.Retypes s type r) (hn : t.Numbered) : r.tree.Numbered := by
  unfold Numbered
  rw [h.tables]
  exact Tables.Numbered.setSlot hn (Tables.mem_of_site? h.site) h.ids_new h.supply_le

/-- The nodes of the new slot have identities that were not given out before. -/
theorem Retypes.le_of_mem_new {t : SyntaxTree} {s : Site} {type : TypeExpr} {r : Retyped}
    (h : t.Retypes s type r) {id : NodeId} (hid : id ∈ r.new.ids) : t.supply.next ≤ id.raw := by
  rw [h.ids_new, NodeSupply.mem_between] at hid
  exact hid.1

theorem Retypes.le_id_new {t : SyntaxTree} {s : Site} {type : TypeExpr} {r : Retyped}
    (h : t.Retypes s type r) : t.supply.next ≤ r.new.id.raw :=
  h.le_of_mem_new r.new.id_mem_ids

theorem Retypes.id_new_not_mem {t : SyntaxTree} {s : Site} {type : TypeExpr} {r : Retyped}
    (h : t.Retypes s type r) (hn : t.Numbered) : r.new.id ∉ t.tables.nodeIds := by
  intro hmem
  exact absurd h.le_id_new (Nat.not_le.mpr (hn.lt_next _ hmem))

theorem Reachable.numbered {t : SyntaxTree} (h : t.Reachable) : t.Numbered := by
  induction h with
  | finish hd =>
    have hids := hd.numbered
    unfold Draft.Numbered at hids
    refine ⟨?_, ?_⟩
    · rw [Draft.finish, hids]
      exact NodeSupply.nodup_between _ _
    · intro id hid
      rw [Draft.finish, hids, NodeSupply.mem_between] at hid
      exact hid.2
  | retype _ hr ih =>
    obtain ⟨s, _, hretypes⟩ := retypes_of_retype hr
    exact hretypes.numbered ih

end SyntaxTree

end TypeStyle
