-- SUMMARY: Retyping overwrites, can be taken back, and at different sites can be done in either order.
import TypeStyle.Proofs.Tree.Likeness
import TypeStyle.Proofs.Tree.Splice

/-! # The laws of retyping

The trivia of a slot stay with the slot, whatever type is put into it. So but for identities
a retyped site is a matter of the new type and the trivia alone (`Retypes.site?_withoutSlotIds`), and
two runs of retypings that leave the same types in the slots leave trees that are alike. How a
type is laid out does not matter: a tuple type may be distributed over a pattern, and the
type that takes its place need not be. -/

namespace TypeStyle

namespace TypeExpr

variable {t a b : TypeExpr}

theorem withTriviaOf_congr (hleading : a.info.leading = b.info.leading)
    (htrailing : a.info.trailing = b.info.trailing) : t.withTriviaOf a = t.withTriviaOf b := by
  rw [withTriviaOf, hleading, htrailing, withTriviaOf]

theorem withTriviaOf_eq_self (hleading : a.info.leading = t.info.leading)
    (htrailing : a.info.trailing = t.info.trailing) : t.withTriviaOf a = t := by
  rw [withTriviaOf, hleading, htrailing]
  cases t <;> rfl

end TypeExpr

namespace SyntaxTree

variable {t : SyntaxTree} {s u : Site} {type type' : TypeExpr} {r r' q q' : Retyped}

namespace Retypes

/-- The sites of a retyped tree, but for the identities in the slots. -/
theorem site?_withoutSlotIds (h : t.Retypes s type r) (id : NodeId) :
    (r.tree.site? id).map Site.withoutSlotIds =
      if id = s.id then some { s with slot := type.withTriviaOf s.slot }.withoutSlotIds
      else (t.site? id).map Site.withoutSlotIds := by
  split
  · next hid => rw [hid, h.site?_self, Option.map_some, h.withoutSlotIds_new]
  · next hid => rw [h.site?_of_ne hid]

/-- Of two types put into a slot the second one counts. -/
theorem alike_overwrite (h : t.Retypes s type r)
    (h' : r.tree.Retypes { s with slot := r.new } type' r') (hq : t.Retypes s type' q) :
    q.tree.Alike r'.tree where
  items := by rw [h'.items, h.items, hq.items]
  exprs := by rw [h'.exprs, h.exprs, hq.exprs]
  size := by rw [h'.size, h.size, hq.size]
  sites id := by
    obtain ⟨hleading, htrailing⟩ := h.trivia_new
    have hslot : type'.withTriviaOf r.new = type'.withTriviaOf s.slot :=
      TypeExpr.withTriviaOf_congr hleading htrailing
    rw [h'.site?_withoutSlotIds, hq.site?_withoutSlotIds]
    dsimp only
    split
    · rw [hslot]
    · next hid => rw [h.site?_of_ne hid]

/-- The slot that was replaced, put back, leaves the tree as it was. -/
theorem alike_back (h : t.Retypes s type r)
    (h' : r.tree.Retypes { s with slot := r.new } r.old r') : t.Alike r'.tree where
  items := by rw [h'.items, h.items]
  exprs := by rw [h'.exprs, h.exprs]
  size := by rw [h'.size, h.size]
  sites id := by
    obtain ⟨hleading, htrailing⟩ := h.trivia_new
    have hslot : s.slot.withTriviaOf r.new = s.slot :=
      TypeExpr.withTriviaOf_eq_self hleading htrailing
    rw [h'.site?_withoutSlotIds]
    dsimp only
    split
    · next hid => rw [hid, h.site, h.old, hslot, Option.map_some]
    · next hid => rw [h.site?_of_ne hid]

/-- Different sites can be retyped in either order. -/
theorem alike_swap (hne : u.id ≠ s.id) (h : t.Retypes s type r) (h' : r.tree.Retypes u type' r')
    (hq : t.Retypes u type' q) (hq' : q.tree.Retypes s type q') : q'.tree.Alike r'.tree where
  items := by rw [h'.items, h.items, hq'.items, hq.items]
  exprs := by rw [h'.exprs, h.exprs, hq'.exprs, hq.exprs]
  size := by rw [h'.size, h.size, hq'.size, hq.size]
  sites id := by
    rw [h'.site?_withoutSlotIds, h.site?_withoutSlotIds, hq'.site?_withoutSlotIds, hq.site?_withoutSlotIds]
    by_cases hid : id = u.id
    · rw [if_pos hid, if_neg (hid ▸ hne), if_pos hid]
    · rw [if_neg hid, if_neg hid]

/-- A retyped site can be retyped again. -/
theorem exists_again (h : t.Retypes s type r) (type' : TypeExpr) :
    ∃ r', r.tree.retype s.id type' = some r' ∧
      r.tree.Retypes { s with slot := r.new } type' r' :=
  exists_retypes (s := { s with slot := r.new }) h.site?_self type'

end Retypes

/-- Sites and declarators of alike trees are in the same places. -/
theorem Alike.spanOf_site {t' : SyntaxTree} (h : t.Alike t') (hn : t.Numbered) (hn' : t'.Numbered)
    (hs : t.site? s.id = some s) {id : NodeId} (hid : id = s.id ∨ id ∈ s.shape.declaratorIds) :
    t'.spanOf id = t.spanOf id := by
  obtain ⟨s', hs', hsame, hshape⟩ := h.exists_site hs
  have hid' : id = s'.id ∨ id ∈ s'.shape.declaratorIds := by rwa [hsame, hshape]
  exact h.spanOf_eq (hn.slot_not_mem_marks hs hid) (hn'.slot_not_mem_marks hs' hid')

/-- Retyping a site by `X` and then by `Y` puts `Y` there, and gives the same source as retyping
    it by `Y`. Retyping it by `X` and then by the slot that was replaced gives back the source, the
    places of all sites, declarators and expressions, and the faults. Retyping two sites gives the
    same source in either order. All of these retypings succeed. -/
theorem retype_laws (ht : t.Reachable) (hs : t.site? s.id = some s) (X Y : TypeExpr) :
    (∃ x xy y, t.retype s.id X = some x ∧ x.tree.retype s.id Y = some xy ∧
      t.retype s.id Y = some y ∧ xy.tree.source = y.tree.source ∧
      xy.tree.site? s.id = some { s with slot := xy.new } ∧ xy.new.text = Y.text) ∧
    (∃ x back, t.retype s.id X = some x ∧ x.tree.retype s.id x.old = some back ∧
      back.tree.source = t.source ∧
      (∀ z ∈ t.tables.sites, ∀ id, id = z.id ∨ id ∈ z.shape.declaratorIds →
        back.tree.spanOf id = t.spanOf id) ∧
      (∀ e, back.tree.exprSpan e = t.exprSpan e) ∧ back.tree.faults = t.faults) ∧
    ∀ u, t.site? u.id = some u → u.id ≠ s.id →
      ∃ x xy y yx, t.retype s.id X = some x ∧ x.tree.retype u.id Y = some xy ∧
        t.retype u.id Y = some y ∧ y.tree.retype s.id X = some yx ∧
        xy.tree.source = yx.tree.source := by
  have hn := ht.numbered
  obtain ⟨x, hx, hX⟩ := exists_retypes hs X
  refine ⟨?_, ?_, fun u hu hne => ?_⟩
  · obtain ⟨xy, hxy, hXY⟩ := hX.exists_again Y
    obtain ⟨y, hy, hY⟩ := exists_retypes hs Y
    exact ⟨x, xy, y, hx, hxy, hy, (hX.alike_overwrite hXY hY).source_eq, hXY.site?_self,
      hXY.text_new⟩
  · obtain ⟨back, hback, hBack⟩ := hX.exists_again x.old
    have halike := hX.alike_back hBack
    have hn' : back.tree.Numbered := hBack.numbered (hX.numbered hn)
    refine ⟨x, back, hx, hback, halike.source_eq, ?_, halike.exprSpan_eq, halike.faults_eq⟩
    intro z hz id hid
    exact halike.spanOf_site hn hn' (Tables.Numbered.site?_eq hn hz) hid
  · have hu' : x.tree.site? u.id = some u := by rw [hX.site?_of_ne hne, hu]
    obtain ⟨xy, hxy, hXY⟩ := exists_retypes hu' Y
    obtain ⟨y, hy, hY⟩ := exists_retypes hu Y
    have hs' : y.tree.site? s.id = some s := by rw [hY.site?_of_ne hne.symm, hs]
    obtain ⟨yx, hyx, hYX⟩ := exists_retypes hs' X
    exact ⟨x, xy, y, yx, hx, hxy, hy, hyx, (hX.alike_swap hne hXY hY hYX).source_eq⟩

end SyntaxTree

namespace Draft

/-- The draft of `(int a, int b) = p;` with a comment before the pattern and, on the next
    line, `int x = 1;`. -/
def patternAndLocal : Draft :=
  let type : TypeExpr :=
    .tuple { leading := [.blockComment "/*c*/"] } [.keyword {} "int", .keyword {} "int"]
  let d := (empty.addExpr (.ident "p")).2
  let d := (d.deconstruct type (.ofNames ["a", "b"]) ⟨0⟩).2
  let d := (d.addExpr (.number "1")).2
  (d.declare (.statement false false) (.keyword {} "int") [("x", some ⟨1⟩)]).2

theorem built_patternAndLocal : patternAndLocal.Built := by
  have hvalue := Built.empty.call (.addExpr _ (.ident "p"))
  have hpattern := hvalue.call (.deconstruct _
    (.tuple { leading := [.blockComment "/*c*/"] } [.keyword {} "int", .keyword {} "int"])
    (.ofNames ["a", "b"]) ⟨0⟩)
  have hnumber := hpattern.call (.addExpr _ (.number "1"))
  exact hnumber.call (.declare _ (.statement false false) (.keyword {} "int") [("x", some ⟨1⟩)])

end Draft

namespace SyntaxTree

/-- The tuple type is distributed over the pattern, `var` is not, and the tuple type that comes
    next is again. The comment stays throughout. -/
theorem retype_laws_patternAndLocal :
    let t := Draft.patternAndLocal.finish
    let X : TypeExpr := .implicit {}
    let Y : TypeExpr := .tuple {} [.keyword {} "string", .implicit {}]
    t.source = "/*c*/(int a, int b) = p;\nint x = 1;\n" ∧
      ∃ x xy back y z xz zx, t.retype ⟨3⟩ X = some x ∧
        x.tree.source = "/*c*/var (a, b) = p;\nint x = 1;\n" ∧
        x.tree.retype ⟨3⟩ Y = some xy ∧ t.retype ⟨3⟩ Y = some y ∧
        xy.tree.source = y.tree.source ∧
        y.tree.source = "/*c*/(string a, var b) = p;\nint x = 1;\n" ∧
        x.tree.retype ⟨3⟩ x.old = some back ∧ back.tree.source = t.source ∧
        back.tree.spanOf ⟨4⟩ = t.spanOf ⟨4⟩ ∧ x.tree.retype ⟨6⟩ Y = some xz ∧
        t.retype ⟨6⟩ Y = some z ∧ z.tree.retype ⟨3⟩ X = some zx ∧
        xz.tree.source = zx.tree.source := by
  intro t X Y
  let parts : Pattern := .group [.single "a", .single "b"]
  let slot : TypeExpr := .tuple
    { id := ⟨0⟩, leading := [.blockComment "/*c*/"], trailing := [.space] }
    [.keyword { id := ⟨1⟩ } "int", .keyword { id := ⟨2⟩ } "int"]
  let s : Site := ⟨⟨3⟩, slot, .pattern parts⟩
  let u : Site := ⟨⟨6⟩, .keyword { id := ⟨5⟩, trailing := [.space] } "int",
    .«variables» (.statement false false) [⟨⟨4⟩, "x", some ⟨1⟩⟩]⟩
  have hs : t.site? s.id = some s := by rfl
  have hu : t.site? u.id = some u := by rfl
  obtain ⟨⟨x, xy, y, hx, hxy, hy, hover, -⟩, ⟨_, back, hx', hback, hsource, hspan, -⟩, hswap⟩ :=
    retype_laws (.finish Draft.built_patternAndLocal) hs X Y
  obtain rfl := Option.some.inj (hx.symm.trans hx')
  obtain ⟨_, xz, z, zx, hx', hxz, hz, hzx, hswapped⟩ := hswap u hu (by decide)
  obtain rfl := Option.some.inj (hx.symm.trans hx')
  have hxsource : (t.retype ⟨3⟩ X).map (fun r => r.tree.source) =
      some "/*c*/var (a, b) = p;\nint x = 1;\n" := by rfl
  have hysource : (t.retype ⟨3⟩ Y).map (fun r => r.tree.source) =
      some "/*c*/(string a, var b) = p;\nint x = 1;\n" := by rfl
  rw [hx] at hxsource
  rw [hy] at hysource
  have hplace : back.tree.spanOf ⟨4⟩ = t.spanOf ⟨4⟩ :=
    hspan u (Tables.mem_of_site? hu) ⟨4⟩ (.inr List.mem_cons_self)
  exact ⟨by rfl, x, xy, back, y, z, xz, zx, hx, Option.some.inj hxsource, hxy, hy, hover,
    Option.some.inj hysource, hback, hsource, hplace, hxz, hz, hzx, hswapped⟩

end SyntaxTree

end TypeStyle
