-- SUMMARY: A tree can be laid out exactly if no way through its references goes on forever.
import TypeStyle.Proofs.Tree.Parts

/-! # Ways through references

Laying out a node follows the references in it, those in the nodes they name, and so on. A
reference is grounded if every such way ends. The depth that a layout is given is no limit of
its own: a way that ends passes each node of the tables at most once, so whatever is grounded
can be laid out within that depth. -/

namespace TypeStyle

namespace Tables

variable {t t' : Tables} {q r x : Ref}

theorem Reaches.trans (h : t.Reaches q r) (h' : t.Reaches r x) : t.Reaches q x := by
  induction h with
  | refl r => exact h'
  | step hq _ ih => exact .step hq (ih h')

/-- Every way through references that starts at `r` ends. -/
def Grounded (t : Tables) (r : Ref) : Prop :=
  Acc (fun q r => q ∈ t.parts r) r

/-- What is grounded is not reached from its own parts. -/
theorem Grounded.not_reaches (h : t.Grounded r) (hq : q ∈ t.parts r) : ¬ t.Reaches q r := by
  induction h generalizing q with
  | intro r _ ih =>
    intro hreaches
    -- From the first part on the way back to `r`, the way leads through `r` to itself again.
    cases hreaches with
    | refl => exact ih _ hq hq (.refl _)
    | step hq' hback => exact ih q hq hq' (hback.trans (.step hq (.refl q)))

/-! ## Depth -/

theorem grounded_of_page? {n : Nat} (h : (t.page? n r).isSome = true) : t.Grounded r := by
  induction n generalizing r with
  | zero => cases h
  | succ n ih =>
    rw [page?, Doc.expand_isSome_iff, refs_doc] at h
    exact Acc.intro r fun q hq => ih (h q hq)

/-- What is grounded has a page within a depth of one more than the nodes that it reaches. -/
theorem Grounded.page?_isSome (h : t.Grounded r) {nodes : List Ref}
    (hnodes : ∀ x, t.Reaches r x → t.parts x ≠ [] → x ∈ nodes) :
    (t.page? (nodes.length + 1) r).isSome = true := by
  induction h generalizing nodes with
  | intro r hparts ih =>
    have hr : t.Grounded r := Acc.intro r hparts
    rw [page?, Doc.expand_isSome_iff, refs_doc]
    intro q hq
    have hmem : r ∈ nodes := hnodes r (.refl r) (List.ne_nil_of_mem hq)
    have hrest : ∀ x, t.Reaches q x → t.parts x ≠ [] → x ∈ nodes.erase r := by
      intro x hx hne
      have hxr : x ≠ r := fun heq => hr.not_reaches hq (heq ▸ hx)
      exact (List.mem_erase_of_ne hxr).mpr (hnodes x (.step hq hx) hne)
    have hlength : (nodes.erase r).length + 1 = nodes.length := by
      have hpos := List.length_pos_of_mem hmem
      rw [List.length_erase_of_mem hmem]
      omega
    rw [← hlength]
    exact ih q hq hrest

/-- References to all nodes of the tables. -/
def nodes (t : Tables) : List Ref :=
  t.sites.map (fun s => .site s.id) ++ (List.range t.exprs.size).map fun i => .expr ⟨i⟩

theorem mem_nodes_of_parts_ne_nil (h : t.parts r ≠ []) : r ∈ t.nodes := by
  cases r with
  | site id =>
    cases hs : t.site? id with
    | none => simp [parts, hs] at h
    | some s =>
      rw [← id_of_site? hs]
      exact List.mem_append_left _ (List.mem_map_of_mem (mem_of_site? hs))
  | expr id =>
    cases he : t.expr? id with
    | none => simp [parts, he] at h
    | some e =>
      have hlt : id.index < t.exprs.size := (Array.getElem?_eq_some_iff.mp he).1
      exact List.mem_append_right _ (List.mem_map.mpr ⟨id.index, List.mem_range.mpr hlt, rfl⟩)

theorem length_nodes (t : Tables) : t.nodes.length = t.sites.length + t.exprs.size := by
  simp [nodes]

/-- A reference can be filled in exactly if it is grounded. -/
theorem page?_maxDepth_isSome_iff : (t.page? t.maxDepth r).isSome = true ↔ t.Grounded r := by
  constructor
  · exact grounded_of_page?
  · intro h
    rw [maxDepth, ← length_nodes]
    exact h.page?_isSome fun x _ => mem_nodes_of_parts_ne_nil

end Tables

/-- A tree can be laid out exactly if what its statements mention is grounded. -/
theorem SyntaxTree.hasPage_iff {t : SyntaxTree} :
    t.HasPage ↔ ∀ r ∈ Stmt.partsOf t.items, t.tables.Grounded r := by
  rw [HasPage, Tables.pageOf?, Doc.expand_isSome_iff, Stmt.refs_linesDoc]
  exact forall₂_congr fun r _ => Tables.page?_maxDepth_isSome_iff

/-- An expression that is a member of itself has no page. -/
example :
    let tables : Tables := ⟨[], #[.member ⟨0⟩ "x"]⟩
    ¬ SyntaxTree.HasPage { items := [.expr ⟨0⟩], tables, supply := .initial } :=
  Bool.false_ne_true

end TypeStyle
