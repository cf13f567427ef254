-- SUMMARY: Sets of names as strictly increasing lists.

/-! # Name sets

A set of names is kept as a list in strictly increasing order, so that two equal
sets are the same list. Names compare code point by code point, which is also
the order of their bytes. -/

namespace TypeStyle.NameSet

/-- Adds a name to an increasing list. -/
def insert (name : String) : List String → List String
  | [] => [name]
  | other :: rest =>
    if name < other then name :: other :: rest
    else if name = other then other :: rest
    else other :: insert name rest

def ofList (names : List String) : List String :=
  names.foldr insert []

theorem mem_insert {name x : String} {names : List String} :
    x ∈ insert name names ↔ x = name ∨ x ∈ names := by
  induction names with
  | nil => simp [insert]
  | cons other rest ih =>
    simp only [insert]
    split
    · simp
    · split
      · next h => simp [h]
      · simp only [List.mem_cons, ih]
        exact or_left_comm

theorem mem_foldr_insert {x : String} {names set : List String} :
    x ∈ names.foldr insert set ↔ x ∈ names ∨ x ∈ set := by
  induction names with
  | nil => simp
  | cons name names ih => rw [List.foldr_cons, mem_insert, ih, List.mem_cons, or_assoc]

theorem mem_ofList {x : String} {names : List String} : x ∈ ofList names ↔ x ∈ names := by
  rw [ofList, mem_foldr_insert]
  simp

/-! ## Order -/

theorem pairwise_insert {name : String} {names : List String} (h : names.Pairwise (· < ·)) :
    (insert name names).Pairwise (· < ·) := by
  induction names with
  | nil => simp [insert]
  | cons other rest ih =>
    obtain ⟨hother, hrest⟩ := List.pairwise_cons.mp h
    simp only [insert]
    split
    · next hlt =>
      refine List.pairwise_cons.mpr ⟨fun x hx => ?_, h⟩
      rcases List.mem_cons.mp hx with rfl | hx
      · exact hlt
      · exact String.lt_trans hlt (hother x hx)
    · next hnlt =>
      split
      · exact h
      · next hne =>
        have hlt : other < name :=
          Decidable.byContradiction fun hngt =>
            hne (String.le_antisymm (String.not_lt.mp hngt) (String.not_lt.mp hnlt))
        refine List.pairwise_cons.mpr ⟨fun x hx => ?_, ih hrest⟩
        rcases mem_insert.mp hx with rfl | hx
        · exact hlt
        · exact hother x hx

theorem pairwise_foldr_insert {names set : List String} (h : set.Pairwise (· < ·)) :
    (names.foldr insert set).Pairwise (· < ·) := by
  induction names with
  | nil => exact h
  | cons name names ih => exact pairwise_insert ih

/-- Two sets with the same names are the same list. -/
theorem eq_of_mem_iff {names names' : List String} (h : names.Pairwise (· < ·))
    (h' : names'.Pairwise (· < ·)) (hmem : ∀ x, x ∈ names ↔ x ∈ names') : names = names' := by
  have hnodup : ∀ {set : List String}, set.Pairwise (· < ·) → set.Nodup := by
    refine fun hset => hset.imp ?_
    rintro a _ hlt rfl
    exact String.lt_irrefl a hlt
  have hperm := (List.perm_ext_iff_of_nodup (hnodup h) (hnodup h')).mpr hmem
  refine List.Perm.eq_of_pairwise (fun a b _ _ hab hba => ?_) h h' hperm
  exact absurd (String.lt_trans hab hba) (String.lt_irrefl a)

end TypeStyle.NameSet
