-- SUMMARY: What comes of spelling a type: its name, or the first part of it that has none.
import TypeStyle.Proofs.Types.Namespaces
import TypeStyle.Proofs.Types.Nameless

/-! # The outcome of spelling a type

Whether a type can be spelled, what it is spelled as and which namespaces that needs are asked by
separate recursions over the type, and so is how it is written in full. Here they are brought
together. A type is spelled part by part: whatever stands inside a spelled type, at any depth, was
spelled itself, so the placeholder is not there. -/

namespace TypeStyle

namespace TypeExpr

theorem children_generic (name : String) (args : List TypeExpr) :
    (generic name args).children = args := by
  unfold generic
  split <;> rfl

/-- A written type contains itself and, at any depth, the types written inside it. -/
inductive Contains (whole : TypeExpr) : TypeExpr → Prop
  | self : Contains whole whole
  | child {part child : TypeExpr} :
      Contains whole part → child ∈ part.children → Contains whole child

end TypeExpr

namespace Ty

/-! ## Parts of spelled types -/

/-- The members of a spelled list are spelled one by one. -/
theorem exists_spell_of_mem {tys : List Ty} {types : List TypeExpr} {type : TypeExpr}
    (h : (spellList tys).result = .ok types) (hmem : type ∈ types) :
    ∃ ty ∈ tys, ty.spell.result = .ok type := by
  induction tys generalizing types with
  | nil =>
    cases h
    cases hmem
  | cons ty tys ih =>
    obtain ⟨type', types', hfirst, htypes, rfl⟩ := ok_of_spellList_cons h
    rcases List.mem_cons.mp hmem with rfl | hrest
    · exact ⟨ty, List.mem_cons_self, hfirst⟩
    · obtain ⟨u, hu, hspell⟩ := ih htypes hrest
      exact ⟨u, List.mem_cons_of_mem _ hu, hspell⟩

/-- What is written directly inside a spelled type was spelled itself. -/
theorem exists_spell_of_child {ty : Ty} {type child : TypeExpr} (h : ty.spell.result = .ok type)
    (hchild : child ∈ type.children) : ∃ part : Ty, part.spell.result = .ok child := by
  cases ty with
  | predefined p =>
    cases h
    cases hchild
  | dynamic =>
    cases h
    cases hchild
  | named space name args =>
    obtain ⟨args', hargs, rfl⟩ := ok_of_map_eq_ok h
    rw [TypeExpr.children_generic] at hchild
    obtain ⟨arg, -, harg⟩ := exists_spell_of_mem hargs hchild
    exact ⟨arg, harg⟩
  | array element =>
    obtain ⟨element', helement, rfl⟩ := ok_of_map_eq_ok h
    obtain rfl := List.mem_singleton.mp hchild
    exact ⟨element, helement⟩
  | nullable inner =>
    obtain ⟨inner', hinner, rfl⟩ := ok_of_map_eq_ok h
    obtain rfl := List.mem_singleton.mp hchild
    exact ⟨inner, hinner⟩
  | tuple elements =>
    obtain ⟨elements', helements, rfl⟩ := ok_of_map_eq_ok h
    obtain ⟨element, -, helement⟩ := exists_spell_of_mem helements hchild
    exact ⟨element, helement⟩
  | anonymous => cases h
  | error => cases h

/-- The same at any depth. -/
theorem exists_spell_of_contains {ty : Ty} {type part : TypeExpr} (h : ty.spell.result = .ok type)
    (hpart : type.Contains part) : ∃ ty' : Ty, ty'.spell.result = .ok part := by
  induction hpart with
  | self => exact ⟨ty, h⟩
  | child _ hchild ih =>
    obtain ⟨ty', hspell⟩ := ih
    exact exists_spell_of_child hspell hchild

/-! ## The first part without a name -/

mutual

/-- Only two kinds of leaves lack a name. -/
theorem anonymous_or_error (ty : Ty) {leaf : Ty} (h : leaf ∈ ty.leaves)
    (hnameless : leaf.isNameable = false) : leaf = .anonymous ∨ leaf = .error := by
  match ty with
  -- With nothing in its brackets a named type or a tuple is a leaf, and one with a name.
  | .named space name [] =>
    obtain rfl := List.mem_singleton.mp h
    cases hnameless
  | .named space name (arg :: args) => exact anonymous_or_error_of_list (arg :: args) h hnameless
  | .array element => exact anonymous_or_error element h hnameless
  | .nullable inner => exact anonymous_or_error inner h hnameless
  | .tuple [] =>
    obtain rfl := List.mem_singleton.mp h
    cases hnameless
  | .tuple (element :: elements) =>
    exact anonymous_or_error_of_list (element :: elements) h hnameless
  | .predefined _ | .dynamic =>
    obtain rfl := List.mem_singleton.mp h
    cases hnameless
  | .anonymous => exact .inl (List.mem_singleton.mp h)
  | .error => exact .inr (List.mem_singleton.mp h)

theorem anonymous_or_error_of_list (tys : List Ty) {leaf : Ty} (h : leaf ∈ leavesList tys)
    (hnameless : leaf.isNameable = false) : leaf = .anonymous ∨ leaf = .error := by
  match tys with
  | [] => cases h
  | ty :: tys =>
    rcases List.mem_append.mp h with hfirst | hrest
    · exact anonymous_or_error ty hfirst hnameless
    · exact anonymous_or_error_of_list tys hrest hnameless

end

/-- The leaf is anonymous or unresolved, and no leaf to the left of it is. -/
def FirstNameless (ty leaf : Ty) : Prop :=
  ∃ before after, ty.leaves = before ++ leaf :: after ∧ (leaf = .anonymous ∨ leaf = .error) ∧
    .anonymous ∉ before ∧ .error ∉ before

theorem firstNameless_of_nameless? {ty leaf : Ty} (h : ty.nameless? = some leaf) :
    ty.FirstNameless leaf := by
  obtain ⟨hleaf, before, after, hleaves, hbefore⟩ := List.find?_eq_some_iff_append.mp h
  have hnameless : leaf.isNameable = false := by simpa using hleaf
  have hnameable : ∀ other ∈ before, other.isNameable = true := by simpa using hbefore
  refine ⟨before, after, hleaves, ?_, ?_, ?_⟩
  · exact anonymous_or_error ty (List.mem_of_find?_eq_some h) hnameless
  · intro hmem
    cases hnameable _ hmem
  · intro hmem
    cases hnameable _ hmem

/-! ## The outcome -/

/-- A type is spelled exactly if it can be named. It is then written as its name without
    namespaces, with no placeholder anywhere, and what it needs are the namespaces of the named
    types in it, in their order and with repetitions. A type that is not spelled is refused for
    the first of its leaves without a name. -/
theorem spell_outcome (ty : Ty) :
    (ty.isNameable = true ↔ ∃ type, ty.spell.result = .ok type) ∧
      match ty.spell.result with
      | .ok type =>
        ty.spell.namespaces = ty.namedParts.filterMap Prod.fst ∧
          (∀ part, type.Contains part → part.isImplicit = false) ∧
          type.text = ty.withoutNamespaces.text
      | .error nameless => ty.FirstNameless nameless.ty := by
  refine ⟨ty.isNameable_iff.trans ty.blames_spell.exists_ok_iff.symm, ?_⟩
  cases hspell : ty.spell.result with
  | ok type =>
    refine ⟨namespaces_of_spell hspell, fun part hpart => ?_, text_of_spell hspell⟩
    obtain ⟨ty', hpart⟩ := exists_spell_of_contains hspell hpart
    exact isImplicit_of_spell hpart
  | error nameless => exact firstNameless_of_nameless? (ty.blames_spell.eq_some_of_error hspell)

/-- A namespace is noted once for each name from it, and the dots of a name stay. -/
example :
    let element : Ty := .named (some "Lib") "var" []
    let pair : Ty := .named (some "Lib") "Outer.Pair" [.array element, .dynamic]
    pair.spell.namespaces = ["Lib", "Lib"] ∧
      pair.spell.result.map TypeExpr.text = .ok "Outer.Pair<var[], dynamic>" :=
  ⟨rfl, rfl⟩

/-- The type that could not be resolved stands to the left of the one without a name. -/
example :
    (Ty.tuple [.tuple [], .nullable (.named none "Box" [.error]), .anonymous]).spell.result =
      .error ⟨.error⟩ :=
  rfl

end Ty

end TypeStyle
