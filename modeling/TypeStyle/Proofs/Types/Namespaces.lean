-- SUMMARY: A type is spelled as its full name without the namespaces in it.
import TypeStyle.Proofs.Types.Spelling

/-! # Leaving out namespaces

`Ty.spell` drops the namespaces of the named types in a type and keeps the rest. A name may have
dots of its own: it is split at the last one when it is spelled, and written whole. -/

namespace TypeStyle

namespace TypeExpr

theorem textList_eq (types : List TypeExpr) :
    textList types = String.intercalate ", " (types.map text) := by
  induction types with
  | nil => rfl
  | cons type types ih =>
    cases types with
    | nil => simp [textList]
    | cons type' types =>
      rw [textList, ih, List.map_cons, List.map_cons, List.map_cons, String.intercalate_cons_cons]

theorem eq_of_splitQualifier {cs qualifier name : List Char}
    (h : splitQualifier cs = some (qualifier, name)) : cs = qualifier ++ '.' :: name := by
  induction cs generalizing qualifier with
  | nil => cases h
  | cons c cs ih =>
    rw [splitQualifier] at h
    split at h
    · next qualifier' name' hsplit =>
      cases h
      rw [ih hsplit, List.cons_append]
    · split at h
      · next hdot =>
        cases h
        rw [hdot, List.nil_append]
      · cases h

/-- A dotted name is written as it was given, wherever it is split. -/
theorem text_generic (name : String) (args : List TypeExpr) :
    (generic name args).text =
      name ++ if args.isEmpty then "" else "<" ++ textList args ++ ">" := by
  unfold generic
  split
  · next qualifier simple hsplit =>
    have hname : String.ofList qualifier ++ "." ++ String.ofList simple = name := by
      rw [← String.toList_inj]
      simp [eq_of_splitQualifier hsplit]
    simp [text, hname]
  · simp [text]

end TypeExpr

namespace Ty

theorem textList_eq (tys : List Ty) : textList tys = String.intercalate ", " (tys.map text) := by
  induction tys with
  | nil => rfl
  | cons ty tys ih =>
    cases tys with
    | nil => simp [textList]
    | cons ty' tys =>
      rw [textList, ih, List.map_cons, List.map_cons, List.map_cons, String.intercalate_cons_cons]

mutual

/-- The type with all named types in it moved to the global namespace. -/
def withoutNamespaces : Ty → Ty
  | named _ name args => .named none name (withoutNamespacesList args)
  | array element => .array (withoutNamespaces element)
  | nullable inner => .nullable (withoutNamespaces inner)
  | tuple elements => .tuple (withoutNamespacesList elements)
  | predefined p => .predefined p
  | dynamic => .dynamic
  | anonymous => .anonymous
  | error => .error

def withoutNamespacesList : List Ty → List Ty
  | [] => []
  | ty :: tys => withoutNamespaces ty :: withoutNamespacesList tys

end

mutual

/-- A type is spelled as its name without the namespaces in it. -/
theorem text_of_spell {ty : Ty} {type : TypeExpr} (h : ty.spell.result = .ok type) :
    type.text = ty.withoutNamespaces.text := by
  match ty with
  | .predefined p =>
    cases h
    rfl
  | .dynamic =>
    cases h
    rfl
  | .named space name args =>
    obtain ⟨args', hargs, rfl⟩ := ok_of_map_eq_ok h
    have htexts := map_text_of_spellList hargs
    have hempty : args'.isEmpty = (withoutNamespacesList args).isEmpty := by
      rw [← List.isEmpty_map (f := TypeExpr.text), htexts, List.isEmpty_map]
    rw [TypeExpr.text_generic, TypeExpr.textList_eq, htexts, hempty, ← textList_eq]
    simp [withoutNamespaces, text]
  | .array element =>
    obtain ⟨element', helement, rfl⟩ := ok_of_map_eq_ok h
    rw [TypeExpr.text, text_of_spell helement, withoutNamespaces, text]
  | .nullable inner =>
    obtain ⟨inner', hinner, rfl⟩ := ok_of_map_eq_ok h
    rw [TypeExpr.text, text_of_spell hinner, withoutNamespaces, text]
  | .tuple elements =>
    obtain ⟨elements', helements, rfl⟩ := ok_of_map_eq_ok h
    rw [TypeExpr.text, TypeExpr.textList_eq, map_text_of_spellList helements, ← textList_eq,
      withoutNamespaces, text]
  | .anonymous => cases h
  | .error => cases h

theorem map_text_of_spellList {tys : List Ty} {types : List TypeExpr}
    (h : (spellList tys).result = .ok types) :
    types.map TypeExpr.text = (withoutNamespacesList tys).map text := by
  match tys with
  | [] =>
    cases h
    rfl
  | ty :: tys =>
    obtain ⟨type, types', hfirst, htypes, rfl⟩ := ok_of_spellList_cons h
    rw [List.map_cons, text_of_spell hfirst, map_text_of_spellList htypes, withoutNamespacesList,
      List.map_cons]

end

end Ty

end TypeStyle
