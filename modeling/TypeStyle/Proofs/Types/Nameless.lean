-- SUMMARY: A type is spelled exactly if no leaf of it lacks a name, and else the first such leaf is blamed.
import TypeStyle.Proofs.Types.Spelling

/-! # Nameless leaves

A leaf of a type is a part of it that has no parts of its own. Only leaves lack names, and
spelling a type goes through its leaves from left to right, up to the first without a name. -/

namespace TypeStyle

namespace Ty

mutual

/-- The parts of a type that have no parts of their own, from left to right. -/
def leaves : Ty → List Ty
  | named space name args => if args.isEmpty then [.named space name args] else leavesList args
  | array element => leaves element
  | nullable inner => leaves inner
  | tuple elements => if elements.isEmpty then [.tuple elements] else leavesList elements
  | predefined p => [.predefined p]
  | dynamic => [.dynamic]
  | anonymous => [.anonymous]
  | error => [.error]

def leavesList : List Ty → List Ty
  | [] => []
  | ty :: tys => leaves ty ++ leavesList tys

end

/-- The first leaf without a name. -/
def nameless? (ty : Ty) : Option Ty := ty.leaves.find? fun leaf => !leaf.isNameable

/-- The leaf `named` with arguments has those of the arguments; without, it has a name. -/
theorem nameless?_named (space : Option String) (name : String) (args : List Ty) :
    (named space name args).nameless? = (leavesList args).find? fun leaf => !leaf.isNameable := by
  cases args <;> simp [nameless?, leaves, leavesList, isNameable, areNameable]

theorem nameless?_tuple (elements : List Ty) :
    (tuple elements).nameless? = (leavesList elements).find? fun leaf => !leaf.isNameable := by
  cases elements <;> simp [nameless?, leaves, leavesList, isNameable, areNameable]

theorem nameless?_array (element : Ty) : (array element).nameless? = element.nameless? := by
  simp [nameless?, leaves]

theorem nameless?_nullable (inner : Ty) : (nullable inner).nameless? = inner.nameless? := by
  simp [nameless?, leaves]

mutual

theorem isNameable_iff (ty : Ty) : ty.isNameable = true ↔ ty.nameless? = none := by
  cases ty with
  | named space name args => rw [nameless?_named, isNameable, areNameable_iff]
  | array element => rw [nameless?_array, isNameable, isNameable_iff]
  | nullable inner => rw [nameless?_nullable, isNameable, isNameable_iff]
  | tuple elements => rw [nameless?_tuple, isNameable, areNameable_iff]
  | _ => simp [nameless?, leaves, isNameable]

theorem areNameable_iff (tys : List Ty) :
    areNameable tys = true ↔ (leavesList tys).find? (fun leaf => !leaf.isNameable) = none := by
  match tys with
  | [] => simp [areNameable, leavesList]
  | ty :: tys =>
    rw [areNameable, Bool.and_eq_true, isNameable_iff ty, areNameable_iff tys, nameless?,
      leavesList, List.find?_append, Option.or_eq_none_iff]

end

/-- The result is an error that blames a type, if one is given, and else there is a result. -/
def Blames {α : Type} (result : Except Nameless α) : Option Ty → Prop
  | none => ∃ a, result = .ok a
  | some ty => result = .error ⟨ty⟩

theorem Blames.map {α β : Type} {result : Except Nameless α} {blamed : Option Ty}
    (h : Blames result blamed) (g : α → β) : Blames (result.map g) blamed := by
  cases blamed with
  | none =>
    obtain ⟨a, rfl⟩ := h
    exact ⟨g a, rfl⟩
  | some ty =>
    obtain rfl := h
    rfl

theorem Blames.exists_ok_iff {α : Type} {result : Except Nameless α} {blamed : Option Ty}
    (h : Blames result blamed) : (∃ a, result = .ok a) ↔ blamed = none := by
  cases blamed with
  | none => exact ⟨fun _ => rfl, fun _ => h⟩
  | some ty =>
    obtain rfl := h
    simp

theorem Blames.eq_some_of_error {α : Type} {result : Except Nameless α} {blamed : Option Ty}
    {nameless : Nameless} (h : Blames result blamed) (herror : result = .error nameless) :
    blamed = some nameless.ty := by
  cases blamed with
  | none =>
    obtain ⟨a, rfl⟩ := h
    cases herror
  | some ty =>
    obtain rfl := h
    cases herror
    rfl

mutual

/-- Spelling a type fails exactly if a leaf lacks a name, and then the first such leaf is
    blamed. -/
theorem blames_spell (ty : Ty) : Blames ty.spell.result ty.nameless? := by
  cases ty with
  | named space name args =>
    rw [nameless?_named, spell]
    exact (blames_spellList args).map _
  | array element =>
    rw [nameless?_array, spell]
    exact (blames_spell element).map _
  | nullable inner =>
    rw [nameless?_nullable, spell]
    exact (blames_spell inner).map _
  | tuple elements =>
    rw [nameless?_tuple, spell]
    exact (blames_spellList elements).map _
  | predefined _ | dynamic => simp [nameless?, leaves, isNameable, Blames, spell]
  | anonymous | error => simp [nameless?, leaves, isNameable, Blames, spell]

theorem blames_spellList (tys : List Ty) :
    Blames (spellList tys).result ((leavesList tys).find? fun leaf => !leaf.isNameable) := by
  match tys with
  | [] => exact ⟨[], rfl⟩
  | ty :: tys =>
    have hfirst := blames_spell ty
    rw [leavesList, List.find?_append, spellList, ← nameless?]
    cases hblamed : ty.nameless? with
    | none =>
      rw [hblamed] at hfirst
      obtain ⟨type, htype⟩ := hfirst
      simp only [htype, Option.none_or]
      exact (blames_spellList tys).map _
    | some leaf =>
      rw [hblamed] at hfirst
      have hresult : ty.spell.result = .error ⟨leaf⟩ := hfirst
      simp only [hresult, Option.some_or]
      rfl

end

/-- So does spelling it for a site. -/
theorem blames_spellFor (isImported : SyntaxTree → Site → String → Bool) (t : SyntaxTree)
    (s : Site) (ty : Ty) : Blames (spellFor isImported t s ty) ty.nameless? :=
  ty.blames_spell.map _

end Ty

end TypeStyle
