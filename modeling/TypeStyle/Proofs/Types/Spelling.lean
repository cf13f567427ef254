-- SUMMARY: A spelled type is read back as the type it was spelled from.
import TypeStyle.Types.Facts

/-! # Reading a spelled type

`Ty.spell` drops the namespaces of a type, and `Facts.writtenType?` looks them up again.
The two agree if the table of namespaces says of every name in the type where it comes
from. What a written type carries besides its shape does not matter for what it
denotes. -/

namespace TypeStyle

/-- A mapped result is a result. -/
theorem ok_of_map_eq_ok {ε α β : Type} {x : Except ε α} {g : α → β} {b : β}
    (h : x.map g = .ok b) : ∃ a, x = .ok a ∧ g a = b := by
  cases x with
  | error e => cases h
  | ok a => exact ⟨a, rfl, Except.ok.inj h⟩

/-- A list is spelled by spelling its first type and then the others. -/
theorem Ty.ok_of_spellList_cons {ty : Ty} {tys : List Ty} {types : List TypeExpr}
    (h : (Ty.spellList (ty :: tys)).result = .ok types) :
    ∃ type types', ty.spell.result = .ok type ∧ (Ty.spellList tys).result = .ok types' ∧
      types = type :: types' := by
  rw [spellList] at h
  cases hfirst : ty.spell.result with
  | error e =>
    rw [hfirst] at h
    cases h
  | ok type =>
    rw [hfirst] at h
    obtain ⟨types', htypes, rfl⟩ := ok_of_map_eq_ok h
    exact ⟨type, types', rfl, htypes, rfl⟩

namespace TypeExpr

theorem isImplicit_generic (name : String) (args : List TypeExpr) :
    (generic name args).isImplicit = false := by
  unfold generic
  split <;> rfl

/-- A name without a dot has nothing to split. -/
theorem splitQualifier_eq_none {cs : List Char} (h : '.' ∉ cs) : splitQualifier cs = none := by
  induction cs with
  | nil => rfl
  | cons c cs ih =>
    have hne : c ≠ '.' := fun heq => h (heq ▸ List.mem_cons_self)
    have hrest : '.' ∉ cs := fun hmem => h (List.mem_cons_of_mem _ hmem)
    simp [splitQualifier, ih hrest, hne]

theorem generic_of_simple {name : String} (h : '.' ∉ name.toList) (args : List TypeExpr) :
    generic name args = .named {} none name args := by
  simp [generic, splitQualifier_eq_none h]

end TypeExpr

/-- A type is never spelled as the placeholder. -/
theorem Ty.isImplicit_of_spell {ty : Ty} {type : TypeExpr} (h : ty.spell.result = .ok type) :
    type.isImplicit = false := by
  cases ty with
  | predefined p =>
    cases h
    rfl
  | dynamic =>
    cases h
    rfl
  | named space name args =>
    obtain ⟨args', _, rfl⟩ := ok_of_map_eq_ok h
    exact TypeExpr.isImplicit_generic name args'
  | array element =>
    obtain ⟨element', _, rfl⟩ := ok_of_map_eq_ok h
    rfl
  | nullable inner =>
    obtain ⟨inner', _, rfl⟩ := ok_of_map_eq_ok h
    rfl
  | tuple elements =>
    obtain ⟨elements', _, rfl⟩ := ok_of_map_eq_ok h
    rfl
  | anonymous => cases h
  | error => cases h

/-- A type spelled for a site is its spelling with a note of the namespaces it needs. -/
theorem spell_of_spellFor {isImported : SyntaxTree → Site → String → Bool} {t : SyntaxTree}
    {s : Site} {ty : Ty} {type : TypeExpr} (h : spellFor isImported t s ty = .ok type) :
    ∃ spelled info, ty.spell.result = .ok spelled ∧ type = spelled.withInfo info := by
  unfold spellFor at h
  cases hspell : ty.spell.result with
  | error e =>
    rw [hspell] at h
    cases h
  | ok spelled =>
    rw [hspell] at h
    exact ⟨spelled, _, rfl, (Except.ok.inj h).symm⟩

/-! ## Denotations -/

namespace Facts

variable (f : Facts)

@[simp] theorem writtenType?_withInfo (info : NodeInfo) (type : TypeExpr) :
    f.writtenType? (type.withInfo info) = f.writtenType? type := by
  cases type <;> simp [TypeExpr.withInfo, writtenType?]

mutual

@[simp] theorem writtenType?_attach (type : TypeExpr) (s : NodeSupply) :
    f.writtenType? (type.attach s).1 = f.writtenType? type := by
  cases type with
  | implicit info => simp [TypeExpr.attach, writtenType?]
  | keyword info name => simp [TypeExpr.attach, writtenType?]
  | named info qualifier name args =>
    simp [TypeExpr.attach, writtenType?, writtenTypes?_attachList args]
  | array info element => simp [TypeExpr.attach, writtenType?, writtenType?_attach element]
  | nullable info inner => simp [TypeExpr.attach, writtenType?, writtenType?_attach inner]
  | tuple info elements => simp [TypeExpr.attach, writtenType?, writtenTypes?_attachList elements]

theorem writtenTypes?_attachList (types : List TypeExpr) (s : NodeSupply) :
    f.writtenTypes? (TypeExpr.attachList types s).1 = f.writtenTypes? types := by
  match types with
  | [] => simp [TypeExpr.attachList]
  | type :: types =>
    simp [TypeExpr.attachList, writtenTypes?, writtenType?_attach type,
      writtenTypes?_attachList types]

end

theorem keywordType?_keyword (p : Predefined) : keywordType? p.keyword = some (.predefined p) := by
  have hne : p.keyword ≠ "dynamic" := by cases p <;> decide
  simp [keywordType?, hne, Predefined.ofKeyword?_keyword]

end Facts

mutual

/-- The named types inside a type, each with its namespace. -/
def Ty.namedParts : Ty → List (Option String × String)
  | .named space name args => (space, name) :: namedPartsList args
  | .array element => namedParts element
  | .nullable inner => namedParts inner
  | .tuple elements => namedPartsList elements
  | .predefined _ | .dynamic | .anonymous | .error => []

def Ty.namedPartsList : List Ty → List (Option String × String)
  | [] => []
  | ty :: tys => namedParts ty ++ namedPartsList tys

end

mutual

/-- A type that can be spelled needs the namespaces of the named types in it, in their order. -/
theorem Ty.namespaces_of_spell {ty : Ty} {type : TypeExpr} (h : ty.spell.result = .ok type) :
    ty.spell.namespaces = ty.namedParts.filterMap Prod.fst := by
  match ty with
  | .predefined _ | .dynamic => rfl
  | .named space name args =>
    obtain ⟨args', hargs, _⟩ := ok_of_map_eq_ok h
    rw [spell, namedParts, namespaces_of_spellList hargs]
    cases space <;> rfl
  | .array element =>
    obtain ⟨element', helement, _⟩ := ok_of_map_eq_ok h
    rw [spell, namedParts, namespaces_of_spell helement]
  | .nullable inner =>
    obtain ⟨inner', hinner, _⟩ := ok_of_map_eq_ok h
    rw [spell, namedParts, namespaces_of_spell hinner]
  | .tuple elements =>
    obtain ⟨elements', helements, _⟩ := ok_of_map_eq_ok h
    rw [spell, namedParts, namespaces_of_spellList helements]
  | .anonymous => cases h
  | .error => cases h

theorem Ty.namespaces_of_spellList {tys : List Ty} {types : List TypeExpr}
    (h : (Ty.spellList tys).result = .ok types) :
    (Ty.spellList tys).namespaces = (Ty.namedPartsList tys).filterMap Prod.fst := by
  match tys with
  | [] => rfl
  | ty :: tys =>
    obtain ⟨type, types', hfirst, htypes, _⟩ := ok_of_spellList_cons h
    simp only [spellList, hfirst, namedPartsList, List.filterMap_append,
      namespaces_of_spell hfirst, namespaces_of_spellList htypes]

end

namespace Facts

/-- Every name in the type is simple, and the table says of it where it comes from. -/
def Names (f : Facts) (parts : List (Option String × String)) : Prop :=
  ∀ part ∈ parts, '.' ∉ part.2.toList ∧ last? part.2 f.namespaces = part.1

variable {f : Facts}

mutual

/-- What a type is spelled as denotes the type. -/
theorem writtenType?_of_spell {ty : Ty} {type : TypeExpr} (hnames : f.Names ty.namedParts)
    (h : ty.spell.result = .ok type) : f.writtenType? type = some ty := by
  match ty with
  | .predefined p =>
    cases h
    simp [writtenType?, keywordType?_keyword]
  | .dynamic =>
    cases h
    simp [writtenType?, keywordType?]
  | .named space name args =>
    obtain ⟨args', hargs, rfl⟩ := ok_of_map_eq_ok h
    obtain ⟨hsimple, hspace⟩ := hnames (space, name) (by simp [Ty.namedParts])
    have hrest : f.Names (Ty.namedPartsList args) :=
      fun part hpart => hnames part (by simp [Ty.namedParts, hpart])
    rw [TypeExpr.generic_of_simple hsimple, writtenType?, writtenTypes?_of_spellList hrest hargs]
    simp [hspace]
  | .array element =>
    obtain ⟨element', helement, rfl⟩ := ok_of_map_eq_ok h
    have hrest : f.Names element.namedParts := hnames
    rw [writtenType?, writtenType?_of_spell hrest helement, Option.map_some]
  | .nullable inner =>
    obtain ⟨inner', hinner, rfl⟩ := ok_of_map_eq_ok h
    have hrest : f.Names inner.namedParts := hnames
    rw [writtenType?, writtenType?_of_spell hrest hinner, Option.map_some]
  | .tuple elements =>
    obtain ⟨elements', helements, rfl⟩ := ok_of_map_eq_ok h
    rw [writtenType?, writtenTypes?_of_spellList hnames helements, Option.map_some]
  | .anonymous => cases h
  | .error => cases h

theorem writtenTypes?_of_spellList {tys : List Ty} {types : List TypeExpr}
    (hnames : f.Names (Ty.namedPartsList tys)) (h : (Ty.spellList tys).result = .ok types) :
    f.writtenTypes? types = some tys := by
  match tys with
  | [] =>
    cases h
    simp [writtenTypes?]
  | ty :: tys =>
    obtain ⟨type, types', hfirst, htypes, rfl⟩ := Ty.ok_of_spellList_cons h
    have hhead : f.Names ty.namedParts :=
      fun part hpart => hnames part (by simp [Ty.namedPartsList, hpart])
    have htail : f.Names (Ty.namedPartsList tys) :=
      fun part hpart => hnames part (by simp [Ty.namedPartsList, hpart])
    rw [writtenTypes?, writtenType?_of_spell hhead hfirst, writtenTypes?_of_spellList htail htypes]
    rfl

end

end Facts

end TypeStyle
