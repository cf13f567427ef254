-- SUMMARY: A tuple type is distributed over the names of a group, but not over the groups inside it.
import TypeStyle.Proofs.Tree.Place

/-! # Distribution

A tuple type over a group of names belongs between the names, each element in front of its own,
however deep groups are nested (`Pattern.distributed`). What is written goes one level deep: a
tuple type stands in front of a group that is a part of another. So a pattern is written as it
should be exactly if no part of it is a group. -/

namespace TypeStyle

namespace Pattern

def isGroup : Pattern → Bool
  | group _ => true
  | single _ | discard => false

mutual

/-- Wherever the pattern has a group, the type is a tuple with one element for each part. -/
def Fits : Pattern → TypeExpr → Prop
  | group parts, .tuple _ elements => FitAll parts elements
  | group _, _ => False
  | single _, _ | discard, _ => True

def FitAll : List Pattern → List TypeExpr → Prop
  | [], [] => True
  | p :: ps, type :: types => Fits p type ∧ FitAll ps types
  | [], _ :: _ | _ :: _, [] => False

end

mutual

/-- Every name and discard of the pattern after its own type, the groups in parentheses. -/
def distributed : Pattern → TypeExpr → String
  | group parts, .tuple _ elements =>
    "(" ++ String.intercalate ", " (distributedAll parts elements) ++ ")"
  | p, type => type.text ++ " " ++ p.text

def distributedAll : List Pattern → List TypeExpr → List String
  | p :: ps, type :: types => distributed p type :: distributedAll ps types
  | [], _ | _, [] => []

end

variable {p : Pattern} {ps : List Pattern} {type : TypeExpr} {types : List TypeExpr}

theorem FitAll.length_eq (h : FitAll ps types) : types.length = ps.length := by
  induction ps generalizing types with
  | nil =>
    cases types with
    | nil => rfl
    | cons type types => cases h
  | cons p ps ih =>
    cases types with
    | nil => cases h
    | cons type types => rw [List.length_cons, List.length_cons, ih h.2]

theorem Fits.exists_tuple (h : (group ps).Fits type) :
    ∃ info elements, type = .tuple info elements ∧ FitAll ps elements := by
  cases type with
  | tuple info elements => exact ⟨info, elements, rfl, h⟩
  | _ => cases h

/-! ## Lengths -/

/-- The type and then the pattern, without distribution. -/
def plain (p : Pattern) (type : TypeExpr) : String := type.text ++ " " ++ p.text

/-- The commas between the types and those between the parts become one. That is shorter than
    with the parentheses and the space in between. -/
theorem length_distributed_lt_of_le {info : NodeInfo}
    (h : (String.intercalate ", " (distributedAll ps types)).length ≤
      (TypeExpr.textList types).length + (textList ps).length + 1) :
    ((group ps).distributed (.tuple info types)).length <
      ((group ps).plain (.tuple info types)).length := by
  have hopen : "(".length = 1 := rfl
  have hclose : ")".length = 1 := rfl
  have hspace : " ".length = 1 := rfl
  simp only [distributed, plain, TypeExpr.text, text, String.length_append]
  omega

mutual

/-- Distribution never makes a pattern longer. -/
theorem length_distributed_le (p : Pattern) (type : TypeExpr) (h : p.Fits type) :
    (p.distributed type).length ≤ (p.plain type).length := by
  match p with
  | group parts =>
    obtain ⟨info, elements, rfl, hall⟩ := h.exists_tuple
    exact Nat.le_of_lt (length_distributed_lt_of_le (length_distributedAll_le parts elements hall))
  | single name => exact Nat.le_refl _
  | discard => exact Nat.le_refl _

theorem length_distributedAll_le (ps : List Pattern) (types : List TypeExpr)
    (h : FitAll ps types) :
    (String.intercalate ", " (distributedAll ps types)).length ≤
      (TypeExpr.textList types).length + (textList ps).length + 1 := by
  match ps, types with
  | [], [] => simp [distributedAll]
  | [p], [type] =>
    have hp := length_distributed_le p type h.1
    have hspace : " ".length = 1 := rfl
    simp only [distributedAll, String.intercalate_singleton, plain, TypeExpr.textList, textList,
      String.length_append] at *
    omega
  | p :: q :: ps, type :: type' :: types =>
    have hp := length_distributed_le p type h.1
    have hps := length_distributedAll_le (q :: ps) (type' :: types) h.2
    have hspace : " ".length = 1 := rfl
    have hcomma : ", ".length = 2 := rfl
    simp only [distributedAll, String.intercalate_cons_cons, plain, TypeExpr.textList, textList,
      String.length_append] at *
    omega

end

/-- Distribution makes a group shorter. -/
theorem length_distributed_lt (h : p.Fits type) (hgroup : p.isGroup = true) :
    (p.distributed type).length < (p.plain type).length := by
  cases p with
  | group parts =>
    obtain ⟨info, elements, rfl, hall⟩ := h.exists_tuple
    exact length_distributed_lt_of_le (length_distributedAll_le parts elements hall)
  | _ => cases hgroup

theorem distributed_of_not_isGroup (h : p.isGroup = false) : p.distributed type = p.plain type := by
  cases p with
  | group parts => cases h
  | single name => rfl
  | discard => rfl

/-! ## One level -/

/-- What is written for the parts: each after its type, whether it is a group or not. -/
def plainAll (ps : List Pattern) (types : List TypeExpr) : List String :=
  (types.zip ps).map fun (type, part) => part.plain type

/-- What is written for the parts is never shorter than their distribution, and it is as long only
    if none of them is a group. -/
theorem length_plainAll (ps : List Pattern) (types : List TypeExpr) (h : FitAll ps types) :
    (String.intercalate ", " (distributedAll ps types)).length ≤
        (String.intercalate ", " (plainAll ps types)).length ∧
      ((String.intercalate ", " (plainAll ps types)).length =
          (String.intercalate ", " (distributedAll ps types)).length →
        ∀ p ∈ ps, p.isGroup = false) := by
  have hflat : ∀ {p : Pattern} {type : TypeExpr}, p.Fits type →
      (p.plain type).length = (p.distributed type).length → p.isGroup = false := by
    intro p type hfits heq
    by_contra hgroup
    have hlt := length_distributed_lt hfits (Bool.not_eq_false _ ▸ hgroup)
    omega
  match ps, types with
  | [], [] => simp [distributedAll, plainAll]
  | [p], [type] =>
    have hdistributed : distributedAll [p] [type] = [p.distributed type] := rfl
    have hplain : plainAll [p] [type] = [p.plain type] := rfl
    rw [hdistributed, hplain, String.intercalate_singleton, String.intercalate_singleton]
    exact ⟨length_distributed_le p type h.1,
      fun heq => List.forall_mem_singleton.mpr (hflat h.1 heq)⟩
  | p :: q :: ps, type :: type' :: types =>
    have hp := length_distributed_le p type h.1
    obtain ⟨hle, hrest⟩ := length_plainAll (q :: ps) (type' :: types) h.2
    have hdistributed :
        String.intercalate ", " (distributedAll (p :: q :: ps) (type :: type' :: types)) =
          p.distributed type ++ ", " ++
            String.intercalate ", " (distributedAll (q :: ps) (type' :: types)) :=
      String.intercalate_cons_cons
    have hplain : String.intercalate ", " (plainAll (p :: q :: ps) (type :: type' :: types)) =
        p.plain type ++ ", " ++ String.intercalate ", " (plainAll (q :: ps) (type' :: types)) :=
      String.intercalate_cons_cons
    simp only [hdistributed, hplain, String.length_append]
    exact ⟨by omega,
      fun heq => List.forall_mem_cons.mpr ⟨hflat h.1 (by omega), hrest (by omega)⟩⟩

/-- Going one level deep is enough exactly if no part is a group. -/
theorem intercalate_plainAll_iff (h : FitAll ps types) :
    String.intercalate ", " (plainAll ps types) = String.intercalate ", " (distributedAll ps types) ↔
      ∀ p ∈ ps, p.isGroup = false := by
  constructor
  · intro heq
    exact (length_plainAll ps types h).2 (by rw [heq])
  · intro hflat
    congr 1
    induction ps generalizing types with
    | nil => cases types <;> rfl
    | cons p ps ih =>
      cases types with
      | nil => cases h
      | cons type types =>
        rw [distributedAll, distributed_of_not_isGroup (hflat p List.mem_cons_self),
          ← ih h.2 fun q hq => hflat q (List.mem_cons_of_mem _ hq)]
        rfl

end Pattern

/-! ## Sites -/

namespace SyntaxTree

variable {t : SyntaxTree} {s : Site} {parts : List Pattern} {span : Span}

/-- A tuple type over a group with which it agrees in arity, at all levels, is written as the
    leading trivia, each element before its part, and the trailing trivia up to the last piece
    that is more than a blank. This is the distribution over all names exactly if no part of the
    group is a group. -/
theorem text_distributed_iff (ht : t.Reachable) (hs : t.site? s.id = some s)
    (hshape : s.shape = .pattern (.group parts)) (hfits : (Pattern.group parts).Fits s.slot)
    (hspan : t.spanOf s.id = some span) :
    let leading := Trivia.textOf s.slot.info.leading
    let trailing := Trivia.textOf (Trivia.withoutFinalBlanks s.slot.info.trailing)
    t.Cuts span (leading ++ ("(" ++
      String.intercalate ", " ((s.slot.children.zip parts).map fun (type, part) =>
        type.text ++ " " ++ part.text) ++ ")") ++ trailing) ∧
    (t.text span = leading ++ (Pattern.group parts).distributed s.slot ++ trailing ↔
      ∀ part ∈ parts, part.isGroup = false) := by
  intro leading trailing
  have hn := ht.numbered
  obtain ⟨info, elements, hslot, hall⟩ := hfits.exists_tuple
  have hdistributed : s.isDistributed = true :=
    Site.isDistributed_iff.mpr ⟨parts, info, elements, hshape, hslot, hall.length_eq⟩
  have hslotText : s.slotText = "(" ++ String.intercalate ", " (Pattern.plainAll parts elements) ++
      ")" := by
    simp [Site.slotText, hshape, hslot, hall.length_eq, Pattern.plainAll, Pattern.plain]
  have hrendering : s.rendering t.tables.render = leading ++ s.slotText ++ trailing := by
    simp [Site.rendering, hshape, hdistributed, leading, trailing]
  have hmark : .site s.id ∈ t.page.marks :=
    (hn.mem_marks_iff_placed hs).mpr (Option.isSome_of_eq_some hspan)
  have hcuts : t.Cuts span (leading ++ s.slotText ++ trailing) := by
    have hshows : t.tables.Shows t.tables.render (.site s.id) (.site s.id)
        (s.rendering t.tables.render) := ⟨s, hs, rfl, rfl⟩
    rw [← hrendering]
    exact hn.cuts_of_mem_regions (by simp) hshows (hn.mark_of_spanOf hmark rfl hspan)
  rw [hslotText] at hcuts
  refine ⟨?_, ?_⟩
  · rw [hslot]
    exact hcuts
  · rw [hcuts.text_eq, String.append_left_inj, String.append_right_inj, hslot, Pattern.distributed,
      String.append_left_inj, String.append_right_inj]
    exact Pattern.intercalate_plainAll_iff hall

/-- A group of a name and a discard. -/
theorem text_distributed_iff_commentedPattern :
    let t := Draft.commentedPattern.finish
    t.spanOf ⟨3⟩ = some ⟨0, 20⟩ ∧ t.text ⟨0, 20⟩ = "/*é*/" ++ "(int a, int _)" ++ "" := by
  intro t
  let slot : TypeExpr := .tuple
    { id := ⟨0⟩, leading := [.blockComment "/*é*/"], trailing := [.space] }
    [.keyword { id := ⟨1⟩ } "int", .keyword { id := ⟨2⟩ } "int"]
  let s : Site := ⟨⟨3⟩, slot, .pattern (.ofNames ["a", "_"])⟩
  have hspan : t.spanOf s.id = some ⟨0, 20⟩ := by rfl
  obtain ⟨-, hflat⟩ := text_distributed_iff (s := s) (.finish Draft.built_commentedPattern) rfl rfl
    ⟨trivial, trivial, trivial⟩ hspan
  exact ⟨hspan, hflat.mpr (by decide)⟩

/-- The group of `a` and `b` inside the group is not distributed over, though the types agree
    with it: the type `(int, string)` is written in front of it. -/
theorem text_nestedPattern :
    let t := Draft.nestedPattern.finish
    let slot : TypeExpr := .tuple { id := ⟨0⟩, trailing := [.space, .blockComment "/*c*/"] }
      [.tuple { id := ⟨1⟩ } [.keyword { id := ⟨2⟩ } "int", .keyword { id := ⟨3⟩ } "string"],
        .keyword { id := ⟨4⟩ } "bool"]
    let parts : Pattern := .group [.group [.single "a", .single "b"], .single "c"]
    t.Reachable ∧ t.site? ⟨5⟩ = some ⟨⟨5⟩, slot, .pattern parts⟩ ∧ parts.Fits slot ∧
      t.spanOf ⟨5⟩ = some ⟨0, 36⟩ ∧
      t.text ⟨0, 36⟩ = "((int, string) (a, b), bool c) /*c*/" ∧
      parts.distributed slot = "((int a, string b), bool c)" ∧
      t.text ⟨0, 36⟩ ≠ Trivia.textOf slot.info.leading ++ parts.distributed slot ++
        Trivia.textOf slot.info.trailing := by
  intro t slot parts
  have hsource : t.source = "((int, string) (a, b), bool c) /*c*/ = p;\n" := by rfl
  have htext : t.text ⟨0, 36⟩ = "((int, string) (a, b), bool c) /*c*/" := by
    rw [SyntaxTree.text, hsource]
    decide
  have hdistributed : parts.distributed slot = "((int a, string b), bool c)" := by rfl
  refine ⟨.finish Draft.built_nestedPattern, by rfl, ?_, by rfl, htext, hdistributed, ?_⟩
  · exact ⟨⟨trivial, trivial, trivial⟩, trivial, trivial⟩
  · rw [htext, hdistributed]
    decide

end SyntaxTree

end TypeStyle
