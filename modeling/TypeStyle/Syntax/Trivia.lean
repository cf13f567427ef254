-- SUMMARY: Blanks and comments around a written type.

/-! # Trivia

What stands before and after a written type without being part of it. A slot
keeps its trivia when the type in it is replaced. -/

namespace TypeStyle

inductive Trivia where
  | blank (text : String)
  | newline
  /-- A comment to the end of the line, its slashes included. -/
  | lineComment (text : String)
  /-- A delimited comment, its delimiters included. -/
  | blockComment (text : String)
  deriving DecidableEq, Repr

namespace Trivia

def space : Trivia := .blank " "

def text : Trivia → String
  | blank text => text
  | newline => "\n"
  | lineComment text => text
  | blockComment text => text

def isBlank : Trivia → Bool
  | blank _ => true
  | _ => false

/-- The text of several pieces, one after the other. -/
def textOf (pieces : List Trivia) : String :=
  String.join (pieces.map text)

/-- The pieces up to the last one that is more than a blank. -/
def withoutFinalBlanks : List Trivia → List Trivia
  | [] => []
  | piece :: pieces =>
    match withoutFinalBlanks pieces with
    | [] => if piece.isBlank then [] else [piece]
    | kept => piece :: kept

theorem withoutFinalBlanks_append (pieces : List Trivia) :
    ∃ blanks : List Trivia, withoutFinalBlanks pieces ++ blanks = pieces ∧
      ∀ piece ∈ blanks, piece.isBlank = true := by
  induction pieces with
  | nil => exact ⟨[], rfl, by simp⟩
  | cons piece pieces ih =>
    obtain ⟨blanks, happ, hblank⟩ := ih
    simp only [withoutFinalBlanks]
    split
    · next hkept =>
      rw [hkept, List.nil_append] at happ
      subst happ
      split
      · next h => exact ⟨piece :: blanks, rfl, by simpa [h] using hblank⟩
      · exact ⟨blanks, rfl, hblank⟩
    · exact ⟨blanks, by simp [happ], hblank⟩

end Trivia

end TypeStyle
