-- SUMMARY: Applying edits to a text that is cut into kept and replaced pieces, in any order of the edits.
import TypeStyle.Text.Edit

/-! # Texts in pieces

A text is cut into pieces, some kept and some to be replaced. The edits for the pieces
to be replaced lead from the old text to the new. They come in the order of their
spans, so any list with the same edits is sorted into them. -/

namespace TypeStyle

/-- A piece of a text. -/
inductive Piece where
  | keep (text : String)
  | swap (old new : String)

namespace Piece

def old : Piece → String
  | keep text => text
  | swap old _ => old

def new : Piece → String
  | keep text => text
  | swap _ new => new

/-- The text before the replacements. -/
def oldText : List Piece → String
  | [] => ""
  | p :: ps => p.old ++ oldText ps

/-- The text after the replacements. -/
def newText : List Piece → String
  | [] => ""
  | p :: ps => p.new ++ newText ps

/-- The replacements as edits of the old text, which starts at offset `start`. -/
def edits (start : Nat) : List Piece → List Edit
  | [] => []
  | keep text :: ps => edits (start + text.utf8ByteSize) ps
  | swap old new :: ps =>
    ⟨⟨start, start + old.utf8ByteSize⟩, new⟩ :: edits (start + old.utf8ByteSize) ps

theorem oldText_append (ps qs : List Piece) : oldText (ps ++ qs) = oldText ps ++ oldText qs := by
  induction ps with
  | nil => simp [oldText]
  | cons p ps ih => simp [oldText, ih, String.append_assoc]

theorem newText_append (ps qs : List Piece) : newText (ps ++ qs) = newText ps ++ newText qs := by
  induction ps with
  | nil => simp [newText]
  | cons p ps ih => simp [newText, ih, String.append_assoc]

theorem edits_append (start : Nat) (ps qs : List Piece) :
    edits start (ps ++ qs) = edits start ps ++ edits (start + (oldText ps).utf8ByteSize) qs := by
  induction ps generalizing start with
  | nil => simp [edits, oldText]
  | cons p ps ih =>
    cases p with
    | keep text => simp [edits, oldText, old, ih, Nat.add_assoc]
    | swap old new => simp [edits, oldText, Piece.old, ih, Nat.add_assoc]

/-! ## Applying the edits -/

/-- The edits of the pieces lead from the old text to the new. Text that was kept since
    the last edit stands in front. -/
theorem applyFrom_edits (cursor : Nat) (kept : String) (ps : List Piece) :
    Edit.applyFrom cursor (kept ++ oldText ps).toList (edits (cursor + kept.utf8ByteSize) ps) =
      some (kept ++ newText ps).toList := by
  induction ps generalizing cursor kept with
  | nil => simp [edits, oldText, newText, Edit.applyFrom]
  | cons p ps ih =>
    cases p with
    | keep text =>
      have hnext := ih cursor (kept ++ text)
      rw [String.utf8ByteSize_append, ← Nat.add_assoc] at hnext
      simp only [edits, oldText, newText, old, new, ← String.append_assoc, hnext]
    | swap old new =>
      have hnext := ih (cursor + kept.utf8ByteSize + old.utf8ByteSize) ""
      have hkept : cursor + kept.utf8ByteSize - cursor = Text.byteLength kept.toList := by
        rw [← Text.utf8ByteSize_eq]
        omega
      have hold : cursor + kept.utf8ByteSize + old.utf8ByteSize - (cursor + kept.utf8ByteSize) =
          Text.byteLength old.toList := by
        rw [← Text.utf8ByteSize_eq]
        omega
      have hordered : ¬ (cursor + kept.utf8ByteSize < cursor ∨
          cursor + kept.utf8ByteSize + old.utf8ByteSize < cursor + kept.utf8ByteSize) := by omega
      simp only [String.utf8ByteSize_empty, Nat.add_zero, String.empty_append] at hnext
      simp only [edits, Edit.applyFrom, if_neg hordered, hkept, hold, oldText, newText, Piece.old,
        Piece.new, String.toList_append, Text.cut?_append, Option.bind_eq_bind, Option.bind_some,
        hnext, Option.pure_def, List.append_assoc]

/-! ## The order of the edits -/

theorem start_le_of_mem_edits {start : Nat} {ps : List Piece} {e : Edit} (h : e ∈ edits start ps) :
    start ≤ e.span.start ∧ e.span.start ≤ e.span.stop := by
  induction ps generalizing start with
  | nil => cases h
  | cons p ps ih =>
    cases p with
    | keep text =>
      have := ih h
      omega
    | swap old new =>
      rcases List.mem_cons.mp h with rfl | h
      · exact ⟨Nat.le_refl _, Nat.le_add_right _ _⟩
      · have := ih h
        omega

theorem pairwise_edits (start : Nat) (ps : List Piece) :
    (edits start ps).Pairwise fun a b => a.span.before b.span = true := by
  induction ps generalizing start with
  | nil => exact List.Pairwise.nil
  | cons p ps ih =>
    cases p with
    | keep text => exact ih _
    | swap old new =>
      refine List.pairwise_cons.mpr ⟨?_, ih _⟩
      intro e he
      have := start_le_of_mem_edits he
      simp only [Span.before, Bool.or_eq_true, Bool.and_eq_true, decide_eq_true_eq]
      omega

end Piece

namespace Span

theorem before_trans (a b c : Span) (hab : a.before b = true) (hbc : b.before c = true) :
    a.before c = true := by
  simp only [before, Bool.or_eq_true, Bool.and_eq_true, decide_eq_true_eq] at *
  omega

theorem before_total (a b : Span) : (a.before b || b.before a) = true := by
  simp only [before, Bool.or_eq_true, Bool.and_eq_true, decide_eq_true_eq]
  omega

theorem before_antisymm {a b : Span} (hab : a.before b = true) (hba : b.before a = true) : a = b := by
  obtain ⟨start, stop⟩ := a
  obtain ⟨start', stop'⟩ := b
  simp only [before, Bool.or_eq_true, Bool.and_eq_true, decide_eq_true_eq, Span.mk.injEq] at *
  omega

end Span

namespace Edit

theorem pairwise_sorted (es : List Edit) :
    (sorted es).Pairwise fun a b => a.span.before b.span = true :=
  List.pairwise_mergeSort (fun a b c => Span.before_trans a.span b.span c.span)
    (fun a b => Span.before_total a.span b.span) es

/-- Edits that are told by their spans are sorted into the only order there is. -/
theorem sorted_eq_of_perm {es es' : List Edit} (hperm : es.Perm es')
    (hordered : es'.Pairwise fun a b => a.span.before b.span = true)
    (hsame : ∀ a ∈ es', ∀ b ∈ es', a.span = b.span → a = b) : sorted es = es' := by
  have hperm' : (sorted es).Perm es' := (List.mergeSort_perm es _).trans hperm
  refine List.Perm.eq_of_pairwise ?_ (pairwise_sorted es) hordered hperm'
  intro a b ha hb hab hba
  exact hsame a (hperm'.mem_iff.mp ha) b hb (Span.before_antisymm hab hba)

/-- Replacing pieces of a text by one and the same word, by edits in any order. -/
theorem applyAll_of_perm {ps : List Piece} {es : List Edit} {text : String}
    (hperm : es.Perm (Piece.edits 0 ps)) (htext : ∀ e ∈ Piece.edits 0 ps, e.text = text) :
    applyAll (Piece.oldText ps) es = some (Piece.newText ps) := by
  have hrun := Piece.applyFrom_edits 0 "" ps
  simp only [String.utf8ByteSize_empty, Nat.add_zero, String.empty_append] at hrun
  have hsame : ∀ a ∈ Piece.edits 0 ps, ∀ b ∈ Piece.edits 0 ps, a.span = b.span → a = b := by
    intro a ha b hb hspan
    obtain ⟨span, x⟩ := a
    obtain ⟨span', x'⟩ := b
    have hx : x = text := htext _ ha
    have hx' : x' = text := htext _ hb
    have hspan : span = span' := hspan
    rw [hx, hx', hspan]
  rw [applyAll, sorted_eq_of_perm hperm (Piece.pairwise_edits 0 ps) hsame, hrun]
  simp

end Edit

end TypeStyle
