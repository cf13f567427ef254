-- SUMMARY: Byte offsets into text: lengths in UTF-8 and cutting a text at an offset.

/-! # Byte offsets

Every offset of this library counts UTF-8 bytes. Text is cut on its list of
characters, so an offset inside a character has no cut; `cut?_eq_some_iff` says
that the cuts are exactly the ways to split the text at a character boundary. -/

namespace TypeStyle.Text

/-- The number of bytes of `cs` in UTF-8. -/
def byteLength : List Char → Nat
  | [] => 0
  | c :: cs => c.utf8Size + byteLength cs

@[simp] theorem byteLength_nil : byteLength [] = 0 := rfl

@[simp] theorem byteLength_cons (c : Char) (cs : List Char) :
    byteLength (c :: cs) = c.utf8Size + byteLength cs := rfl

@[simp] theorem byteLength_append (as bs : List Char) :
    byteLength (as ++ bs) = byteLength as + byteLength bs := by
  induction as with
  | nil => simp
  | cons a as ih => simp [ih, Nat.add_assoc]

theorem byteLength_eq_zero {cs : List Char} (h : byteLength cs = 0) : cs = [] := by
  cases cs with
  | nil => rfl
  | cons c cs =>
    have := c.utf8Size_pos
    simp at h
    omega

theorem utf8ByteSize_ofList (cs : List Char) : (String.ofList cs).utf8ByteSize = byteLength cs := by
  induction cs with
  | nil => rfl
  | cons c cs ih =>
    have h : String.ofList (c :: cs) = String.singleton c ++ String.ofList cs := by
      apply String.ext
      simp
    simp [h, ih]

theorem utf8ByteSize_eq (s : String) : s.utf8ByteSize = byteLength s.toList := by
  rw [← utf8ByteSize_ofList, String.ofList_toList]

/-! ## Cutting -/

/-- Splits `cs` after its first `n` bytes. There is no such split past the end
    or inside a character. -/
def cut? : List Char → Nat → Option (List Char × List Char)
  | cs, 0 => some ([], cs)
  | [], _ + 1 => none
  | c :: cs, n + 1 =>
    if c.utf8Size ≤ n + 1 then
      (cut? cs (n + 1 - c.utf8Size)).map fun (before, after) => (c :: before, after)
    else
      none

@[simp] theorem cut?_zero (cs : List Char) : cut? cs 0 = some ([], cs) := by
  cases cs <;> rfl

theorem cut?_append (as bs : List Char) : cut? (as ++ bs) (byteLength as) = some (as, bs) := by
  induction as with
  | nil => simp
  | cons a as ih =>
    have := a.utf8Size_pos
    obtain ⟨n, hn⟩ : ∃ n, byteLength (a :: as) = n + 1 := ⟨byteLength (a :: as) - 1, by simp; omega⟩
    have hsub : n + 1 - a.utf8Size = byteLength as := by simp at hn; omega
    have hle : a.utf8Size ≤ n + 1 := by simp at hn; omega
    simp [hn, cut?, hle, hsub, ih]

theorem append_of_cut? {cs as bs : List Char} {n : Nat} (h : cut? cs n = some (as, bs)) :
    cs = as ++ bs ∧ byteLength as = n := by
  induction cs generalizing n as with
  | nil =>
    cases n with
    | zero =>
      simp at h
      simp [h]
    | succ n => simp [cut?] at h
  | cons c cs ih =>
    cases n with
    | zero =>
      simp at h
      simp [h]
    | succ n =>
      simp only [cut?] at h
      split at h
      · next hle =>
        simp only [Option.map_eq_some_iff, Prod.mk.injEq, Prod.exists] at h
        obtain ⟨as', bs', hcut, rfl, rfl⟩ := h
        obtain ⟨rfl, hlen⟩ := ih hcut
        simp
        omega
      · cases h

theorem cut?_eq_some_iff {cs as bs : List Char} {n : Nat} :
    cut? cs n = some (as, bs) ↔ cs = as ++ bs ∧ byteLength as = n :=
  ⟨append_of_cut?, by rintro ⟨rfl, rfl⟩; exact cut?_append as bs⟩

/-- An offset at which `cs` can be cut. -/
def IsBoundary (cs : List Char) (n : Nat) : Prop :=
  (cut? cs n).isSome

instance (cs : List Char) (n : Nat) : Decidable (IsBoundary cs n) :=
  inferInstanceAs (Decidable ((cut? cs n).isSome = true))

theorem isBoundary_iff {cs : List Char} {n : Nat} :
    IsBoundary cs n ↔ ∃ as bs, cs = as ++ bs ∧ byteLength as = n := by
  simp [IsBoundary, Option.isSome_iff_exists, cut?_eq_some_iff]

end TypeStyle.Text
