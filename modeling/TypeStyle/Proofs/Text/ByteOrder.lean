-- SUMMARY: Texts compare as their bytes do.
import Mathlib.Tactic.SplitIfs
import TypeStyle.Proofs.Text.Bytewise

/-! # The order of bytes

Texts compare character by character. So do their encodings byte by byte, with the same outcome:
of two characters the greater has the greater lead byte, or as many bytes and a greater one where
they first differ. -/

namespace TypeStyle

namespace Text

/-- Of the digits in the four bytes of two numbers the first that differs says which is greater,
    so nothing that comes after the bytes has to be compared. -/
theorem lt_digits {m n : Nat} (h : m < n) (hn : n < 8 * 262144) (p : Prop) :
    m / 262144 % 8 < n / 262144 % 8 ∨ m / 262144 % 8 = n / 262144 % 8 ∧
      (m / 4096 % 64 < n / 4096 % 64 ∨ m / 4096 % 64 = n / 4096 % 64 ∧
        (m / 64 % 64 < n / 64 % 64 ∨ m / 64 % 64 = n / 64 % 64 ∧
          (m % 64 < n % 64 ∨ m % 64 = n % 64 ∧ p))) := by
  have hlead : m / 262144 % 8 = m / 262144 ∧ n / 262144 % 8 = n / 262144 := by omega
  rw [hlead.1, hlead.2]
  omega

/-- A digit below a bound that leaves room for the marks of its byte is not cut. -/
theorem toNat_marked (x : Nat) {bound mark : Nat} (hpos : 0 < bound) (h : bound + mark ≤ 256) :
    (UInt8.ofNat (x % bound + mark)).toNat = x % bound + mark := by
  have hlt := Nat.mod_lt x hpos
  rw [UInt8.toNat_ofNat', Nat.mod_eq_of_lt]
  omega

/-- Of two characters the greater is encoded by greater bytes, whatever follows. -/
theorem utf8EncodeChar_append_lt {c d : Char} (h : c < d) (as bs : List UInt8) :
    String.utf8EncodeChar c ++ as < String.utf8EncodeChar d ++ bs := by
  have hval : c.val.toNat < d.val.toNat := h
  have hmax : d.val.toNat < 0x110000 := by
    have hvalid := d.valid
    simp only [UInt32.isValidChar, Nat.isValidChar] at hvalid
    omega
  simp only [String.utf8EncodeChar]
  generalize c.val.toNat = m at hval
  generalize d.val.toNat = n at hval hmax
  have hascii : ∀ x ≤ 127, (UInt8.ofNat x).toNat = x := by
    intro x hx
    rw [UInt8.toNat_ofNat', Nat.mod_eq_of_lt]
    omega
  -- One case for each pair of lengths, from one to four bytes.
  split_ifs <;>
    simp (disch := omega) only [List.cons_append, List.nil_append, List.cons_lt_cons_iff,
      UInt8.lt_iff_toNat_lt, ← UInt8.toNat_inj, toNat_marked, hascii, Nat.add_lt_add_iff_right,
      Nat.add_right_cancel_iff]
  -- Only two characters of four bytes have too many digits to compare at once.
  any_goals omega
  exact lt_digits hval (by omega) _

/-- Texts in order have their bytes in order. -/
theorem bytes_lt_bytes {as bs : List Char} (h : as < bs) : bytes as < bytes bs := by
  induction h with
  | @nil c cs =>
    rw [bytes_cons]
    cases hcode : String.utf8EncodeChar c with
    | nil => exact absurd hcode String.utf8EncodeChar_ne_nil
    | cons b rest => exact List.Lex.nil
  | @rel c cs d ds hlt =>
    rw [bytes_cons, bytes_cons]
    exact utf8EncodeChar_append_lt hlt _ _
  | @cons c cs ds _ ih =>
    rw [bytes_cons, bytes_cons]
    exact List.append_left_lt ih

end Text

end TypeStyle
