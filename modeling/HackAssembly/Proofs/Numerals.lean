import HackAssembly.Text.Numeral
import Mathlib.Data.List.Basic
import Mathlib.Data.List.Induction
import Mathlib.Data.Nat.Digits.Defs

/-!
# The numbers that numerals denote

The value of a numeral is stated by the places of its digits, for numerals of any length; what is
said elsewhere about numbers in a source or in a message is said with it. That numerals read digit
by digit have this value, and that a number written in base ten has it, is proved here once.
-/

namespace HackAssembly

/-- The sum of the digits, each with the power of ten that belongs to its place. -/
def placeValue (digits : Bytes) : Nat :=
  Nat.ofDigits 10 (digits.reverse.map fun b => b.toNat - (byte '0').toNat)

/-- The integer that a numeral with at most one minus sign denotes. -/
def signedPlaceValue (s : Bytes) : Int :=
  if s.head? = some (byte '-') then -(placeValue s.tail : Int) else placeValue s

theorem placeValue_snoc (digits : Bytes) (b : UInt8) :
    placeValue (digits ++ [b]) = 10 * placeValue digits + (b.toNat - 48) := by
  rw [placeValue, List.reverse_append, List.reverse_singleton, List.singleton_append, List.map_cons,
    Nat.ofDigits_cons, ← placeValue, Nat.add_comm]
  rfl

namespace Numeral

/-! ### Numerals read -/

theorem toNat_snoc (digits : Bytes) (b : UInt8) :
    toNat (digits ++ [b]) = 10 * toNat digits + (b.toNat - 48) := by
  rw [toNat, List.foldl_append]
  rfl

theorem toNat_eq_placeValue (digits : Bytes) : toNat digits = placeValue digits := by
  induction digits using List.reverseRecOn with
  | nil => rfl
  | append_singleton digits b ih => rw [toNat_snoc, placeValue_snoc, ih]

theorem toInt_eq_signedPlaceValue (s : Bytes) : toInt s = signedPlaceValue s := by
  rw [toInt, signedPlaceValue, toNat_eq_placeValue, toNat_eq_placeValue]

theorem fits64_iff (n : Int) : fits64 n = true ↔ -2 ^ 63 ≤ n ∧ n < 2 ^ 63 := by
  rw [fits64, Bool.and_eq_true, decide_eq_true_eq, decide_eq_true_eq]
  omega

/-! ### Numbers written -/

theorem toNat_byte {c : Char} (h : c.isDigit = true) : (byte c).toNat = c.toNat := by
  have hbounds : 48 ≤ c.toNat ∧ c.toNat ≤ 57 := Char.isDigit_iff_toNat.mp h
  have hbyte : (byte c).toNat = c.toNat % 256 := rfl
  omega

theorem isDigit_byte {c : Char} (h : c.isDigit = true) : isDigit (byte c) = true := by
  have hbounds : 48 ≤ c.toNat ∧ c.toNat ≤ 57 := Char.isDigit_iff_toNat.mp h
  have hzero : (byte '0').toNat = 48 := rfl
  have hnine : (byte '9').toNat = 57 := rfl
  rw [isDigit, Bool.and_eq_true, decide_eq_true_eq, decide_eq_true_eq, UInt8.le_iff_toNat_le,
    UInt8.le_iff_toNat_le, toNat_byte h]
  omega

theorem isDigit_of_mem_ofNat {n : Nat} {b : UInt8} (h : b ∈ ofNat n) : isDigit b = true := by
  obtain ⟨c, hc, rfl⟩ := List.mem_map.mp h
  exact isDigit_byte (Nat.isDigit_of_mem_toDigits (by decide) (by decide) hc)

theorem toNat_ofNat (n : Nat) : toNat (ofNat n) = n := by
  calc toNat (ofNat n)
      = (Nat.toDigits 10 n).foldl (fun m c => 10 * m + ((byte c).toNat - 48)) 0 := by
        rw [toNat, ofNat, List.foldl_map]
    _ = (Nat.toDigits 10 n).foldl (fun m c => 10 * m + (c.toNat - 48)) 0 := by
        apply List.foldl_ext
        intro m c hc
        rw [toNat_byte (Nat.isDigit_of_mem_toDigits (by decide) (by decide) hc)]
    _ = Nat.ofDigitChars 10 (Nat.toDigits 10 n) 0 := Nat.ofDigitChars_eq_foldl.symm
    _ = n := Nat.ofDigitChars_ten_toDigits

theorem not_mem_ofInt {b : UInt8} (hdigit : isDigit b = false) (hminus : b ≠ byte '-') (n : Int) :
    b ∉ ofInt n := by
  have hnat : ∀ m, b ∉ ofNat m := by
    intro m hb
    rw [isDigit_of_mem_ofNat hb] at hdigit
    cases hdigit
  cases n with
  | ofNat n => exact hnat n
  | negSucc n =>
      rw [ofInt, List.mem_cons, not_or]
      exact ⟨hminus, hnat (n + 1)⟩

theorem ofInt_ne_nil (n : Int) : ofInt n ≠ [] := by
  cases n with
  | ofNat n => simp [ofInt, ofNat, Nat.toDigits_ne_nil]
  | negSucc n => exact List.cons_ne_nil _ _

theorem isDigits_ofNat (n : Nat) : isDigits (ofNat n) = true := by
  rw [isDigits, Bool.and_eq_true, List.all_eq_true]
  exact ⟨by simp [ofNat, Nat.toDigits_ne_nil], fun b hb => isDigit_of_mem_ofNat hb⟩

theorem head?_ofNat_ne (n : Nat) : (ofNat n).head? ≠ some (byte '-') := by
  intro h
  exact absurd (isDigit_of_mem_ofNat (List.mem_of_mem_head? h)) (by decide)

theorem isSignedDigits_ofInt (n : Int) : isSignedDigits (ofInt n) = true := by
  cases n with
  | ofNat n =>
      rw [isSignedDigits, ofInt, unsigned, if_neg (head?_ofNat_ne n)]
      exact isDigits_ofNat n
  | negSucc n => exact isDigits_ofNat (n + 1)

theorem placeValue_ofNat (n : Nat) : placeValue (ofNat n) = n := by
  rw [← toNat_eq_placeValue, toNat_ofNat]

theorem signedPlaceValue_ofInt (n : Int) : signedPlaceValue (ofInt n) = n := by
  cases n with
  | ofNat n =>
      rw [ofInt, signedPlaceValue, if_neg (head?_ofNat_ne n), placeValue_ofNat]
      rfl
  | negSucc n =>
      rw [ofInt, signedPlaceValue, List.head?_cons, if_pos rfl, List.tail_cons, placeValue_ofNat]
      rfl

end Numeral

end HackAssembly
