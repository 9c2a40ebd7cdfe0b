import HackAssembly.Assembly.Encoding
import HackAssembly.Proofs.Numerals
import Mathlib.Data.Nat.Bitwise

/-!
# Binary numerals of words

The digits of a word are read back from the highest on: after `n` of them the number read is the
word without its lowest `16 - n` bits. An address is encoded exactly when it fits in a word, and
then by the sixteen digits that denote it.
-/

namespace HackAssembly

/-- The number that binary digits denote, the highest first. -/
def binaryValue (s : Bytes) : Nat :=
  s.foldl (fun n b => 2 * n + if b = byte '1' then 1 else 0) 0

/-- `s` is the numeral of sixteen binary digits that denotes `v`. -/
structure IsBinary16 (s : Bytes) (v : Int) : Prop where
  length : s.length = 16
  digit : ∀ b ∈ s, b = byte '0' ∨ b = byte '1'
  value : (binaryValue s : Int) = v

namespace Code

theorem binaryValue_take_digits (w : Code) {n : Nat} (hn : n ≤ 16) :
    binaryValue ((List.range n).map fun i => if w.getMsbD i then byte '1' else byte '0') =
      w.toNat / 2 ^ (16 - n) := by
  induction n with
  | zero =>
      rw [Nat.div_eq_of_lt w.isLt]
      rfl
  | succ n ih =>
      have hbit : w.getMsbD n = w.toNat.testBit (15 - n) := by
        rw [BitVec.getMsbD_eq_getLsbD, BitVec.getLsbD]
        simp only [show n < 16 by omega, decide_true, Bool.true_and]
      have hhalf : w.toNat / 2 ^ (16 - n) = w.toNat / 2 ^ (15 - n) / 2 := by
        calc w.toNat / 2 ^ (16 - n) = w.toNat / (2 ^ (15 - n) * 2) := by
              rw [← Nat.pow_succ, show (15 - n).succ = 16 - n by omega]
          _ = w.toNat / 2 ^ (15 - n) / 2 := (Nat.div_div_eq_div_mul ..).symm
      rw [List.range_succ, List.map_append, binaryValue, List.foldl_append, ← binaryValue,
        ih (by omega), hhalf, show 16 - (n + 1) = 15 - n by omega]
      have hmod := Nat.mod_two_eq_zero_or_one (w.toNat / 2 ^ (15 - n))
      have hdiv := Nat.div_add_mod (w.toNat / 2 ^ (15 - n)) 2
      simp only [List.map_cons, List.map_nil, List.foldl_cons, List.foldl_nil, hbit,
        Nat.testBit_eq_decide_div_mod_eq, decide_eq_true_eq]
      rcases hmod with hzero | hone
      · rw [hzero, if_neg (by decide)]
        omega
      · rw [hone, if_pos (by decide)]
        omega

theorem isBinary16_digits (w : Code) : IsBinary16 w.digits w.toNat where
  length := length_digits w
  digit b hb := by
    obtain ⟨i, -, rfl⟩ := List.mem_map.mp hb
    cases w.getMsbD i
    · exact Or.inl rfl
    · exact Or.inr rfl
  value := by
    rw [digits, binaryValue_take_digits w (Nat.le_refl 16), Nat.sub_self, Nat.pow_zero,
      Nat.div_one]

end Code

theorem isBinary16_of_encodeAddress {address : Int} {code : Code}
    (h : encodeAddress address = .ok code) : IsBinary16 code.digits address := by
  unfold encodeAddress at h
  split at h
  · rename_i hfits
    cases h
    have hvalue : ((BitVec.ofInt 16 address).toNat : Int) = address := by
      rw [BitVec.toNat_ofInt]
      rw [Code.largest] at hfits
      omega
    have hdigits := Code.isBinary16_digits (BitVec.ofInt 16 address)
    rwa [hvalue] at hdigits
  · cases h

/-- Whichever check refuses a numeral that is too large, an accepted one is written in binary. -/
theorem isBinary16_of_encodeNumeral {numeral : Bytes} {code : Code}
    (h : encodeNumeral numeral = .ok code) :
    IsBinary16 code.digits (signedPlaceValue numeral) := by
  simp only [encodeNumeral, Numeral.toInt_eq_signedPlaceValue] at h
  split at h
  · exact isBinary16_of_encodeAddress h
  · cases h

end HackAssembly
