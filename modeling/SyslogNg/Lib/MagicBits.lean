import Mathlib.Tactic

/-!
# The magic bits test for a zero byte

The word-at-a-time scans of the C library add a constant whose holes catch the carry that a
non-zero byte produces. A word with a zero byte always fails to produce one of the carries, so
the test never misses it; it may fire without one, and the callers look again byte by byte.
-/

namespace SyslogNg.Lib

def magicBits : BitVec 64 := 0x7efefefefefefeff#64

/-- `(((w + magic_bits) ^ ~w) & ~magic_bits) != 0`. -/
def mayHaveZeroByte (w : BitVec 64) : Bool :=
  ((w + magicBits) ^^^ ~~~w) &&& ~~~magicBits != 0

/-- Byte `i` of a word, counted from the least significant one. -/
def wordByte (w : BitVec 64) (i : Nat) : BitVec 8 := w.extractLsb' (8 * i) 8

theorem wordByte_xor (w v : BitVec 64) (i : Nat) :
    wordByte (w ^^^ v) i = wordByte w i ^^^ wordByte v i :=
  BitVec.extractLsb'_xor

theorem toNat_wordByte (w : BitVec 64) (i : Nat) :
    (wordByte w i).toNat = w.toNat / 2 ^ (8 * i) % 2 ^ 8 := by
  simp [wordByte, Nat.shiftRight_eq_div_pow]

theorem magicBits_toNat : magicBits.toNat = 0x7efefefefefefeff := rfl

theorem ne_zero_of_hole {w m : BitVec 64} {k : Nat} (hk : k < 64) (hhole : m.getLsbD k = false)
    (hbit : (w.toNat + m.toNat) % 2 ^ 64 / 2 ^ k % 2 = w.toNat / 2 ^ k % 2) :
    ((w + m) ^^^ ~~~w) &&& ~~~m ≠ 0 := by
  have hsame : (w + m).getLsbD k = w.getLsbD k := by
    unfold BitVec.getLsbD
    rw [BitVec.toNat_add, Nat.testBit_eq_decide_div_mod_eq, Nat.testBit_eq_decide_div_mod_eq, hbit]
  intro hzero
  have hbits := congrArg (fun v => BitVec.getLsbD v k) hzero
  simp only [BitVec.getLsbD_and, BitVec.getLsbD_xor, BitVec.getLsbD_not, hk, hhole, hsame,
    decide_true, Bool.not_false, Bool.and_true, Bool.true_and] at hbits
  cases hw : w.getLsbD k <;> simp [hw] at hbits

/-- **No zero byte is missed.** -/
theorem mayHaveZeroByte_of_zero {w : BitVec 64} {i : Nat} (hi : i < 8) (h : wordByte w i = 0) :
    mayHaveZeroByte w = true := by
  have hb : w.toNat / 2 ^ (8 * i) % 2 ^ 8 = 0 := by
    rw [← toNat_wordByte, h]
    rfl
  have hw := w.isLt
  unfold mayHaveZeroByte
  rw [bne_iff_ne]
  -- the carry out of byte `i` is missing in bit `8 * i + 8`; the last byte shows in the sign bit
  obtain ⟨k, hk, hhole, hbit⟩ : ∃ k < 64, magicBits.getLsbD k = false ∧
      (w.toNat + magicBits.toNat) % 2 ^ 64 / 2 ^ k % 2 = w.toNat / 2 ^ k % 2 := by
    rw [magicBits_toNat]
    generalize w.toNat = n at *
    interval_cases i
    · exact ⟨8, by decide, rfl, by omega⟩
    · exact ⟨16, by decide, rfl, by omega⟩
    · exact ⟨24, by decide, rfl, by omega⟩
    · exact ⟨32, by decide, rfl, by omega⟩
    · exact ⟨40, by decide, rfl, by omega⟩
    · exact ⟨48, by decide, rfl, by omega⟩
    · exact ⟨56, by decide, rfl, by omega⟩
    · exact ⟨63, by decide, rfl, by omega⟩
  exact ne_zero_of_hole hk hhole hbit

end SyslogNg.Lib
