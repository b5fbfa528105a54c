import Mathlib.Data.Int.Basic
import Mathlib.Tactic.Linarith

/-!
# Fixed-width C integers

`wrap32 x` is the `gint` that holds the mathematical value `x`, in two's complement.
Unsigned fields are naturals reduced with `%` where the code stores into them.
-/

namespace SyslogNg.Lib

/-- The 32 bit two's complement value of `x`. -/
def wrap32 (x : Int) : Int := x.bmod (2 ^ 32)

@[simp] theorem wrap32_zero : wrap32 0 = 0 := rfl

theorem wrap32_eq_self {x : Int} (h : -2 ^ 31 ≤ x ∧ x < 2 ^ 31) : wrap32 x = x := by
  unfold wrap32
  apply Int.bmod_eq_of_le <;> omega

theorem wrap32_range (x : Int) : -2 ^ 31 ≤ wrap32 x ∧ wrap32 x < 2 ^ 31 := by
  unfold wrap32
  have h1 := Int.le_bmod (x := x) (m := 2 ^ 32) (by decide)
  have h2 := Int.bmod_lt (x := x) (m := 2 ^ 32) (by decide)
  omega

theorem wrap32_emod (x : Int) : wrap32 x % 2 ^ 32 = x % 2 ^ 32 := by
  have h := Int.bmod_emod (x := x) (m := 2 ^ 32)
  simpa [wrap32] using h

theorem wrap32_wrap32_add (x y : Int) : wrap32 (wrap32 x + y) = wrap32 (x + y) :=
  Int.bmod_add_bmod

/-- The `guint32` difference. -/
def usub32 (a b : Nat) : Nat := (a + 2 ^ 32 - b) % 2 ^ 32

theorem usub32_of_le {a b : Nat} (h : b ≤ a) (ha : a < 2 ^ 32) : usub32 a b = a - b := by
  unfold usub32
  omega

/-- A `gint` counter `c` that counts at most `n` things: some increments may be missing, but
the counter, read as unsigned, is never ahead of `n`. -/
def CountLe (c : Int) (n : Nat) : Prop := (-2 ^ 31 ≤ c ∧ c < 2 ^ 31) ∧ c % 2 ^ 32 ≤ n

theorem CountLe.zero (n : Nat) : CountLe 0 n := ⟨by decide, by simp⟩

theorem CountLe.ofNat {c n : Nat} (hc : c ≤ n) (h : c < 2 ^ 31) : CountLe c n :=
  ⟨by omega, by omega⟩

theorem CountLe.add {x y : Int} {n m : Nat} (hx : CountLe x n) (hy : CountLe y m) :
    CountLe (wrap32 (x + y)) (n + m) := by
  refine ⟨wrap32_range _, ?_⟩
  have h1 := hx.2
  have h2 := hy.2
  rw [wrap32_emod]
  push_cast
  omega

theorem CountLe.sub {c : Int} {n k : Nat} (h : CountLe c (k + n)) (hc : k ≤ c) :
    CountLe (c - k) n := by
  obtain ⟨h1, h2⟩ := h
  refine ⟨by omega, ?_⟩
  push_cast at h2
  omega

theorem CountLe.pos {c : Int} {n : Nat} (h : CountLe c n) (hc : 0 < c) : 0 < n := by
  obtain ⟨h1, h2⟩ := h
  omega

end SyslogNg.Lib
