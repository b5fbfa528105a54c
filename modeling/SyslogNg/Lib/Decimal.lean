import Mathlib.Data.Nat.Digits.Lemmas

/-!
# Decimal numbers as bytes

`decimal n` is what `printf("%u", n)` writes; `readDecimal` is the usual
`value = value * 10 + digit` loop over bytes. Reading back what was written gives the number.
-/

namespace SyslogNg.Lib

open List

/-- The ASCII digits of `n`, most significant first. -/
def decimal (n : Nat) : List UInt8 :=
  if n = 0 then [48] else (Nat.digits 10 n).reverse.map fun d => UInt8.ofNat (48 + d)

/-- The value after the digits `cs`, starting from `acc`. -/
def readDecimal (acc : Nat) (cs : List UInt8) : Nat :=
  cs.foldl (fun acc c => acc * 10 + (c.toNat - 48)) acc

theorem readDecimal_cons (acc : Nat) (c : UInt8) (cs : List UInt8) :
    readDecimal acc (c :: cs) = readDecimal (acc * 10 + (c.toNat - 48)) cs := by
  unfold readDecimal
  rw [foldl_cons]

theorem toNat_digit {d : Nat} (h : d < 10) : (UInt8.ofNat (48 + d)).toNat = 48 + d := by
  rw [UInt8.toNat_ofNat']
  omega

theorem decimal_digit {n : Nat} {c : UInt8} (h : c ∈ decimal n) :
    48 ≤ c.toNat ∧ c.toNat ≤ 57 := by
  unfold decimal at h
  split at h
  · obtain rfl := mem_singleton.1 h
    decide
  · obtain ⟨d, hd, rfl⟩ := mem_map.1 h
    have hlt := Nat.digits_lt_base (by decide) (mem_reverse.1 hd)
    rw [toNat_digit hlt]
    omega

theorem readDecimal_decimal (n : Nat) : readDecimal 0 (decimal n) = n := by
  unfold decimal
  split
  · next h => subst h; decide
  · have hfold : ∀ ds : List Nat, (∀ d ∈ ds, d < 10) →
        readDecimal 0 (ds.reverse.map fun d => UInt8.ofNat (48 + d)) = Nat.ofDigits 10 ds := by
      intro ds
      induction ds with
      | nil => intro _; rfl
      | cons d ds ih =>
        intro hlt
        have ih := ih fun e he => hlt e (mem_cons_of_mem _ he)
        unfold readDecimal at ih ⊢
        rw [reverse_cons, map_append, foldl_append, ih, Nat.ofDigits_cons]
        simp only [map_cons, map_nil, foldl_cons, foldl_nil, toNat_digit (hlt d mem_cons_self)]
        omega
    rw [hfold _ fun d hd => Nat.digits_lt_base (by decide) hd, Nat.ofDigits_digits]

theorem decimal_length_le {n k : Nat} (hk : 0 < k) (h : n < 10 ^ k) : (decimal n).length ≤ k := by
  unfold decimal
  split
  · exact hk
  · rw [length_map, length_reverse]
    exact (Nat.digits_length_le_iff (by decide) n).2 h

end SyslogNg.Lib
