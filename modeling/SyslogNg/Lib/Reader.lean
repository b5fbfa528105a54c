import SyslogNg.Lib.ByteStore

/-!
# Readers of a byte stream

A reader takes its value off the front of the bytes; it may also give up, or abort. An array is read one
element after another, and is read back from what its elements were written as (`readArray_flatMap`).
Integers are written in a fixed number of bytes, the highest first.
-/

namespace SyslogNg.Lib

open List

/-- What a reader comes to: an abort, an error with the bytes that are left, or a value. -/
inductive Read (α : Type) where
  | abort
  | error (rest : List UInt8)
  | ok (a : α) (rest : List UInt8)
  deriving DecidableEq

namespace Read

variable {α β : Type}

def bind : Read α → (α → List UInt8 → Read β) → Read β
  | .abort, _ => .abort
  | .error rest, _ => .error rest
  | .ok a rest, f => f a rest

@[simp] theorem bind_ok (a : α) (rest : List UInt8) (f : α → List UInt8 → Read β) :
    (Read.ok a rest).bind f = f a rest := rfl

@[simp] theorem bind_abort (f : α → List UInt8 → Read β) : (Read.abort : Read α).bind f = .abort := rfl

@[simp] theorem bind_error (rest : List UInt8) (f : α → List UInt8 → Read β) :
    (Read.error rest : Read α).bind f = .error rest := rfl

theorem bind_eq_ok {r : Read α} {f : α → List UInt8 → Read β} {b : β} {rest : List UInt8}
    (h : r.bind f = .ok b rest) : ∃ a rest', r = .ok a rest' ∧ f a rest' = .ok b rest := by
  cases r with
  | abort => cases h
  | error => cases h
  | ok a rest' => exact ⟨a, rest', rfl, h⟩

end Read

section

variable {α : Type}

def readArray (read : List UInt8 → Read α) : Nat → List UInt8 → Read (List α)
  | 0, input => .ok [] input
  | n + 1, input => (read input).bind fun a input =>
    (readArray read n input).bind fun as input => .ok (a :: as) input

variable {β : Type} {read : List UInt8 → Read α} {write : β → List UInt8} {value : β → α}

/-- **What is written element by element is read back.** -/
theorem readArray_flatMap {bs : List β}
    (h : ∀ b ∈ bs, ∀ rest, read (write b ++ rest) = .ok (value b) rest) (rest : List UInt8) :
    readArray read bs.length (bs.flatMap write ++ rest) = .ok (bs.map value) rest := by
  induction bs with
  | nil => rfl
  | cons b bs ih =>
    have hb := h b mem_cons_self
    have hbs := ih fun c hc => h c (mem_cons_of_mem b hc)
    rw [length_cons, readArray, flatMap_cons, append_assoc, hb, Read.bind_ok, hbs, Read.bind_ok, map_cons]

theorem readArray_error {before behind : List β} {b : β}
    (h : ∀ c ∈ before, ∀ rest, read (write c ++ rest) = .ok (value c) rest)
    (hb : ∀ rest, ∃ rest', read (write b ++ rest) = .error rest') (rest : List UInt8) :
    ∃ rest', readArray read (before ++ b :: behind).length
      ((before ++ b :: behind).flatMap write ++ rest) = .error rest' := by
  induction before with
  | nil =>
    obtain ⟨rest', hread⟩ := hb (behind.flatMap write ++ rest)
    refine ⟨rest', ?_⟩
    rw [nil_append, length_cons, readArray, flatMap_cons, append_assoc, hread, Read.bind_error]
  | cons c before ih =>
    have hc := h c mem_cons_self
    obtain ⟨rest', hrest⟩ := ih fun d hd => h d (mem_cons_of_mem c hd)
    refine ⟨rest', ?_⟩
    rw [cons_append, length_cons, readArray, flatMap_cons, append_assoc, hc,
      Read.bind_ok, hrest, Read.bind_error]

theorem readArray_length {size : Nat}
    (h : ∀ {input rest : List UInt8} {a : α}, read input = .ok a rest →
      rest.length + size = input.length) {n : Nat} {input rest : List UInt8} {as : List α}
    (hread : readArray read n input = .ok as rest) : rest.length + n * size = input.length := by
  induction n generalizing input as with
  | zero =>
    cases hread
    omega
  | succ n ih =>
    obtain ⟨a, input', ha, hread⟩ := Read.bind_eq_ok hread
    obtain ⟨as', input'', has, heq⟩ := Read.bind_eq_ok hread
    cases heq
    have hlen := h ha
    have hrest := ih has
    rw [Nat.succ_mul]
    omega

end

/-! ## Integers -/

/-- The lowest `k` bytes of a number, the highest of them first. -/
def beBytes : Nat → Nat → List UInt8
  | 0, _ => []
  | k + 1, n => beBytes k (n / 256) ++ [UInt8.ofNat n]

@[simp] theorem length_beBytes (k n : Nat) : (beBytes k n).length = k := by
  induction k generalizing n with
  | zero => rfl
  | succ k ih => rw [beBytes, length_append, ih, length_singleton]

theorem ofBe32_beBytes {k n : Nat} (h : n < 256 ^ k) : ofBe32 (beBytes k n) = n := by
  induction k generalizing n with
  | zero =>
    rw [Nat.pow_zero, Nat.lt_one_iff] at h
    rw [h]
    rfl
  | succ k ih =>
    have hdiv : n / 256 < 256 ^ k := by
      rw [Nat.div_lt_iff_lt_mul (by decide), ← Nat.pow_succ]
      exact h
    have hrec := ih hdiv
    unfold ofBe32 at hrec ⊢
    rw [beBytes, foldl_append, hrec, foldl_cons, foldl_nil, UInt8.toNat_ofNat']
    omega

/-- The number of `k` bytes in two's complement. -/
def signedOf (k : Nat) (bytes : List UInt8) : Int := Int.bmod (ofBe32 bytes) (256 ^ k)

/-- The `k` bytes of an integer in two's complement. -/
def signedBytes (k : Nat) (x : Int) : List UInt8 := beBytes k (x % (256 ^ k : Nat)).toNat

theorem signedOf_signedBytes {k : Nat} {x : Int} (hk : 0 < k)
    (h : -(256 ^ k / 2 : Nat) ≤ x ∧ x < (256 ^ k / 2 : Nat)) :
    signedOf k (signedBytes k x) = x := by
  have hpos : 0 < 256 ^ k := Nat.pow_pos (by decide)
  have hmod := Int.emod_nonneg x (b := (256 ^ k : Nat)) (by omega)
  have hlt := Int.emod_lt_of_pos x (b := (256 ^ k : Nat)) (by omega)
  unfold signedOf signedBytes
  rw [ofBe32_beBytes (by omega), Int.toNat_of_nonneg hmod, Int.emod_bmod]
  obtain ⟨j, rfl⟩ : ∃ j, k = j + 1 := ⟨k - 1, by omega⟩
  have heven : 256 ^ (j + 1) = 2 * (128 * 256 ^ j) := by ring
  rw [Int.bmod_eq_of_le] <;> omega

end SyslogNg.Lib
