import Mathlib.Logic.Function.Basic
import Mathlib.Tactic

/-!
# Maps whose values may be slices of each other

A key holds bytes of its own, or a slice of the bytes of another key. In a `Flat` map only keys
with bytes of their own are referred to, so that a slice is one step away from its bytes. A key
that nothing refers to may be changed without changing any other value; a slice may always be
replaced by its own copy.
-/

namespace SyslogNg.Lib

open Function

variable {K α : Type}

inductive Cell (K α : Type) where
  | own (v : List α)
  | slice (ref : K) (ofs len : Nat)

abbrev SliceMap (K α : Type) := K → Option (Cell K α)

/-- The part of `v` from `ofs` up to `ofs + len` or the end of `v`. -/
def slice (v : List α) (ofs len : Nat) : List α := (v.drop ofs).take len

theorem slice_of_lt {v : List α} {ofs : Nat} (h : v.length < ofs) (len : Nat) : slice v ofs len = [] := by
  rw [slice, List.drop_eq_nil_of_le (Nat.le_of_lt h), List.take_nil]

namespace SliceMap

variable {m : SliceMap K α} {k k' r : K}

def ownValue (m : SliceMap K α) (k : K) : List α :=
  match m k with
  | some (.own v) => v
  | _ => []

def value (m : SliceMap K α) (k : K) : List α :=
  match m k with
  | none => []
  | some (.own v) => v
  | some (.slice r ofs len) => slice (m.ownValue r) ofs len

def Refers (m : SliceMap K α) (k r : K) : Prop := ∃ ofs len, m k = some (.slice r ofs len)

/-- Only keys with bytes of their own are referred to. -/
def Flat (m : SliceMap K α) : Prop := ∀ k r, m.Refers k r → ∃ v, m r = some (.own v)

variable {v : List α}

theorem ownValue_of_own (h : m k = some (.own v)) : m.ownValue k = v := by
  rw [ownValue, h]

theorem value_of_own (h : m k = some (.own v)) : m.value k = v := by
  rw [value, h]

theorem value_of_none (h : m k = none) : m.value k = [] := by
  rw [value, h]

theorem value_of_slice {ofs len : Nat} (h : m k = some (.slice r ofs len)) :
    m.value k = slice (m.ownValue r) ofs len := by
  rw [value, h]

theorem Flat.not_refers (h : m.Flat) (hk : ∀ v, m k ≠ some (.own v)) (k' : K) : ¬ m.Refers k' k := by
  intro hr
  obtain ⟨v, hv⟩ := h k' k hr
  exact hk v hv

variable [DecidableEq K]

theorem value_update_of_ne (hr : ∀ k', ¬ m.Refers k' k) (c : Option (Cell K α)) (hne : k' ≠ k) :
    SliceMap.value (update m k c) k' = m.value k' := by
  unfold SliceMap.value
  rw [update_of_ne hne]
  rcases hk : m k' with - | ⟨v⟩ | ⟨r, ofs, len⟩
  · rfl
  · rfl
  · have hrk : r ≠ k := by
      rintro rfl
      exact hr k' ⟨ofs, len, hk⟩
    unfold ownValue
    simp only [update_of_ne hrk]

theorem value_update_own (m : SliceMap K α) (k : K) (v : List α) :
    SliceMap.value (update m k (some (.own v))) k = v :=
  value_of_own (update_self ..)

theorem value_update_slice (hne : r ≠ k) (hv : m r = some (.own v)) (ofs len : Nat) :
    SliceMap.value (update m k (some (.slice r ofs len))) k = slice (m.value r) ofs len := by
  have hr : update m k (some (.slice r ofs len)) r = some (.own v) := by
    rw [update_of_ne hne, hv]
  rw [value_of_slice (update_self ..), ownValue_of_own hr, value_of_own hv]

theorem value_update_copy (h : m.Flat) (hr : m.Refers k r) (k' : K) :
    SliceMap.value (update m k (some (.own (m.value k)))) k' = m.value k' := by
  obtain ⟨ofs, len, hk⟩ := hr
  by_cases hne : k' = k
  · subst hne
    exact value_update_own m k' _
  · exact value_update_of_ne (h.not_refers fun v hv => by rw [hk] at hv; cases hv) _ hne

theorem refers_update_own (hr : SliceMap.Refers (update m k (some (.own v))) k' r) :
    k' ≠ k ∧ m.Refers k' r := by
  obtain ⟨ofs, len, hk⟩ := hr
  by_cases hne : k' = k
  · subst hne
    rw [update_self] at hk
    cases hk
  · rw [update_of_ne hne] at hk
    exact ⟨hne, ofs, len, hk⟩

end SliceMap

end SyslogNg.Lib
