import Mathlib.Tactic

/-!
# Byte stores

A store has a byte at every offset. What is written in one place is read back there
(`read_write_self`) and does not matter in another (`Agree.write`).
-/

namespace SyslogNg.Lib

open List

abbrev ByteStore := Nat → UInt8

namespace ByteStore

def read (m : ByteStore) (ofs n : Nat) : List UInt8 := (List.range n).map fun i => m (ofs + i)

def write (m : ByteStore) (ofs : Nat) (bytes : List UInt8) : ByteStore := fun i =>
  if ofs ≤ i then (bytes[i - ofs]?).getD (m i) else m i

variable {m m' : ByteStore} {ofs ofs' n k : Nat} {bytes : List UInt8}

@[simp] theorem length_read : (m.read ofs n).length = n := by
  unfold read
  rw [length_map, length_range]

theorem getElem_read {i : Nat} (hi : i < (m.read ofs n).length) : (m.read ofs n)[i] = m (ofs + i) := by
  simp only [read, getElem_map, getElem_range]

theorem getD_read {i : Nat} (hi : i < n) (d : UInt8) : (m.read ofs n).getD i d = m (ofs + i) := by
  have hlt : i < (m.read ofs n).length := by rwa [length_read]
  rw [getD_eq_getElem?_getD, getElem?_eq_getElem hlt, getElem_read, Option.getD_some]

theorem read_append (m : ByteStore) (ofs n k : Nat) :
    m.read ofs (n + k) = m.read ofs n ++ m.read (ofs + n) k := by
  unfold read
  rw [range_add, map_append, map_map]
  congr 2
  funext i
  simp [Nat.add_assoc]

theorem write_inside {i : Nat} (hi : i < bytes.length) : m.write ofs bytes (ofs + i) = bytes[i] := by
  unfold write
  rw [if_pos (Nat.le_add_right ofs i), Nat.add_sub_cancel_left, getElem?_eq_getElem hi, Option.getD_some]

theorem write_outside {i : Nat} (hi : i < ofs ∨ ofs + bytes.length ≤ i) : m.write ofs bytes i = m i := by
  unfold write
  split
  · have hnone : bytes[i - ofs]? = none := getElem?_eq_none (by omega)
    rw [hnone, Option.getD_none]
  · rfl

theorem read_write_self : (m.write ofs bytes).read ofs bytes.length = bytes := by
  refine ext_getElem length_read fun i hi hi' => ?_
  rw [getElem_read, write_inside hi']

theorem write_append (m : ByteStore) (ofs : Nat) (a b : List UInt8) :
    (m.write ofs a).write (ofs + a.length) b = m.write ofs (a ++ b) := by
  funext i
  unfold write
  rw [getElem?_append]
  by_cases hb : ofs + a.length ≤ i
  · have hnone : a[i - ofs]? = none := getElem?_eq_none (by omega)
    rw [if_pos hb, if_pos (by omega), if_pos (by omega), if_neg (by omega), hnone,
      Nat.sub_sub, Option.getD_none]
  · rw [if_neg hb]
    by_cases ha : ofs ≤ i
    · rw [if_pos ha, if_pos ha, if_pos (by omega)]
    · rw [if_neg ha, if_neg ha]

/-! ## Stores that agree -/

/-- The stores have the same `n` bytes from `ofs` on. -/
def Agree (m m' : ByteStore) (ofs n : Nat) : Prop := ∀ i, ofs ≤ i → i < ofs + n → m' i = m i

theorem Agree.read (h : Agree m m' ofs n) : m'.read ofs n = m.read ofs n := by
  unfold ByteStore.read
  refine map_congr_left fun i hi => ?_
  have hlt := mem_range.1 hi
  exact h (ofs + i) (Nat.le_add_right ofs i) (by omega)

theorem Agree.write (hsep : ofs' + n ≤ ofs ∨ ofs + bytes.length ≤ ofs') :
    Agree m (m.write ofs bytes) ofs' n :=
  fun i hi hlt => write_outside (by omega)

theorem read_write_left (m : ByteStore) (ofs : Nat) (a b : List UInt8) :
    (m.write ofs (a ++ b)).read ofs a.length = a := by
  rw [← write_append]
  exact (Agree.write (.inl le_rfl)).read.trans read_write_self

end ByteStore

/-! ## Words -/

/-- A 32 bit word, the highest byte first. -/
def be32 (n : Nat) : List UInt8 :=
  [UInt8.ofNat (n / 2 ^ 24), UInt8.ofNat (n / 2 ^ 16), UInt8.ofNat (n / 2 ^ 8), UInt8.ofNat n]

def ofBe32 (bytes : List UInt8) : Nat := bytes.foldl (fun acc b => acc * 2 ^ 8 + b.toNat) 0

@[simp] theorem length_be32 (n : Nat) : (be32 n).length = 4 := rfl

theorem ofBe32_be32 {n : Nat} (h : n < 2 ^ 32) : ofBe32 (be32 n) = n := by
  simp only [ofBe32, be32, foldl_cons, foldl_nil, UInt8.toNat_ofNat']
  omega

namespace ByteStore

def word (m : ByteStore) (ofs : Nat) : Nat := ofBe32 (m.read ofs 4)

variable {m m' : ByteStore} {ofs : Nat}

theorem Agree.word (h : Agree m m' ofs 4) : m'.word ofs = m.word ofs := by
  unfold ByteStore.word
  rw [h.read]

theorem word_of_read {n : Nat} (hn : n < 2 ^ 32) (h : m.read ofs 4 = be32 n) : m.word ofs = n := by
  unfold word
  rw [h, ofBe32_be32 hn]

end ByteStore

end SyslogNg.Lib
