import Mathlib.Tactic

/-!
# Byte buffers of a C program

An allocated block is the list of its cells. `window b i j` is what lies between the offsets
`i` and `j`. The three operations that a stream reader does on its buffer (store at an offset,
move a window to the start, reallocate) are partial where C would leave the block, and each
has one lemma that says what is in the window afterwards.
-/

namespace SyslogNg.Lib

open List

variable {α : Type}

/-- The cells from offset `i` up to, not including, offset `j`. -/
def window (b : List α) (i j : Nat) : List α := (b.take j).drop i

/-- The store of `bs` at offset `i`; `none` if it does not fit. -/
def store (b : List α) (i : Nat) (bs : List α) : Option (List α) :=
  if i + bs.length ≤ b.length then some (b.take i ++ bs ++ b.drop (i + bs.length)) else none

/-- `memmove(b, &b[i], n)`; `none` if the source leaves the block. -/
def moveToStart (b : List α) (i n : Nat) : Option (List α) :=
  if n = 0 then some b
  else if i + n ≤ b.length then some (window b i (i + n) ++ b.drop n) else none

/-- `g_realloc(b, n)`: new cells hold `junk`. -/
def realloc (junk : α) (b : List α) (n : Nat) : List α :=
  b.take n ++ List.replicate (n - b.length) junk

@[simp] theorem window_length (b : List α) (i j : Nat) : (window b i j).length = min j b.length - i := by
  simp [window]

@[simp] theorem window_self (b : List α) (i : Nat) : window b i i = [] := by
  simp [window]

variable {i j : Nat} {b' : List α}

theorem window_of_le (b : List α) (h : j ≤ i) : window b i j = [] := by
  apply eq_nil_of_length_eq_zero
  rw [window_length]
  omega

theorem window_append (b : List α) {k : Nat} (hik : i ≤ k) (hkj : k ≤ j) :
    window b i k ++ window b k j = window b i j := by
  apply ext_getElem?
  intro n
  simp only [window, getElem?_append, getElem?_drop, getElem?_take, length_drop, length_take]
  split <;> split <;> grind

variable {b : List α}

theorem window_take {xs ys : List α} (h : window b i j = xs ++ ys) : window b i (i + xs.length) = xs := by
  have hlen := congrArg List.length h
  rw [window_length, length_append] at hlen
  rcases Nat.eq_zero_or_pos xs.length with hz | hz
  · rw [length_eq_zero_iff.1 hz, length_nil, Nat.add_zero, window_self]
  have hsplit := window_append b (Nat.le_add_right i xs.length) (show i + xs.length ≤ j by omega)
  rw [h] at hsplit
  exact (append_inj hsplit (by rw [window_length]; omega)).1

theorem window_drop {xs ys : List α} (h : window b i j = xs ++ ys) : window b (i + xs.length) j = ys := by
  unfold window at h ⊢
  rw [Nat.add_comm, Nat.add_comm xs.length, ← drop_drop, h, drop_left]

theorem drop_eq_window (b : List α) (h : i ≤ j) : b.drop i = window b i j ++ b.drop j := by
  unfold window
  conv_lhs => rw [← take_append_drop j b]
  rcases Nat.le_total j b.length with hj | hj
  · exact drop_append_of_le_length (by simp; omega)
  · rw [drop_eq_nil_of_le hj, append_nil, append_nil]

theorem store_isSome {bs : List α} (h : i + bs.length ≤ b.length) :
    store b i bs = some (b.take i ++ bs ++ b.drop (i + bs.length)) := if_pos h

theorem store_length {bs : List α} (h : store b i bs = some b') : b'.length = b.length := by
  unfold store at h
  split at h
  · cases h
    simp
    omega
  · cases h

theorem window_store {bs : List α} (hij : i ≤ j) (h : store b j bs = some b') :
    window b' i (j + bs.length) = window b i j ++ bs := by
  unfold store at h
  split at h
  · next hj =>
    cases h
    have hl : (b.take j ++ bs).length = j + bs.length := by simp; omega
    unfold window
    rw [take_left' hl, drop_append_of_le_length (by simp; omega)]
  · cases h

theorem moveToStart_isSome {n : Nat} (h : i + n ≤ b.length) : (moveToStart b i n).isSome := by
  unfold moveToStart
  split <;> rfl

theorem moveToStart_length {n : Nat} (h : moveToStart b i n = some b') : b'.length = b.length := by
  unfold moveToStart at h
  split at h
  · cases h; rfl
  split at h
  · cases h
    simp
    omega
  · cases h

theorem window_moveToStart {n : Nat} (h : moveToStart b i n = some b') :
    window b' 0 n = window b i (i + n) := by
  unfold moveToStart at h
  split at h
  · next hn => simp [hn]
  split at h
  · next hl =>
    cases h
    unfold window
    rw [drop_zero, take_left' (by simp; omega)]
  · cases h

@[simp] theorem realloc_length (junk : α) (b : List α) (n : Nat) : (realloc junk b n).length = n := by
  simp [realloc]
  omega

theorem window_realloc (junk : α) {n : Nat} (hn : j ≤ n) (hb : j ≤ b.length) :
    window (realloc junk b n) i j = window b i j := by
  unfold window realloc
  rw [take_append_of_le_length (by simp; omega), take_take, Nat.min_eq_left hn]

end SyslogNg.Lib
