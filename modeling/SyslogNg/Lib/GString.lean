import SyslogNg.Lib.Buffer

/-!
# Strings that grow (`GString`)

A string is an allocated block, the length of its text and a NUL behind the text. What a block
holds behind the NUL is left over from longer texts; the bytes that an enlarged block gets are
whatever `fresh` says.
-/

namespace SyslogNg.Lib

open List

/-- `b`, enlarged to at least `n` cells. -/
def enlarge (fresh : Nat → UInt8) (b : List UInt8) (n : Nat) : List UInt8 :=
  b ++ (List.range' b.length (n - b.length)).map fresh

theorem enlarge_length (fresh : Nat → UInt8) (b : List UInt8) (n : Nat) :
    (enlarge fresh b n).length = max b.length n := by
  simp only [enlarge, length_append, length_map, length_range']
  omega

theorem enlarge_getElem? (fresh : Nat → UInt8) (b : List UInt8) {n i : Nat} (h : i < n) :
    (enlarge fresh b n)[i]? = some (b[i]?.getD (fresh i)) := by
  unfold enlarge
  by_cases hi : i < b.length
  · rw [getElem?_append_left hi, getElem?_eq_getElem hi, Option.getD_some]
  · rw [getElem?_append_right (by omega), getElem?_map,
      getElem?_range' (by omega), getElem?_eq_none (by omega), Option.getD_none,
      Option.map_some]
    congr 2
    omega

structure GString where
  str : List UInt8
  len : Nat
  terminated : str[len]? = some 0

namespace GString

variable {s t : GString} {fresh : Nat → UInt8}

theorem len_lt (s : GString) : s.len < s.str.length := (List.getElem?_eq_some_iff.1 s.terminated).1

/-- The text of a string. -/
def text (s : GString) : List UInt8 := s.str.take s.len

@[simp] theorem text_length (s : GString) : s.text.length = s.len := by
  have h := s.len_lt
  rw [text, length_take]
  omega

theorem text_getElem? {i : Nat} (h : i < s.len) : s.text[i]? = s.str[i]? :=
  getElem?_take_of_lt h

/-- A new string, with no room to spare. -/
def ofText (bs : List UInt8) : GString := ⟨bs ++ [0], bs.length, by simp⟩

@[simp] theorem text_ofText (bs : List UInt8) : (ofText bs).text = bs := by
  simp [ofText, text]

/-- `g_string_set_size`. -/
def setSize (s : GString) (fresh : Nat → UInt8) (n : Nat) : GString where
  str := (enlarge fresh s.str (n + 1)).set n 0
  len := n
  terminated := by
    have h := enlarge_length fresh s.str (n + 1)
    rw [getElem?_set_self (by omega)]

@[simp] theorem len_setSize (s : GString) (n : Nat) : (s.setSize fresh n).len = n := rfl

theorem setSize_getElem? {n i : Nat} (h : i < n) :
    (s.setSize fresh n).text[i]? = some (s.str[i]?.getD (fresh i)) := by
  rw [text_getElem? (s := s.setSize fresh n) h]
  show ((enlarge fresh s.str (n + 1)).set n 0)[i]? = _
  rw [getElem?_set_ne (by omega), enlarge_getElem? fresh s.str (by omega)]

theorem setSize_text_of_le {n : Nat} (h : n ≤ s.len) : (s.setSize fresh n).text = s.text.take n := by
  apply ext_getElem?
  intro i
  have hlen := s.len_lt
  rcases Nat.lt_or_ge i n with hi | hi
  · rw [setSize_getElem? hi, getElem?_take_of_lt hi, text_getElem? (by omega),
      getElem?_eq_getElem (by omega), Option.getD_some]
  · rw [getElem?_eq_none (by simpa using hi), getElem?_eq_none (by simp; omega)]

/-- `memset` of `n` bytes of the text from offset `i` on; `none` if it leaves the text. -/
def fill (s : GString) (i : Nat) (c : UInt8) (n : Nat) : Option GString :=
  if h : i + n ≤ s.len then
    some
      { str := s.str.take i ++ List.replicate n c ++ s.str.drop (i + n)
        len := s.len
        terminated := by
          have hlen := s.len_lt
          rw [getElem?_append_right (by simp; omega), getElem?_drop, ← s.terminated]
          congr 1
          simp
          omega }
  else none

theorem fill_text {i n : Nat} {c : UInt8} (h : i + n ≤ s.len) :
    ∃ t, s.fill i c n = some t ∧
      t.text = s.text.take i ++ List.replicate n c ++ s.text.drop (i + n) := by
  have hlen := s.len_lt
  refine ⟨_, dif_pos h, ?_⟩
  show (s.str.take i ++ List.replicate n c ++ s.str.drop (i + n)).take s.len = _
  have hfront : (s.str.take i ++ List.replicate n c).length = i + n := by
    rw [length_append, length_take, length_replicate]
    omega
  rw [take_append, take_of_length_le (by omega), hfront, text, take_take,
    Nat.min_eq_left (by omega), drop_take]

end GString

end SyslogNg.Lib
