import SyslogNg.Lib.MagicBits

/-!
# The end of a line (`find_eom` in `lib/logproto-server.c`)

The scan goes byte by byte to a word boundary, then a word at a time, then byte by byte through
the last word. Whatever the alignment of the buffer, it finds the first NL or NUL
(`findEom_eq_findIdx?`).
-/

namespace SyslogNg.LogProto

open Lib List

/-- `*char_ptr == '\n' || *char_ptr == '\0'`. -/
def isEom (c : UInt8) : Bool := c == 10 || c == 0

/-- The loop that looks at one byte after the other; `i` is the offset of the first one. -/
def findEomBytes : List UInt8 → Nat → Option Nat
  | [], _ => none
  | c :: cs, i => if isEom c then some i else findEomBytes cs (i + 1)

def leNat : List UInt8 → Nat
  | [] => 0
  | b :: bs => b.toNat + 256 * leNat bs

/-- The word that starts with the given bytes. -/
def longword (bs : List UInt8) : BitVec 64 := BitVec.ofNat 64 (leNat bs)

/-- `memset(&charmask, '\n', sizeof(charmask))`. -/
def charmask : BitVec 64 := 0x0a0a0a0a0a0a0a0a#64

def mayHaveEom (w : BitVec 64) : Bool := mayHaveZeroByte w || mayHaveZeroByte (w ^^^ charmask)

/-- The loop over words, as long as more than one word is left, and the loop behind it. -/
def findEomWords : List UInt8 → Nat → Option Nat
  | b0 :: b1 :: b2 :: b3 :: b4 :: b5 :: b6 :: b7 :: b8 :: cs, i =>
    if mayHaveEom (longword [b0, b1, b2, b3, b4, b5, b6, b7]) then
      match findEomBytes [b0, b1, b2, b3, b4, b5, b6, b7] i with
      | some eom => some eom
      | none => findEomWords (b8 :: cs) (i + 8)
    else findEomWords (b8 :: cs) (i + 8)
  | cs, i => findEomBytes cs i

/-- The loop up to a word boundary; `addr` is the address of the first byte. -/
def findEomAligned (addr : Nat) : List UInt8 → Nat → Option Nat
  | [], i => findEomWords [] i
  | c :: cs, i =>
    if addr % 8 = 0 then findEomWords (c :: cs) i
    else if isEom c then some i
    else findEomAligned (addr + 1) cs (i + 1)

/-- `find_eom` of the bytes `bs` at address `addr`: the offset of the byte it points to. -/
def findEom (addr : Nat) (bs : List UInt8) : Option Nat := findEomAligned addr bs 0

theorem leNat_byte (bs : List UInt8) (i : Nat) (hi : i < bs.length) :
    leNat bs / 2 ^ (8 * i) % 2 ^ 8 = bs[i].toNat := by
  induction bs generalizing i with
  | nil => simp at hi
  | cons b bs ih =>
    have hb := b.toNat_lt
    cases i with
    | zero =>
      show (b.toNat + 256 * leNat bs) / 1 % 256 = b.toNat
      omega
    | succ i =>
      have hi : i < bs.length := by simpa using hi
      have hpow : 2 ^ (8 * (i + 1)) = 256 * 2 ^ (8 * i) := by
        rw [Nat.mul_add, Nat.mul_one, Nat.pow_add, Nat.mul_comm]
      have hdiv : (b.toNat + 256 * leNat bs) / 256 = leNat bs := by omega
      rw [leNat, hpow, ← Nat.div_div_eq_div_mul, hdiv, ih i hi]
      rfl

theorem leNat_lt (bs : List UInt8) : leNat bs < 256 ^ bs.length := by
  induction bs with
  | nil => exact Nat.one_pos
  | cons b bs ih =>
    have hb := b.toNat_lt
    rw [leNat, length_cons, Nat.pow_succ]
    omega

variable {bs : List UInt8}

theorem wordByte_longword (hlen : bs.length = 8) {i : Nat} (hi : i < bs.length) :
    wordByte (longword bs) i = bs[i].toBitVec := by
  have hlt : leNat bs < 2 ^ 64 := by
    have h := leNat_lt bs
    rw [hlen] at h
    omega
  apply BitVec.eq_of_toNat_eq
  rw [toNat_wordByte, longword, BitVec.toNat_ofNat, Nat.mod_eq_of_lt hlt, leNat_byte bs i hi,
    UInt8.toNat_toBitVec]

theorem mayHaveZeroByte_of_mem (mask : BitVec 64) {c : UInt8} (hlen : bs.length = 8)
    (hmask : ∀ i < 8, wordByte mask i = c.toBitVec) (hmem : c ∈ bs) :
    mayHaveZeroByte (longword bs ^^^ mask) = true := by
  obtain ⟨i, hi, rfl⟩ := mem_iff_getElem.1 hmem
  apply mayHaveZeroByte_of_zero (i := i) (by omega)
  rw [wordByte_xor, wordByte_longword hlen hi, hmask i (by omega)]
  exact BitVec.xor_self

theorem mayHaveEom_of_eom (hlen : bs.length = 8) (h : ∃ c ∈ bs, isEom c) :
    mayHaveEom (longword bs) = true := by
  obtain ⟨c, hmem, hc⟩ := h
  unfold mayHaveEom
  rw [Bool.or_eq_true]
  simp only [isEom, Bool.or_eq_true, beq_iff_eq] at hc
  rcases hc with rfl | rfl
  · exact .inr (mayHaveZeroByte_of_mem charmask hlen (by decide) hmem)
  · left
    rw [← BitVec.xor_zero (x := longword bs)]
    exact mayHaveZeroByte_of_mem 0#64 hlen (by decide) hmem

theorem findEomBytes_eq (bs : List UInt8) (i : Nat) :
    findEomBytes bs i = (bs.findIdx? isEom).map (· + i) := by
  induction bs generalizing i with
  | nil => rfl
  | cons c cs ih =>
    rw [findEomBytes, findIdx?_cons, ih]
    cases isEom c with
    | true => simp
    | false =>
      simp only [Bool.false_eq_true, if_false, Option.map_map]
      congr 1
      funext n
      show n + (i + 1) = n + 1 + i
      omega

theorem findEomBytes_append {cs : List UInt8} {i : Nat} (h : findEomBytes bs i = none) :
    findEomBytes (bs ++ cs) i = findEomBytes cs (i + bs.length) := by
  induction bs generalizing i with
  | nil => rfl
  | cons b bs ih =>
    rw [findEomBytes] at h
    split at h
    · cases h
    · next hb =>
      rw [cons_append, findEomBytes, if_neg hb, ih h, length_cons]
      congr 1
      omega

theorem findEomBytes_append_some {cs : List UInt8} {i eom : Nat} (h : findEomBytes bs i = some eom) :
    findEomBytes (bs ++ cs) i = some eom := by
  induction bs generalizing i with
  | nil => cases h
  | cons b bs ih =>
    rw [findEomBytes] at h
    rw [cons_append, findEomBytes]
    split at h
    · next hb => rw [if_pos hb, h]
    · next hb => rw [if_neg hb, ih h]

theorem findEomBytes_none {i : Nat} (h : ¬ ∃ c ∈ bs, isEom c) : findEomBytes bs i = none := by
  rw [findEomBytes_eq, Option.map_eq_none_iff, findIdx?_eq_none_iff]
  intro c hc
  by_contra hne
  exact h ⟨c, hc, by simpa using hne⟩

theorem findEomWords_eq (bs : List UInt8) (i : Nat) : findEomWords bs i = findEomBytes bs i := by
  induction bs, i using findEomWords.induct with
  | case1 b0 b1 b2 b3 b4 b5 b6 b7 b8 cs i hmay eom heom =>
    rw [findEomWords, if_pos hmay]
    simp only [heom]
    exact (findEomBytes_append_some heom).symm
  | case2 b0 b1 b2 b3 b4 b5 b6 b7 b8 cs i hmay hnone ih =>
    rw [findEomWords, if_pos hmay]
    simp only [hnone]
    rw [ih]
    exact (findEomBytes_append hnone).symm
  | case3 b0 b1 b2 b3 b4 b5 b6 b7 b8 cs i hmay ih =>
    have hnone : findEomBytes [b0, b1, b2, b3, b4, b5, b6, b7] i = none :=
      findEomBytes_none fun h => hmay (mayHaveEom_of_eom rfl h)
    rw [findEomWords, if_neg hmay, ih]
    exact (findEomBytes_append hnone).symm
  | case4 cs i hshort =>
    rw [findEomWords]
    exact hshort

theorem findEomAligned_eq (addr : Nat) (bs : List UInt8) (i : Nat) :
    findEomAligned addr bs i = findEomBytes bs i := by
  induction bs generalizing addr i with
  | nil => rfl
  | cons c cs ih =>
    rw [findEomAligned, findEomWords_eq, ih, findEomBytes]
    split
    · rfl
    · rfl

/-- **`find_eom` finds the first NL or NUL**, whatever the alignment. -/
theorem findEom_eq_findIdx? (addr : Nat) (bs : List UInt8) : findEom addr bs = bs.findIdx? isEom := by
  rw [findEom, findEomAligned_eq, findEomBytes_eq]
  simp

end SyslogNg.LogProto
