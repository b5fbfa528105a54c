import SyslogNg.LogProto.FindEom
import SyslogNg.LogWriter.FormatLog

/-!
# One line for each message (`LWO_NO_MULTI_LINE`)

`find_cr_or_lf` (`lib/misc.c`) looks for the first CR or LF, and gives up at a NUL. The loop at the
end of `log_writer_format_log` replaces what it finds, all but the last byte of the result.

Memory is the list of the bytes that may be read; a function returns `none` where the code would
read behind them.
-/

namespace SyslogNg.LogWriter

open Lib LogProto SyslogFormat List

/-- `*char_ptr == CR || *char_ptr == LF`. -/
def isCrOrLf (c : UInt8) : Bool := c == 13 || c == 10

/-- The loop over the `n` bytes that are left. -/
def findCrOrLfBytes (n : Nat) : List UInt8 → Nat → Option (Option Nat)
  | [], _ => if n = 0 then some none else none
  | c :: cs, i =>
    if n = 0 then some none
    else if isCrOrLf c then some (some i)
    else if c = 0 then some none
    else findCrOrLfBytes (n - 1) cs (i + 1)

def findCrOrLfWord : List UInt8 → Nat → Option (Option Nat)
  | [], _ => none
  | c :: cs, i =>
    if isCrOrLf c then some (some i)
    else if c = 0 then some none
    else findCrOrLfWord cs (i + 1)

/-- `memset(&cr_charmask, CR, sizeof(cr_charmask))`. -/
def crCharmask : BitVec 64 := 0x0d0d0d0d0d0d0d0d#64

/-- `memset(&lf_charmask, LF, sizeof(lf_charmask))`. -/
def lfCharmask : BitVec 64 := 0x0a0a0a0a0a0a0a0a#64

def mayHaveCrOrLf (w : BitVec 64) : Bool :=
  mayHaveZeroByte w || mayHaveZeroByte (w ^^^ crCharmask) || mayHaveZeroByte (w ^^^ lfCharmask)

/-- The loop over words, as long as more than one word is left, and the loop behind it. -/
def findCrOrLfWords (n : Nat) : List UInt8 → Nat → Option (Option Nat)
  | b0 :: b1 :: b2 :: b3 :: b4 :: b5 :: b6 :: b7 :: cs, i =>
    let word := [b0, b1, b2, b3, b4, b5, b6, b7]
    if 8 < n then
      if mayHaveCrOrLf (longword word) then
        match findCrOrLfWord word i with
        | some r => some r
        | none => findCrOrLfWords (n - 8) cs (i + 8)
      else findCrOrLfWords (n - 8) cs (i + 8)
    else findCrOrLfBytes n (b0 :: b1 :: b2 :: b3 :: b4 :: b5 :: b6 :: b7 :: cs) i
  | cs, i => if 8 < n then none else findCrOrLfBytes n cs i

/-- The loop up to a word boundary; `addr` is the address of the first byte. -/
def findCrOrLfAligned (addr n : Nat) : List UInt8 → Nat → Option (Option Nat)
  | [], i => if n = 0 ∨ addr % 8 = 0 then findCrOrLfWords n [] i else none
  | c :: cs, i =>
    if n = 0 ∨ addr % 8 = 0 then findCrOrLfWords n (c :: cs) i
    else if isCrOrLf c then some (some i)
    else if c = 0 then some none
    else findCrOrLfAligned (addr + 1) (n - 1) cs (i + 1)

/-- `find_cr_or_lf` of `n` bytes from offset `p` of the memory `mem` at address `addr`: the offset
of the byte it points to. -/
def findCrOrLf (addr : Nat) (mem : List UInt8) (p n : Nat) : Option (Option Nat) :=
  findCrOrLfAligned (addr + p) n (mem.drop p) p

/-- The `gsize` difference. -/
def usub64 (a b : Nat) : Nat := (a + 2 ^ 64 - b) % 2 ^ 64

theorem usub64_of_le {a b : Nat} (h : b ≤ a) (ha : a < 2 ^ 64) : usub64 a b = a - b := by
  unfold usub64
  omega

/-- The loop of `log_writer_format_log` over a result of `len` bytes, with a bound on its rounds. -/
def joinLines (addr len : Nat) : (rounds : Nat) → List UInt8 → Nat → Option (List UInt8)
  | 0, _, _ => none
  | rounds + 1, mem, p =>
    -- the size is calculated to leave the trailing new line
    match findCrOrLf addr mem p (usub64 (usub64 len p) 1) with
    | none => none
    | some none => some mem
    | some (some q) => joinLines addr len rounds (mem.set q 32) (q + 1)

/-! ## What is found -/

def firstCrOrLf : List UInt8 → Option Nat
  | [] => none
  | c :: cs =>
    if isCrOrLf c then some 0 else if c = 0 then none else (firstCrOrLf cs).map (· + 1)

variable {cs : List UInt8} {n : Nat} {i : Nat}

theorem findCrOrLfBytes_eq (h : n ≤ cs.length) :
    findCrOrLfBytes n cs i = some ((firstCrOrLf (cs.take n)).map (i + ·)) := by
  induction cs generalizing n i with
  | nil =>
    obtain rfl : n = 0 := Nat.le_zero.1 h
    rfl
  | cons c cs ih =>
    cases n with
    | zero => rfl
    | succ n =>
      rw [findCrOrLfBytes, if_neg (Nat.succ_ne_zero n), take_succ_cons, firstCrOrLf,
        Nat.add_sub_cancel, ih (by simpa using h)]
      split
      · rfl
      split
      · rfl
      · rw [Option.map_map]
        congr 2
        funext k
        show i + 1 + k = i + (k + 1)
        omega

theorem findCrOrLfBytes_append {word : List UInt8} (cs : List UInt8) (hn : word.length ≤ n)
    (h : findCrOrLfWord word i = none) :
    findCrOrLfBytes n (word ++ cs) i = findCrOrLfBytes (n - word.length) cs (i + word.length) := by
  induction word generalizing n i with
  | nil => rfl
  | cons c word ih =>
    rw [length_cons] at hn
    rw [findCrOrLfWord] at h
    split at h
    · cases h
    next hc =>
    split at h
    · cases h
    next hnul =>
    rw [cons_append, findCrOrLfBytes, if_neg (by omega), if_neg hc, if_neg hnul,
      ih (by omega) h, length_cons]
    congr 1 <;> omega

theorem findCrOrLfBytes_append_some {word : List UInt8} (cs : List UInt8) {r : Option Nat}
    (hn : word.length ≤ n) (h : findCrOrLfWord word i = some r) :
    findCrOrLfBytes n (word ++ cs) i = some r := by
  induction word generalizing n i with
  | nil => cases h
  | cons c word ih =>
    rw [length_cons] at hn
    rw [findCrOrLfWord] at h
    rw [cons_append, findCrOrLfBytes, if_neg (by omega)]
    split at h
    · next hc => rw [if_pos hc, h]
    next hc =>
    rw [if_neg hc]
    split at h
    · next hnul => rw [if_pos hnul, h]
    · next hnul => rw [if_neg hnul, ih (by omega) h]

theorem findCrOrLfWord_none {bs : List UInt8} (hlen : bs.length = 8)
    (h : mayHaveCrOrLf (longword bs) = false) (i : Nat) : findCrOrLfWord bs i = none := by
  simp only [mayHaveCrOrLf, Bool.or_eq_false_iff] at h
  obtain ⟨⟨hnul, hcr⟩, hlf⟩ := h
  have hno : ∀ c ∈ bs, isCrOrLf c = false ∧ c ≠ 0 := by
    intro c hc
    have h0 : c ≠ 0 := by
      rintro rfl
      have := mayHaveZeroByte_of_mem 0#64 hlen (by decide) hc
      rw [BitVec.xor_zero, hnul] at this
      cases this
    have h13 : c ≠ 13 := by
      rintro rfl
      have := mayHaveZeroByte_of_mem crCharmask hlen (by decide) hc
      rw [hcr] at this
      cases this
    have h10 : c ≠ 10 := by
      rintro rfl
      have := mayHaveZeroByte_of_mem lfCharmask hlen (by decide) hc
      rw [hlf] at this
      cases this
    exact ⟨by simp [isCrOrLf, h13, h10], h0⟩
  clear hlen hnul hcr hlf
  induction bs generalizing i with
  | nil => rfl
  | cons c bs ih =>
    obtain ⟨hc, h0⟩ := hno c mem_cons_self
    rw [findCrOrLfWord, hc, if_neg Bool.false_ne_true, if_neg h0,
      ih (i + 1) fun d hd => hno d (mem_cons_of_mem _ hd)]

theorem word_of_length (h : 8 ≤ cs.length) :
    ∃ b0 b1 b2 b3 b4 b5 b6 b7 rest, cs = b0 :: b1 :: b2 :: b3 :: b4 :: b5 :: b6 :: b7 :: rest := by
  match cs, h with
  | b0 :: b1 :: b2 :: b3 :: b4 :: b5 :: b6 :: b7 :: rest, _ =>
    exact ⟨b0, b1, b2, b3, b4, b5, b6, b7, rest, rfl⟩

theorem findCrOrLfWords_eq (h : n ≤ cs.length) :
    findCrOrLfWords n cs i = findCrOrLfBytes n cs i := by
  induction n, cs, i using findCrOrLfWords.induct with
  | case1 n b0 b1 b2 b3 b4 b5 b6 b7 cs i word hn hmay r hr =>
    rw [findCrOrLfWords, if_pos hn, if_pos hmay]
    simp only [word] at hr
    rw [hr]
    exact (findCrOrLfBytes_append_some cs (Nat.le_of_lt hn) hr).symm
  | case2 n b0 b1 b2 b3 b4 b5 b6 b7 cs i word hn hmay hnone ih =>
    have hrest : n - 8 ≤ cs.length := by
      simp only [length_cons] at h
      omega
    rw [findCrOrLfWords, if_pos hn, if_pos hmay]
    simp only [word] at hnone
    rw [hnone, ih hrest]
    exact (findCrOrLfBytes_append cs (Nat.le_of_lt hn) hnone).symm
  | case3 n b0 b1 b2 b3 b4 b5 b6 b7 cs i word hn hmay ih =>
    have hrest : n - 8 ≤ cs.length := by
      simp only [length_cons] at h
      omega
    have hnone : findCrOrLfWord word i = none :=
      findCrOrLfWord_none rfl (Bool.eq_false_of_not_eq_true hmay) i
    rw [findCrOrLfWords, if_pos hn, if_neg hmay, ih hrest]
    exact (findCrOrLfBytes_append cs (Nat.le_of_lt hn) hnone).symm
  | case4 n b0 b1 b2 b3 b4 b5 b6 b7 cs i hn =>
    rw [findCrOrLfWords, if_neg hn]
  | case5 n cs i hshort hn =>
    obtain ⟨b0, b1, b2, b3, b4, b5, b6, b7, rest, hcs⟩ := word_of_length (by omega : 8 ≤ cs.length)
    exact (hshort _ _ _ _ _ _ _ _ _ hcs).elim
  | case6 n cs i hshort hn =>
    rw [findCrOrLfWords, if_neg hn]
    exact hshort

variable {addr : Nat}

theorem findCrOrLfAligned_eq (h : n ≤ cs.length) :
    findCrOrLfAligned addr n cs i = findCrOrLfBytes n cs i := by
  induction cs generalizing addr n i with
  | nil =>
    obtain rfl : n = 0 := Nat.le_zero.1 h
    rfl
  | cons c cs ih =>
    rw [findCrOrLfAligned, findCrOrLfWords_eq h]
    split
    · rfl
    next hn =>
    rw [findCrOrLfBytes, if_neg fun hz => hn (.inl hz), ih (by simp only [length_cons] at h; omega)]

variable {mem : List UInt8}

/-- **`find_cr_or_lf` finds the first CR or LF that no NUL precedes**, whatever the alignment. -/
theorem findCrOrLf_eq {p : Nat} (h : p + n ≤ mem.length) :
    findCrOrLf addr mem p n = some ((firstCrOrLf ((mem.drop p).take n)).map (p + ·)) := by
  have hn : n ≤ (mem.drop p).length := by
    rw [length_drop]
    omega
  rw [findCrOrLf, findCrOrLfAligned_eq hn, findCrOrLfBytes_eq hn]

/-- The scans that go word by word find what a loop over the bytes finds, and read no other ones. -/
theorem word_scans_exact (addr : Nat) (bs : List UInt8) :
    findEom addr bs = bs.findIdx? isEom ∧ findCrOrLf addr bs 0 bs.length = some (firstCrOrLf bs) := by
  refine ⟨findEom_eq_findIdx? addr bs, ?_⟩
  rw [findCrOrLf_eq (by omega), drop_zero, take_length]
  simp

/-! ## What becomes of the result -/

theorem firstCrOrLf_cases (bs : List UInt8) :
    (firstCrOrLf bs = none ∧ replaceLineEnds bs = bs) ∨
    ∃ front c back, bs = front ++ c :: back ∧ firstCrOrLf bs = some front.length ∧
      replaceLineEnds bs = front ++ 32 :: replaceLineEnds back := by
  induction bs with
  | nil => exact .inl ⟨rfl, rfl⟩
  | cons c bs ih =>
    by_cases hc : isCrOrLf c = true
    · refine .inr ⟨[], c, bs, rfl, by rw [firstCrOrLf, if_pos hc]; rfl, ?_⟩
      have h0 : c ≠ 0 := by
        rintro rfl
        cases hc
      have hline : c = 13 ∨ c = 10 := by simpa [isCrOrLf] using hc
      rw [replaceLineEnds, if_neg h0, if_pos hline]
      rfl
    have hline : ¬(c = 13 ∨ c = 10) := by simpa [isCrOrLf] using hc
    by_cases h0 : c = 0
    · exact .inl ⟨by rw [firstCrOrLf, if_neg hc, if_pos h0], by rw [replaceLineEnds, if_pos h0]⟩
    rcases ih with ⟨hfirst, hsame⟩ | ⟨front, d, back, rfl, hfirst, hreplaced⟩
    · refine .inl ⟨?_, ?_⟩
      · rw [firstCrOrLf, if_neg hc, if_neg h0, hfirst]
        rfl
      · rw [replaceLineEnds, if_neg h0, if_neg hline, hsame]
    · refine .inr ⟨c :: front, d, back, rfl, ?_, ?_⟩
      · rw [firstCrOrLf, if_neg hc, if_neg h0, hfirst]
        rfl
      · rw [replaceLineEnds, if_neg h0, if_neg hline, hreplaced]
        rfl

theorem joinLines_done {len rounds p : Nat}
    (h : findCrOrLf addr mem p (usub64 (usub64 len p) 1) = some none) :
    joinLines addr len (rounds + 1) mem p = some mem := by
  rw [joinLines.eq_2, h]

theorem joinLines_found {len rounds p q : Nat}
    (h : findCrOrLf addr mem p (usub64 (usub64 len p) 1) = some (some q)) :
    joinLines addr len (rounds + 1) mem p = joinLines addr len rounds (mem.set q 32) (q + 1) := by
  rw [joinLines.eq_2, h]

theorem joinLines_eq {addr rounds : Nat} {done inner more : List UInt8} {last : UInt8}
    (hsize : done.length + inner.length + 1 < 2 ^ 64) (hrounds : inner.length < rounds) :
    joinLines addr (done.length + inner.length + 1) rounds (done ++ inner ++ last :: more)
      done.length = some (done ++ replaceLineEnds inner ++ last :: more) := by
  induction rounds generalizing done inner with
  | zero => omega
  | succ rounds ih =>
    have hleft : usub64 (usub64 (done.length + inner.length + 1) done.length) 1 = inner.length := by
      have hp : done.length ≤ done.length + inner.length + 1 := by omega
      rw [usub64_of_le hp hsize, usub64_of_le (by omega) (Nat.lt_of_le_of_lt (Nat.sub_le _ _) hsize)]
      omega
    have hwindow : ((done ++ inner ++ last :: more).drop done.length).take inner.length = inner := by
      rw [append_assoc, drop_left, take_left]
    have hmem : done.length + inner.length ≤ (done ++ inner ++ last :: more).length := by
      simp only [length_append]
      omega
    have hfind : findCrOrLf addr (done ++ inner ++ last :: more) done.length
        (usub64 (usub64 (done.length + inner.length + 1) done.length) 1) =
          some ((firstCrOrLf inner).map (done.length + ·)) := by
      rw [hleft, findCrOrLf_eq hmem, hwindow]
    rcases firstCrOrLf_cases inner with ⟨hfirst, hsame⟩ | ⟨front, c, back, rfl, hfirst, hreplaced⟩
    · rw [hfirst] at hfind
      rw [joinLines_done hfind, hsame]
    · rw [length_append, length_cons] at hsize hrounds
      have hset : (done ++ (front ++ c :: back) ++ last :: more).set (done.length + front.length) 32 =
          (done ++ front ++ [32]) ++ back ++ last :: more := by
        rw [← append_assoc, append_assoc, ← length_append,
          set_append_right _ _ (Nat.le_refl _), Nat.sub_self]
        simp
      have hlen : (done ++ front ++ [32]).length = done.length + front.length + 1 := by
        rw [length_append, length_append, length_singleton]
      have hnext := @ih (done ++ front ++ [32]) back (by rw [hlen]; omega) (by omega)
      have htotal : done.length + front.length + 1 + back.length + 1 =
          done.length + (front ++ c :: back).length + 1 := by
        rw [length_append, length_cons]
        omega
      rw [hlen, htotal] at hnext
      rw [hfirst] at hfind
      rw [joinLines_found hfind, hset, hnext, hreplaced]
      simp

theorem findCrOrLf_empty (addr : Nat) : findCrOrLf addr [] 0 (usub64 (usub64 0 0) 1) = none := by
  have hwords : findCrOrLfWords (usub64 (usub64 0 0) 1) [] 0 = none := if_pos (by decide)
  show (if _ then findCrOrLfWords (usub64 (usub64 0 0) 1) [] 0 else none) = none
  rw [hwords, ite_self]

theorem findCrOrLf_terminator {spare : List UInt8} (h : 7 ≤ spare.length) :
    findCrOrLf addr (0 :: spare) 0 (usub64 (usub64 0 0) 1) = some none := by
  have hlen : 8 ≤ (0 :: spare).length := by simpa using h
  obtain ⟨b0, b1, b2, b3, b4, b5, b6, b7, rest, hword⟩ := word_of_length hlen
  obtain ⟨rfl, -⟩ := List.cons.inj hword
  have hwords : findCrOrLfWords (usub64 (usub64 0 0) 1) (0 :: spare) 0 = some none := by
    have hmay : mayHaveCrOrLf (longword [0, b1, b2, b3, b4, b5, b6, b7]) = true := by
      by_contra hno
      cases findCrOrLfWord_none rfl (Bool.eq_false_of_not_eq_true hno) 0
    rw [hword, findCrOrLfWords, if_pos (by decide), if_pos hmay]
    rfl
  show (if _ then findCrOrLfWords (usub64 (usub64 0 0) 1) (0 :: spare) 0 else some none) = some none
  rw [hwords, ite_self]

theorem replaceLineEnds_length (bs : List UInt8) : (replaceLineEnds bs).length = bs.length := by
  induction bs with
  | nil => rfl
  | cons c bs ih =>
    rw [replaceLineEnds]
    split
    · rfl
    · rw [length_cons, ih, length_cons]

theorem replaceLineEnds_getElem? (bs : List UInt8) (i : Nat) :
    (replaceLineEnds bs)[i]? =
      bs[i]?.map fun c => if isCrOrLf c = true ∧ 0 ∉ bs.take i then 32 else c := by
  induction bs generalizing i with
  | nil => rfl
  | cons c bs ih =>
    rw [replaceLineEnds]
    by_cases h0 : c = 0
    · -- behind a NUL nothing changes
      subst h0
      rw [if_pos rfl]
      cases i with
      | zero => rfl
      | succ i =>
        simp only [getElem?_cons_succ, take_succ_cons, mem_cons_self, not_true_eq_false,
          and_false, if_false, Option.map_id']
    · rw [if_neg h0]
      cases i with
      | zero =>
        have hline : isCrOrLf c = true ↔ c = 13 ∨ c = 10 := by simp [isCrOrLf]
        simp only [getElem?_cons_zero, Option.map_some, take_zero, not_mem_nil,
          not_false_eq_true, and_true, hline]
      | succ i =>
        have hmem : 0 ∉ (c :: bs).take (i + 1) ↔ 0 ∉ bs.take i := by
          rw [take_succ_cons, mem_cons, not_or, and_iff_right (Ne.symm h0)]
        simp only [getElem?_cons_succ, hmem, ih]

structure OneLine (text out : List UInt8) : Prop where
  length : out.length = text.length
  joined : ∀ i c, out[i]? = some c → isCrOrLf c → i + 1 = out.length
  kept : ∀ i c, text[i]? = some c → isCrOrLf c = false ∨ i + 1 = text.length → out[i]? = some c

/-- There is a result, and no line end of it, the last byte apart, hides behind a NUL. -/
def LineEndsShow (text : List UInt8) : Prop :=
  text ≠ [] ∧ ∀ i c, text[i]? = some c → isCrOrLf c → 0 ∈ text.take i → i + 1 = text.length

theorem isCrOrLf_space : isCrOrLf 32 = false := by decide

theorem oneLine_iff {inner : List UInt8} {last : UInt8} :
    OneLine (inner ++ [last]) (replaceLineEnds inner ++ [last]) ↔ LineEndsShow (inner ++ [last]) := by
  have hlen := replaceLineEnds_length inner
  have hout : ∀ i < inner.length, (replaceLineEnds inner ++ [last])[i]? =
      inner[i]?.map fun c => if isCrOrLf c = true ∧ 0 ∉ inner.take i then 32 else c := by
    intro i hi
    rw [getElem?_append_left (by omega), replaceLineEnds_getElem?]
  have hin : ∀ i < inner.length, (inner ++ [last])[i]? = inner[i]? :=
    fun i hi => getElem?_append_left hi
  have htake : ∀ i < inner.length, (inner ++ [last]).take i = inner.take i :=
    fun i hi => take_append_of_le_length (Nat.le_of_lt hi)
  constructor
  · refine fun hone => ⟨by simp, fun i c hc hline hnul => ?_⟩
    by_contra hlast
    have hi : i < inner.length := by
      have := (List.getElem?_eq_some_iff.1 hc).1
      simp only [length_append, length_singleton] at this hlast
      omega
    -- the line end is still there
    have hkept : (replaceLineEnds inner ++ [last])[i]? = some c := by
      rw [hin i hi] at hc
      rw [htake i hi] at hnul
      rw [hout i hi, hc, Option.map_some, if_neg fun h => h.2 hnul]
    have hend := hone.joined i c hkept hline
    rw [length_append, hlen, length_singleton] at hend
    omega
  · rintro ⟨-, hshow⟩
    refine ⟨by simp [hlen], fun i c hc hline => ?_, fun i c hc hkeep => ?_⟩
    · by_contra hlast
      have hi : i < inner.length := by
        have := (List.getElem?_eq_some_iff.1 hc).1
        simp only [length_append, length_singleton, hlen] at this hlast
        omega
      rw [hout i hi, getElem?_eq_getElem hi, Option.map_some, Option.some.injEq] at hc
      split at hc
      · rw [← hc, isCrOrLf_space] at hline
        cases hline
      · next hno =>
        subst hc
        have hnul : 0 ∈ (inner ++ [last]).take i := by
          rw [htake i hi]
          by_contra hnul
          exact hno ⟨hline, hnul⟩
        have hend := hshow i inner[i] (by rw [hin i hi, getElem?_eq_getElem hi]) hline hnul
        rw [length_append, length_singleton] at hend
        omega
    · rcases Nat.lt_or_ge i inner.length with hi | hi
      · have hno : isCrOrLf c = false := by
          rcases hkeep with hno | hend
          · exact hno
          · rw [length_append, length_singleton] at hend
            omega
        rw [hin i hi] at hc
        rw [hout i hi, hc, Option.map_some, if_neg]
        rw [hno]
        simp
      · rw [getElem?_append_right hi] at hc
        rw [getElem?_append_right (by omega), hlen, hc]

/-- **The result becomes one line, and nothing behind it is read, exactly when it is not empty and
no line end hides behind a NUL.** On the memory of a string the loop ends in any case, and writes
into the result only. -/
theorem no_multi_line_exact {addr : Nat} {text : List UInt8} (hsize : text.length < 2 ^ 64) :
    ((∃ out, (∀ rounds, text.length < rounds → joinLines addr text.length rounds text 0 = some out) ∧
      OneLine text out) ↔ LineEndsShow text) ∧
    ∀ spare : List UInt8, 7 ≤ spare.length → ∃ out : List UInt8, out.length = text.length ∧
      ∀ rounds, text.length < rounds →
        joinLines addr text.length rounds (text ++ 0 :: spare) 0 = some (out ++ 0 :: spare) := by
  rcases eq_nil_or_concat' text with rfl | ⟨inner, last, rfl⟩
  · refine ⟨⟨?_, fun h => absurd rfl h.1⟩, fun spare hspare => ⟨[], rfl, fun rounds hrounds => ?_⟩⟩
    · rintro ⟨out, hrun, -⟩
      have hnone : joinLines addr 0 1 [] 0 = none := by
        rw [joinLines, findCrOrLf_empty]
      have hsome := hrun 1 (by decide)
      rw [length_nil, hnone] at hsome
      cases hsome
    · obtain ⟨n, rfl⟩ : ∃ n, rounds = n + 1 := ⟨rounds - 1, by simp at hrounds; omega⟩
      exact joinLines_done (findCrOrLf_terminator hspare)
  · have hlen : (inner ++ [last]).length = inner.length + 1 := by simp
    have hrun : ∀ (more : List UInt8) rounds, (inner ++ [last]).length < rounds →
        joinLines addr (inner ++ [last]).length rounds (inner ++ last :: more) 0 =
          some (replaceLineEnds inner ++ last :: more) := by
      intro more rounds hrounds
      rw [hlen] at hsize hrounds ⊢
      have h := @joinLines_eq addr rounds [] inner more last (by simpa using hsize) (by omega)
      simpa using h
    refine ⟨?_, fun spare _ => ⟨replaceLineEnds inner ++ [last], ?_, fun rounds hrounds => ?_⟩⟩
    · rw [← oneLine_iff]
      constructor
      · rintro ⟨out, hout, hone⟩
        have heq := (hout _ (Nat.lt_succ_self _)).symm.trans (hrun [] _ (Nat.lt_succ_self _))
        rwa [Option.some.inj heq] at hone
      · exact fun hone => ⟨_, hrun [], hone⟩
    · simp [replaceLineEnds_length]
    · rw [append_assoc, append_assoc, singleton_append]
      exact hrun (0 :: spare) rounds hrounds

theorem no_multi_line_joined : ∃ out,
    (∀ rounds, 4 < rounds → joinLines 3 4 rounds [97, 10, 98, 10] 0 = some out) ∧
      OneLine [97, 10, 98, 10] out := by
  have hshow : LineEndsShow [97, 10, 98, 10] := by
    refine ⟨by simp, fun i c hc hline hnul => ?_⟩
    have hno : (0 : UInt8) ∉ [97, 10, 98, 10] := by decide
    exact absurd (mem_of_mem_take hnul) hno
  exact (no_multi_line_exact (by decide)).1.2 hshow

/-- A NUL hides the line end behind it, and the search in an empty result goes on behind it. -/
theorem no_multi_line_hidden :
    joinLines 0 5 6 [97, 0, 10, 98, 10] 0 = some [97, 0, 10, 98, 10] ∧
    ¬OneLine [97, 0, 10, 98, 10] [97, 0, 10, 98, 10] ∧ joinLines 0 0 1 [] 0 = none := by
  refine ⟨by decide, fun h => ?_, by decide⟩
  have hend := h.joined 2 10 rfl rfl
  revert hend
  decide

end SyslogNg.LogWriter
