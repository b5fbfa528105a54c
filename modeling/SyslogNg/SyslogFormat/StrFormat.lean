import SyslogNg.Lib.GString
import SyslogNg.SyslogFormat.Stamps

/-!
# Numbers as text (`lib/str-format.c`)

The functions for 32 and 64 bits are one definition: `num[]` has as many bytes as the number has bits.
-/

namespace SyslogNg.SyslogFormat

open List Lib Option

def digitChar (d : Nat) : UInt8 := UInt8.ofNat (if d < 10 then 48 + d else 87 + d)

/-- The loops that write the digits, the last one first; `first` is false from the start in
`format_uint64_base16_rev`. -/
def formatRev (base : Nat) : (first : Bool) → (resultLen value : Nat) → List UInt8
  | _, 0, _ => []
  | first, resultLen + 1, value =>
    if first ∨ value > 0 then digitChar (value % base) :: formatRev base false resultLen (value / base) else []

/-- The loop that turns the digits round. -/
def storeRev : List UInt8 → (above : Nat) → GString → Option GString
  | [], _, s => some s
  | c :: num, above, s => (s.fill (above - 1) c 1).bind (storeRev num (above - 1))

/-- `format_padded_int32`, `format_padded_int64`; `none` if the length of the string is no `int`. -/
def formatPaddedInt (fresh : Nat → UInt8) (result : GString) (fieldLen : Nat) (padChar : UInt8) (sign : Bool)
    (base : Nat) {bits : Nat} (value : BitVec bits) : Option (GString × Nat) :=
  if base ≠ 10 ∧ base ≠ 16 then some (result, 0)
  else
    let negative := sign && base = 10 && value.msb
    let num := formatRev base (base = 10 || bits = 32) bits (if negative then -value else value).toNat ++
      if negative then [45] else []
    let fieldLen := if fieldLen = 0 ∨ fieldLen < num.length then num.length else fieldLen
    let pos := result.len
    if pos + fieldLen + 1 < 2 ^ 31 then
      -- the string is enlarged if it has to be
      ((result.setSize fresh (pos + fieldLen)).fill pos padChar (fieldLen - num.length)).bind fun result =>
        (storeRev num (pos + fieldLen) result).map (·, fieldLen)
    else none

/-- The numbers that are written, and how. -/
inductive NumberFormat where
  | signed
  | unsigned
  | hex

namespace NumberFormat

def base : NumberFormat → Nat
  | hex => 16
  | _ => 10

def sign : NumberFormat → Bool
  | signed => true
  | _ => false

def number {bits : Nat} (value : BitVec bits) : NumberFormat → Int
  | signed => value.toInt
  | _ => value.toNat

end NumberFormat

/-- The shortest text of a number. -/
def numeral (base : Nat) (n : Int) : List UInt8 :=
  (if n < 0 then [45] else []) ++
    if n = 0 then [48] else (Nat.digits base n.natAbs).reverse.map digitChar

/-- The text is appended, with what it lacks of the field before it, and its length is returned. -/
def Appends (s : GString) (fieldLen : Nat) (padChar : UInt8) (text : List UInt8)
    (r : Option (GString × Nat)) : Prop :=
  ∃ t, r = some (t, max fieldLen text.length) ∧
    t.text = s.text ++ replicate (fieldLen - text.length) padChar ++ text

variable {base room value bits : Nat} {s : GString} {fresh : Nat → UInt8}

theorem formatRev_false (hb : 2 ≤ base) (hlt : value < base ^ room) :
    formatRev base false room value = (Nat.digits base value).map digitChar := by
  induction room generalizing value with
  | zero =>
    obtain rfl := Nat.lt_one_iff.mp (pow_zero base ▸ hlt)
    simp [formatRev]
  | succ room ih =>
    rw [formatRev]
    by_cases h0 : 0 < value
    · rw [if_pos (.inr h0), Nat.digits_def' hb h0, map_cons, ih (Nat.div_lt_of_lt_mul (by rwa [pow_succ'] at hlt))]
    · obtain rfl := Nat.eq_zero_of_not_pos h0
      simp

theorem formatRev_eq (hb : 2 ≤ base) (first : Bool) (hlt : value < base ^ (room + 1)) :
    formatRev base first (room + 1) value = if value = 0 then if first then [48] else []
      else (Nat.digits base value).map digitChar := by
  have hdiv : value / base < base ^ room := Nat.div_lt_of_lt_mul (by rwa [pow_succ'] at hlt)
  rw [formatRev, formatRev_false hb hdiv]
  by_cases h0 : value = 0
  · subst h0
    cases first <;> simp [digitChar]
  · rw [if_pos (.inr (Nat.pos_of_ne_zero h0)), if_neg h0, Nat.digits_def' hb (Nat.pos_of_ne_zero h0), map_cons]

theorem storeRev_text (num : List UInt8) {above : Nat} (hnum : num.length ≤ above) (hs : above ≤ s.len) :
    ∃ t, storeRev num above s = some t ∧
      t.text = s.text.take (above - num.length) ++ num.reverse ++ s.text.drop above := by
  induction num generalizing above s with
  | nil => exact ⟨s, rfl, by simp⟩
  | cons c num ih =>
    rw [length_cons] at hnum
    obtain ⟨s', hfill, htext⟩ := GString.fill_text (s := s) (i := above - 1) (n := 1) (c := c) (by omega)
    have hlen := congrArg length htext
    simp only [length_append, length_take, length_drop, length_replicate, GString.text_length] at hlen
    obtain ⟨t, hstore, ht⟩ := @ih s' (above - 1) (by omega) (by omega)
    refine ⟨t, by rw [storeRev, hfill, bind_some, hstore], ?_⟩
    have hfront : (s.text.take (above - 1)).length = above - 1 := by simp; omega
    rw [ht, htext, append_assoc (s.text.take _), take_append_of_le_length (by omega), take_take,
      drop_left' hfront, reverse_cons, length_cons, Nat.sub_add_cancel (by omega : 1 ≤ above)]
    have hmin : min (above - 1 - num.length) (above - 1) = above - (num.length + 1) := by omega
    simp only [hmin, append_assoc, replicate_one, singleton_append]

theorem setSize_text_take {n : Nat} (h : s.len ≤ n) : (s.setSize fresh n).text.take s.len = s.text := by
  refine ext_getElem? fun i => ?_
  have hlen := s.len_lt
  by_cases hi : i < s.len
  · rw [getElem?_take_of_lt hi, GString.setSize_getElem? (by omega), GString.text_getElem? hi,
      getElem?_eq_getElem (by omega), getD_some]
  · rw [getElem?_eq_none (by simp; omega), getElem?_eq_none (by simp; omega)]

theorem stored_text (num : List UInt8) {fieldLen : Nat} (padChar : UInt8) (hnum : num.length ≤ fieldLen) :
    ∃ t, (((s.setSize fresh (s.len + fieldLen)).fill s.len padChar (fieldLen - num.length)).bind
        fun result => (storeRev num (s.len + fieldLen) result).map (·, fieldLen)) = some (t, fieldLen) ∧
      t.text = s.text ++ replicate (fieldLen - num.length) padChar ++ num.reverse := by
  obtain ⟨s', hfill, htext⟩ := GString.fill_text (s := s.setSize fresh (s.len + fieldLen)) (i := s.len)
    (n := fieldLen - num.length) (c := padChar) (by rw [GString.len_setSize]; omega)
  have hlen := congrArg length htext
  simp only [length_append, length_take, length_drop, length_replicate, GString.text_length,
    GString.len_setSize] at hlen
  obtain ⟨t, hstore, ht⟩ := @storeRev_text s' num (s.len + fieldLen) (by omega) (by omega)
  refine ⟨t, by rw [hfill, bind_some, hstore, map_some], ?_⟩
  rw [setSize_text_take (by omega)] at htext
  have hfront : (s.text ++ replicate (fieldLen - num.length) padChar).length =
      s.len + fieldLen - num.length := by
    simp
    omega
  rw [ht, drop_eq_nil_of_le (by simp; omega), append_nil, htext, take_left' hfront]

theorem number_natAbs (f : NumberFormat) (value : BitVec bits) :
    (if f.sign && f.base = 10 && value.msb then -value else value).toNat = (f.number value).natAbs ∧
      ((f.sign && f.base = 10 && value.msb) = decide (f.number value < 0)) := by
  cases f with
  | signed =>
    refine ⟨?_, BitVec.msb_eq_toInt⟩
    simp only [NumberFormat.sign, NumberFormat.base, NumberFormat.number, decide_true, Bool.true_and]
    cases h : value.msb with
    | true => rw [if_pos rfl, BitVec.toInt_eq_neg_toNat_neg_of_msb_true h, Int.natAbs_neg, Int.natAbs_natCast]
    | false => simp [BitVec.toInt_eq_msb_cond, h]
  | unsigned => exact ⟨rfl, (decide_eq_false (Int.natCast_nonneg _).not_gt).symm⟩
  | hex => exact ⟨rfl, (decide_eq_false (Int.natCast_nonneg _).not_gt).symm⟩

theorem num_eq (f : NumberFormat) (hbits : bits = 32 ∨ bits = 64) (value : BitVec bits) :
    formatRev f.base (f.base = 10 || bits = 32) bits (f.number value).natAbs ++
        (if f.number value < 0 then [45] else []) =
      if f.base = 16 ∧ bits = 64 ∧ f.number value = 0 then []
      else (numeral f.base (f.number value)).reverse := by
  have hlt : (f.number value).natAbs < f.base ^ bits := by
    rw [← (number_natAbs f value).1]
    refine (BitVec.isLt _).trans_le (Nat.pow_le_pow_left ?_ bits)
    cases f <;> decide
  obtain ⟨room, rfl⟩ : ∃ room, bits = room + 1 := ⟨bits - 1, by omega⟩
  rw [formatRev_eq (by cases f <;> decide) _ hlt, numeral]
  by_cases h0 : f.number value = 0
  · rw [h0]
    cases f <;> rcases hbits with h | h <;> simp [h, NumberFormat.base]
  · rw [if_neg (by simpa using h0), if_neg (c := _ ∧ _ ∧ _) fun h => h0 h.2.2, if_neg h0]
    split <;> simp

theorem scannedValue_digits_mod {ds : List UInt8} (hds : ∀ c ∈ ds, isDigit c = true) (result : Nat) :
    scannedValue (result % 2 ^ 32) ds = readDecimal result ds % 2 ^ 32 := by
  induction ds generalizing result with
  | nil => rfl
  | cons c ds ih =>
    have hmod : (result % 2 ^ 32 * 10 + (c.toNat - 48)) % 2 ^ 32 = (result * 10 + (c.toNat - 48)) % 2 ^ 32 := by
      omega
    rw [readDecimal_cons, ← ih fun d hd => hds d (mem_cons_of_mem _ hd), scannedValue, foldl_cons,
      if_pos (hds c mem_cons_self), hmod, scannedValue]

theorem numeral_ten (n : Nat) : numeral 10 n = decimal n := by
  rw [numeral, decimal, if_neg (Int.natCast_nonneg n).not_gt, nil_append, Int.natAbs_natCast]
  simp only [Int.natCast_eq_zero]
  split
  · rfl
  · refine map_congr_left fun d hd => ?_
    rw [digitChar, if_pos (Nat.digits_lt_base (by decide) (mem_reverse.mp hd))]

theorem scan_padded (blank : Bool) (k : Nat) (n : BitVec 32) (rest tail : List UInt8) :
    let text := replicate k (if blank then 32 else 48) ++ decimal n.toNat
    scanUint32 0 text.length (blockCursor (text ++ rest) tail) = .ok (n.toNat, blockCursor rest tail) := by
  intro text
  have hchars : ∀ c ∈ text, numberChar c = true := by
    intro c hc
    rcases mem_append.mp hc with hc | hc
    · rw [(mem_replicate.mp hc).2]
      cases blank <;> rfl
    · rw [numberChar, isDigit_of_mem_decimal hc, Bool.true_or]
  have hpad : scannedValue 0 (replicate k (if blank then 32 else 48)) = 0 := by
    clear hchars text
    induction k with
    | zero => rfl
    | succ k ih => cases blank <;> exact ih
  have hvalue : scannedValue 0 text = n.toNat := by
    have hdigits := @scannedValue_digits_mod (decimal n.toNat) (fun c => isDigit_of_mem_decimal) 0
    rw [readDecimal_decimal, Nat.mod_eq_of_lt n.isLt] at hdigits
    rw [← hdigits]
    simp only [text, scannedValue, foldl_append] at hpad ⊢
    rw [hpad]
    rfl
  rw [scanUint32_value 0 (matches_replicate.mpr ⟨by simp, by rwa [take_left]⟩), take_left, drop_left, hvalue]

/-- **Numbers as text.** A number is appended with its padding, and its length returned, exactly if the
string stays short enough and it is not a zero that `format_uint64_base16_rev` leaves out, unless the
padding stands for it; `scan_uint32` reads back what is appended for 32 bits. -/
theorem format_padded_appends_iff (fresh : Nat → UInt8) (s : GString) (fieldLen : Nat) (padChar : UInt8)
    (f : NumberFormat) (hbits : bits = 32 ∨ bits = 64) (value : BitVec bits) :
    (Appends s fieldLen padChar (numeral f.base (f.number value))
        (formatPaddedInt fresh s fieldLen padChar f.sign f.base value) ↔
      s.len + max fieldLen (numeral f.base (f.number value)).length + 1 < 2 ^ 31 ∧
        (f.base = 16 ∧ bits = 64 ∧ f.number value = 0 → padChar = 48 ∧ fieldLen ≠ 0)) ∧
    ∀ (blank : Bool) (n : BitVec 32) (rest tail : List UInt8),
      let num := numeral 10 n.toNat
      let text := replicate (fieldLen - num.length) (if blank then 32 else 48) ++ num
      scanUint32 0 text.length (blockCursor (text ++ rest) tail) = .ok (n.toNat, blockCursor rest tail) := by
  refine ⟨?_, fun blank n rest tail => by rw [numeral_ten]; exact scan_padded blank _ n rest tail⟩
  have hbase : ¬ (f.base ≠ 10 ∧ f.base ≠ 16) := by cases f <;> decide
  obtain ⟨habs, hneg⟩ := number_natAbs f value
  have hnum := num_eq f hbits value
  rw [hneg] at habs
  simp only [decide_eq_true_eq] at habs
  unfold formatPaddedInt
  rw [if_neg hbase]
  set text := numeral f.base (f.number value) with hdef
  by_cases hzero : f.base = 16 ∧ bits = 64 ∧ f.number value = 0
  · have htext : text = [48] := by rw [hdef, numeral, hzero.2.2]; rfl
    have hfield : (if fieldLen = 0 ∨ fieldLen < 0 then 0 else fieldLen) = fieldLen := by split <;> omega
    obtain ⟨t, hstored, ht⟩ := @stored_text s fresh [] fieldLen padChar (Nat.zero_le fieldLen)
    rw [if_pos hzero] at hnum
    rw [length_nil] at hstored ht
    simp only [hneg, decide_eq_true_eq, habs, hnum, length_nil, hfield, hstored, htext, length_singleton]
    cases fieldLen with
    | zero =>
      refine iff_of_false (fun ⟨t', h, _⟩ => ?_) fun h => (h.2 hzero).2 rfl
      split at h
      · cases (Prod.mk.inj (some.inj h)).2
      · cases h
    | succ n =>
      rw [Nat.max_eq_left (by omega)]
      split
      · next hfits =>
        have hlast : t.text = s.text ++ replicate (n + 1 - 1) padChar ++ [48] ↔ padChar = 48 := by
          rw [ht, Nat.sub_zero, replicate_succ']
          simp
        refine ⟨fun ⟨t', h, h'⟩ => ⟨hfits, fun _ => ⟨hlast.mp ?_, n.succ_ne_zero⟩⟩,
          fun h => ⟨t, by simp, hlast.mpr (h.2 hzero).1⟩⟩
        rwa [(Prod.mk.inj (some.inj h)).1]
      · next hfits => exact iff_of_false nofun fun h => hfits h.1
  · have hfield : (if fieldLen = 0 ∨ fieldLen < text.length then text.length else fieldLen) =
        max fieldLen text.length := by split <;> omega
    obtain ⟨t, hstored, ht⟩ := @stored_text s fresh text.reverse (max fieldLen text.length) padChar
      (by simp)
    rw [if_neg hzero] at hnum
    rw [length_reverse] at hstored ht
    simp only [hneg, decide_eq_true_eq, habs, hnum, length_reverse, hfield, hstored]
    rw [and_iff_left fun h => absurd h hzero]
    split
    · next hfits =>
      refine iff_of_true ⟨t, rfl, ?_⟩ hfits
      rw [ht, reverse_reverse, show max fieldLen text.length - text.length = fieldLen - text.length by omega]
    · next hfits => exact iff_of_false nofun hfits

theorem format_padded_appends_ff :
    Appends (.ofText []) 0 48 [102, 102]
      (formatPaddedInt (fun _ => 0) (.ofText []) 0 48 false 16 (255 : BitVec 64)) :=
  ((format_padded_appends_iff (fun _ => 0) (.ofText []) 0 48 .hex (.inr rfl) 255).1.mpr ⟨by decide, by decide⟩)

theorem format_padded_drops_zero :
    ¬ Appends (.ofText []) 0 48 (numeral 16 0)
      (formatPaddedInt (fun _ => 0) (.ofText []) 0 48 false 16 (0 : BitVec 64)) := by
  rintro ⟨t, h, -⟩
  have hlen : (0 : Nat) = 1 := Option.some.inj (congrArg (Option.map Prod.snd) h)
  cases hlen

end SyslogNg.SyslogFormat
