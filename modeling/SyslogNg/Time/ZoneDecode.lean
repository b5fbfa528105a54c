import SyslogNg.Time.ZoneFile

/-!
# Decoding time zone files

`zone_info_parser` on the bytes of a well-formed block. The flags behind the leap seconds are read for
every type, whether the file has them or not; counts from 2 ^ 31 on come out negative; an offset of more
than a day is an error; and the 32 bit block has no entry for the times before its first transition.
-/

namespace SyslogNg.Time

open Lib List

/-! ## The readers -/

theorem readcoded_signed {k : Nat} {x : Int} (hk : 0 < k)
    (h : -(256 ^ k / 2 : Nat) ≤ x ∧ x < (256 ^ k / 2 : Nat)) (hrange : gMinint64 ≤ x ∧ x ≤ gMaxint64)
    (rest : List UInt8) : readcoded k gMinint64 gMaxint64 (signedBytes k x ++ rest) = .ok x rest := by
  have hlen : (signedBytes k x).length = k := length_beBytes _ _
  unfold readcoded
  rw [if_neg (by rw [length_append, hlen]; omega), take_left' hlen, drop_left' hlen,
    signedOf_signedBytes hk h]
  dsimp only
  rw [if_neg (by omega)]

theorem readTime_signed {is64bitData : Bool} {x : Int} (h : TimeFits is64bitData x) (rest : List UInt8) :
    readTime is64bitData (signedBytes (timeSize is64bitData) x ++ rest) = .ok x rest := by
  unfold TimeFits at h
  unfold readTime
  cases is64bitData with
  | true =>
    have hrange : gMinint64 ≤ x ∧ x ≤ gMaxint64 := by
      unfold gMinint64 gMaxint64
      norm_num [timeSize] at h
      omega
    exact readcoded_signed (by decide) h hrange rest
  | false =>
    have hrange : gMinint64 ≤ x ∧ x ≤ gMaxint64 := by
      unfold gMinint64 gMaxint64
      norm_num [timeSize] at h
      omega
    exact readcoded_signed (by decide) h hrange rest

theorem readcoded32_signed {x : Int} (h : -2 ^ 31 ≤ x ∧ x < 2 ^ 31) (rest : List UInt8) :
    readcoded 4 gMinint64 gMaxint64 (signedBytes 4 x ++ rest) = .ok x rest := by
  have hfits : -(256 ^ 4 / 2 : Nat) ≤ x ∧ x < (256 ^ 4 / 2 : Nat) := by
    norm_num
    omega
  have hrange : gMinint64 ≤ x ∧ x ≤ gMaxint64 := by
    unfold gMinint64 gMaxint64
    omega
  exact readcoded_signed (by decide) hfits hrange rest

theorem readcount_beBytes {n : Nat} (h : n < 2 ^ 32) (rest : List UInt8) :
    readcount (beBytes 4 n ++ rest) = if n < 2 ^ 31 then .ok n rest else .abort := by
  have hlen : (beBytes 4 n).length = 4 := length_beBytes 4 n
  have hval : signedOf 4 (beBytes 4 n) = wrap32 n := by
    unfold signedOf wrap32
    rw [ofBe32_beBytes (by norm_num; omega)]
    rfl
  unfold readcount readcoded
  rw [if_neg (by rw [length_append, hlen]; omega), take_left' hlen, drop_left' hlen,
    hval]
  dsimp only
  by_cases hsmall : n < 2 ^ 31
  · rw [if_pos hsmall, wrap32_eq_self (by omega), if_neg (by unfold gMaxint64; omega), Read.bind_ok,
      Int.toNat_natCast]
  · have hneg : wrap32 n < 0 := by
      have hmod := wrap32_emod (n : Int)
      have hrange := wrap32_range (n : Int)
      omega
    rw [if_neg hsmall, if_pos (.inl hneg), Read.bind_abort]

theorem readbool_boolByte (b : Bool) (rest : List UInt8) :
    readbool (TzBlock.boolByte b :: rest) = .ok b rest := by
  cases b <;> rfl

theorem readTypeIndex_byte {typecnt t : Nat} (ht : t < typecnt) (htypes : typecnt ≤ 256)
    (rest : List UInt8) : readTypeIndex typecnt ([UInt8.ofNat t] ++ rest) = .ok t rest := by
  have hbyte : (UInt8.ofNat t).toNat = t := by
    rw [UInt8.toNat_ofNat']
    omega
  unfold readTypeIndex
  rw [singleton_append, readchar, Read.bind_ok, hbyte, if_neg (by omega)]

/-- An offset of at most a day. -/
def DayOffset (t : TzType) : Prop := -86400 ≤ t.utoff ∧ t.utoff ≤ 86400

instance (t : TzType) : Decidable (DayOffset t) := inferInstanceAs (Decidable (_ ∧ _))

theorem readType_ok {t : TzType} (h : DayOffset t) (rest : List UInt8) :
    readType (TzBlock.typeBytes t ++ rest) = .ok t.utoff rest := by
  unfold DayOffset at h
  unfold readType TzBlock.typeBytes
  rw [append_assoc, readcoded32_signed (by omega), Read.bind_ok, if_neg (by omega)]
  rw [cons_append, readbool_boolByte, Read.bind_ok]
  rfl

theorem readType_error {t : TzType} (hfits : -2 ^ 31 ≤ t.utoff ∧ t.utoff < 2 ^ 31) (h : ¬DayOffset t)
    (rest : List UInt8) : ∃ rest', readType (TzBlock.typeBytes t ++ rest) = .error rest' := by
  unfold DayOffset at h
  unfold readType TzBlock.typeBytes
  rw [append_assoc, readcoded32_signed hfits, Read.bind_ok, if_pos (by omega)]
  exact ⟨_, rfl⟩

theorem readLeap_ok {is64bitData : Bool} {l : Int × Int} (h : TimeFits is64bitData l.1)
    (hcorrection : -2 ^ 31 ≤ l.2 ∧ l.2 < 2 ^ 31) (rest : List UInt8) :
    readLeap is64bitData (TzBlock.leapBytes is64bitData l ++ rest) = .ok () rest := by
  unfold readLeap TzBlock.leapBytes
  rw [append_assoc, readTime_signed h, Read.bind_ok, readcoded32_signed hcorrection, Read.bind_ok]

theorem readbool_length {input rest : List UInt8} {b : Bool} (h : readbool input = .ok b rest) :
    rest.length + 1 = input.length := by
  cases input with
  | nil => cases h
  | cons c input =>
    rw [readbool] at h
    split at h
    · cases h
    · cases h
      rfl

/-! ## A block -/

namespace TzBlock

variable {is64bitData : Bool} {block : TzBlock}

/-- All counts are read as they are. -/
structure SmallCounts (block : TzBlock) : Prop where
  transitions : block.transitions.length < 2 ^ 31
  chars : block.chars.length < 2 ^ 31
  leaps : block.leaps.length < 2 ^ 31

def counts (block : TzBlock) : TzCounts where
  isgmtcnt := block.isgmt.length
  isdstcnt := block.isstd.length
  leapcnt := block.leaps.length
  timecnt := block.transitions.length
  typecnt := block.types.length
  charcnt := block.chars.length

def version (block : TzBlock) : Nat := if block.version2 then 2 else 0

theorem WellFormed.flags (h : block.WellFormed is64bitData) :
    block.isstd.length ≤ 256 ∧ block.isgmt.length ≤ 256 := by
  have htypes := h.types
  constructor
  · rcases h.isstd with hnil | hlen
    · rw [hnil]
      exact Nat.zero_le _
    · omega
  · rcases h.isgmt with hnil | hlen
    · rw [hnil]
      exact Nat.zero_le _
    · omega

theorem readHeader_encode (h : block.WellFormed is64bitData) (rest : List UInt8) :
    (SmallCounts block → readHeader (block.header ++ rest) = .ok (block.version, block.counts) rest) ∧
      (¬SmallCounts block → readHeader (block.header ++ rest) = .abort) := by
  obtain ⟨hstd, hgmt⟩ := h.flags
  have htypes := h.types
  obtain ⟨htimes, hchars, hleaps⟩ := h.counts
  have hreserved := h.reserved
  have hskip : ∀ tail, skipBytes 15 (block.reserved ++ tail) = .ok () tail := by
    intro tail
    unfold skipBytes
    rw [if_neg (by rw [length_append]; omega), drop_left' hreserved]
  have hversion : ¬((if block.version2 then 50 else 0 : UInt8) ≠ 0 ∧
      (if block.version2 then 50 else 0 : UInt8) ≠ 50) := by
    cases block.version2 <;> decide
  have hnumber : (if (if block.version2 then 50 else 0 : UInt8) ≠ 0 then
      (if block.version2 then 50 else 0 : UInt8).toNat - 48 else 0) = block.version := by
    unfold version
    cases block.version2 <;> rfl
  have hread : readHeader (block.header ++ rest) =
      (readcount (beBytes 4 block.leaps.length ++ (beBytes 4 block.transitions.length ++
        (beBytes 4 block.types.length ++ (beBytes 4 block.chars.length ++ rest))))).bind
      fun leapcnt input => (readcount input).bind fun timecnt input =>
      (readcount input).bind fun typecnt input => (readcount input).bind fun charcnt input =>
        .ok (block.version, ⟨block.isgmt.length, block.isstd.length, leapcnt, timecnt, typecnt,
          charcnt⟩) input := by
    unfold readHeader header tzMagic
    simp only [append_assoc, cons_append, nil_append]
    rw [if_neg (by simp), if_neg (by simp)]
    simp only [drop_succ_cons, drop_zero, readchar, Read.bind_ok]
    rw [if_neg hversion, hskip, Read.bind_ok, readcount_beBytes (by omega), if_pos (by omega),
      Read.bind_ok, readcount_beBytes (by omega), if_pos (by omega), Read.bind_ok, hnumber]
  rw [hread]
  constructor
  · intro hsmall
    have ht := hsmall.transitions
    have hc := hsmall.chars
    have hl := hsmall.leaps
    rw [readcount_beBytes hleaps, if_pos hl, Read.bind_ok, readcount_beBytes htimes, if_pos ht,
      Read.bind_ok, readcount_beBytes (by omega), if_pos (by omega), Read.bind_ok,
      readcount_beBytes hchars, if_pos hc, Read.bind_ok]
    rfl
  · intro hlarge
    by_cases hl : block.leaps.length < 2 ^ 31
    · by_cases ht : block.transitions.length < 2 ^ 31
      · have hc : ¬block.chars.length < 2 ^ 31 := fun hc => hlarge ⟨ht, hc, hl⟩
        rw [readcount_beBytes hleaps, if_pos hl, Read.bind_ok, readcount_beBytes htimes, if_pos ht,
          Read.bind_ok, readcount_beBytes (by omega), if_pos (by omega), Read.bind_ok,
          readcount_beBytes hchars, if_neg hc, Read.bind_abort]
      · rw [readcount_beBytes hleaps, if_pos hl, Read.bind_ok, readcount_beBytes htimes, if_neg ht,
          Read.bind_abort]
    · rw [readcount_beBytes hleaps, if_neg hl, Read.bind_abort]

def offsets (block : TzBlock) : List Int := block.types.map TzType.utoff

/-- The table that the parser builds. -/
def info (is64bitData : Bool) (block : TzBlock) : ZoneInfo :=
  buildTransitions is64bitData (block.transitions.map Prod.fst) (block.transitions.map Prod.snd)
    block.offsets

/-- The flags behind the leap seconds. -/
def flagBytes (block : TzBlock) : List UInt8 := block.isstd.map boolByte ++ block.isgmt.map boolByte

theorem readTimes_encode (h : block.WellFormed is64bitData) (tail : List UInt8) :
    readArray (readTime is64bitData) block.transitions.length
      (block.transitions.flatMap (fun t => signedBytes (timeSize is64bitData) t.1) ++ tail) =
        .ok (block.transitions.map Prod.fst) tail :=
  readArray_flatMap (fun t ht => readTime_signed (h.times t ht)) tail

theorem readTypeIndices_encode (h : block.WellFormed is64bitData) (tail : List UInt8) :
    readArray (readTypeIndex block.types.length) block.transitions.length
      (block.transitions.flatMap (fun t => [UInt8.ofNat t.2]) ++ tail) =
        .ok (block.transitions.map Prod.snd) tail :=
  readArray_flatMap (fun t ht => readTypeIndex_byte (h.indices t ht) h.types) tail

/-- **A block with small counts and offsets of at most a day** is read up to its flags; those are read
for every type. -/
theorem zoneInfoParser_encode (h : block.WellFormed is64bitData) (hsmall : SmallCounts block)
    (hday : ∀ t ∈ block.types, DayOffset t) (rest : List UInt8) :
    zoneInfoParser is64bitData (block.encode is64bitData ++ rest) =
      (readArray readbool block.types.length (block.flagBytes ++ rest)).bind fun _ input =>
      (readArray readbool block.types.length input).bind fun _ input =>
      .ok (block.version, block.info is64bitData) input := by
  have hchars : ∀ tail, skipBytes block.chars.length (block.chars ++ tail) = .ok () tail := by
    intro tail
    unfold skipBytes
    rw [if_neg (by rw [length_append]; omega), drop_left]
  have hleaps : ∀ tail, ∃ units, readArray (readLeap is64bitData) block.leaps.length
      (block.leaps.flatMap (leapBytes is64bitData) ++ tail) = .ok units tail := fun tail =>
    ⟨_, readArray_flatMap (fun l hl => readLeap_ok (h.leaps l hl).1 (h.leaps l hl).2) tail⟩
  have hoffsets : ∀ tail, readArray readType block.types.length
      (block.types.flatMap typeBytes ++ tail) = .ok block.offsets tail :=
    readArray_flatMap fun t ht => readType_ok (hday t ht)
  unfold zoneInfoParser encode flagBytes
  simp only [append_assoc]
  rw [(readHeader_encode h _).1 hsmall, Read.bind_ok]
  simp only [counts]
  rw [readTimes_encode h, Read.bind_ok, readTypeIndices_encode h, Read.bind_ok, hoffsets, Read.bind_ok, hchars, Read.bind_ok]
  obtain ⟨units, hunits⟩ := hleaps (block.isstd.map boolByte ++ (block.isgmt.map boolByte ++ rest))
  rw [hunits, Read.bind_ok]
  rfl

theorem zoneInfoParser_error (h : block.WellFormed is64bitData) (hsmall : SmallCounts block)
    (hday : ∃ t ∈ block.types, ¬DayOffset t) (rest : List UInt8) :
    ∃ rest', zoneInfoParser is64bitData (block.encode is64bitData ++ rest) = .error rest' := by
  obtain ⟨before, t, behind, hsplit, hbefore, ht⟩ : ∃ before t behind,
      block.types = before ++ t :: behind ∧ (∀ u ∈ before, DayOffset u) ∧ ¬DayOffset t := by
    obtain ⟨t, ht⟩ := Option.isSome_iff_exists.mp
      (find?_isSome.mpr (hday.imp fun t ht => ⟨ht.1, decide_eq_true ht.2⟩))
    obtain ⟨hnot, before, behind, hsplit, hbefore⟩ := find?_eq_some_iff_append.mp ht
    refine ⟨before, t, behind, hsplit, fun u hu => ?_, of_decide_eq_true hnot⟩
    simpa using hbefore u hu
  have hmem : t ∈ block.types := by simp [hsplit]
  have hoffsets : ∀ tail, ∃ rest', readArray readType block.types.length
      (block.types.flatMap typeBytes ++ tail) = .error rest' := by
    rw [hsplit]
    exact readArray_error (fun u hu => readType_ok (hbefore u hu)) (readType_error (h.utoff t hmem) ht)
  unfold zoneInfoParser encode
  simp only [append_assoc]
  rw [(readHeader_encode h _).1 hsmall, Read.bind_ok]
  simp only [counts]
  rw [readTimes_encode h, Read.bind_ok, readTypeIndices_encode h, Read.bind_ok]
  obtain ⟨rest', herror⟩ := hoffsets (block.chars ++ (block.leaps.flatMap (leapBytes is64bitData) ++
    (block.isstd.map boolByte ++ (block.isgmt.map boolByte ++ rest))))
  exact ⟨rest', by rw [herror, Read.bind_error]⟩

theorem zoneInfoParser_abort (h : block.WellFormed is64bitData) (hlarge : ¬SmallCounts block)
    (rest : List UInt8) : zoneInfoParser is64bitData (block.encode is64bitData ++ rest) = .abort := by
  unfold zoneInfoParser encode
  simp only [append_assoc]
  rw [(readHeader_encode h _).2 hlarge, Read.bind_abort]

theorem flags_length {n : Nat} {input rest : List UInt8} {α : Type} {a b : α}
    (h : ((readArray readbool n input).bind fun _ input =>
      (readArray readbool n input).bind fun _ input => .ok a input) = .ok b rest) :
    rest.length + 2 * n = input.length := by
  obtain ⟨std, input', hstd, h⟩ := Read.bind_eq_ok h
  obtain ⟨gmt, input'', hgmt, h⟩ := Read.bind_eq_ok h
  cases h
  have hlen := readArray_length readbool_length hstd
  have hlen' := readArray_length readbool_length hgmt
  omega

theorem flags_read (hstd : block.isstd.length = block.types.length)
    (hgmt : block.isgmt.length = block.types.length) {α : Type} (a : α) (rest : List UInt8) :
    ((readArray readbool block.types.length (block.flagBytes ++ rest)).bind fun _ input =>
      (readArray readbool block.types.length input).bind fun _ input => .ok a input) = .ok a rest := by
  have hbools : ∀ (bs : List Bool) tail,
      readArray readbool bs.length (bs.map boolByte ++ tail) = .ok bs tail := by
    intro bs tail
    have hread : readArray readbool bs.length (bs.flatMap (fun b => [boolByte b]) ++ tail) =
        .ok (bs.map id) tail := readArray_flatMap (fun b _ => readbool_boolByte b) tail
    rw [map_id, ← map_eq_flatMap] at hread
    exact hread
  unfold flagBytes
  rw [append_assoc]
  nth_rewrite 1 [← hstd]
  rw [hbools, Read.bind_ok, ← hgmt, hbools, Read.bind_ok]

end TzBlock

end SyslogNg.Time
