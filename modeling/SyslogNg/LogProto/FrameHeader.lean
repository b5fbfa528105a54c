import SyslogNg.LogProto.FramedDelivery

/-!
# The frame header

`extract_frame_length` accepts at most ten digits and a space, waits while that can still come,
and rejects the rest. Ten digits go beyond 32 bits: the length of a frame is the number in its
header only below `2^32`.
-/

namespace SyslogNg.LogProto

open Lib List

namespace LogProtoFramedServer

variable {self : LogProtoFramedServer} {avail : List UInt8}

/-- `avail` starts with a header: digits and a space. -/
def HasHeader (avail : List UInt8) : Prop :=
  ∃ digits rest, HeaderDigits digits ∧ avail = digits ++ 32 :: rest

/-- `avail` is a header whose end is not there yet. -/
def PartOfHeader (avail : List UInt8) : Prop :=
  ∃ digits rest, HeaderDigits digits ∧ rest ≠ [] ∧ avail ++ rest = digits ++ [32]

theorem partOfHeader_iff : PartOfHeader avail ↔ HeaderDigits avail := by
  constructor
  · rintro ⟨digits, rest, hdigits, hne, heq⟩
    have hrest : rest = rest.dropLast ++ [rest.getLast hne] := (dropLast_append_getLast hne).symm
    rw [hrest, ← append_assoc] at heq
    obtain ⟨rfl, -⟩ := append_inj' heq rfl
    exact hdigits.of_append
  · exact fun h => ⟨avail, [32], h, by simp, rfl⟩

theorem isdigit_space : isdigit 32 = false := by decide

theorem HasHeader.not_part (h : HasHeader avail) : ¬PartOfHeader avail := by
  obtain ⟨digits, rest, -, rfl⟩ := h
  intro hpart
  have hspace := (partOfHeader_iff.1 hpart).digit 32 (by simp)
  rw [isdigit_space] at hspace
  cases hspace

theorem digits_then (avail : List UInt8) :
    ∀ k ≤ 10, ∃ digits rest, avail = digits ++ rest ∧ k + digits.length ≤ 10 ∧ (∀ c ∈ digits, isdigit c) ∧
    ∀ c more, rest = c :: more → isdigit c = false ∨ k + digits.length = 10 := by
  induction avail with
  | nil => exact fun k hk => ⟨[], [], rfl, hk, by simp, by simp⟩
  | cons c avail ih =>
    intro k hk
    by_cases hc : isdigit c = true ∧ k < 10
    · obtain ⟨digits, rest, rfl, hlen, hdigit, hnext⟩ := ih (k + 1) hc.2
      refine ⟨c :: digits, rest, rfl, by simp only [length_cons]; omega, ?_, ?_⟩
      · intro d hd
        rcases mem_cons.1 hd with rfl | hd
        · exact hc.1
        · exact hdigit d hd
      · intro d more hd
        rcases hnext d more hd with h | h
        · exact .inl h
        · exact .inr (by simp only [length_cons]; omega)
    · refine ⟨[], c :: avail, rfl, hk, by simp, ?_⟩
      rintro d more heq
      obtain ⟨rfl, -⟩ := List.cons.inj heq
      by_cases hd : isdigit c = true
      · have hk10 : ¬k < 10 := fun h => hc ⟨hd, h⟩
        exact .inr (by simp only [length_nil]; omega)
      · exact .inl (by simpa using hd)

/-- What is there to read: a header, part of one, or a byte that ends every hope of one. -/
inductive Available : List UInt8 → Prop where
  | header {digits : List UInt8} (rest : List UInt8) (h : HeaderDigits digits) :
      Available (digits ++ 32 :: rest)
  | part {digits : List UInt8} (h : HeaderDigits digits) : Available digits
  | bad {digits : List UInt8} {c : UInt8} (rest : List UInt8) (h : HeaderDigits digits)
      (hspace : c ≠ 32) (hnext : isdigit c = false ∨ digits.length = 10) :
      Available (digits ++ c :: rest)

theorem available (avail : List UInt8) : Available avail := by
  obtain ⟨digits, rest, rfl, hlen, hdigit, hnext⟩ := digits_then avail 0 (by decide)
  rw [Nat.zero_add] at hlen
  simp only [Nat.zero_add] at hnext
  cases rest with
  | nil =>
    rw [append_nil]
    exact .part ⟨hlen, hdigit⟩
  | cons c rest =>
    by_cases hspace : c = 32
    · subst hspace
      exact .header rest ⟨hlen, hdigit⟩
    · exact .bad rest ⟨hlen, hdigit⟩ hspace (hnext c rest rfl)

variable {digits rest : List UInt8}

theorem takeWhile_header (h : HeaderDigits digits) (rest : List UInt8) :
    (digits ++ 32 :: rest).takeWhile isdigit = digits := by
  rw [takeWhile_append_of_pos h.digit, takeWhile_cons_of_neg (by decide), append_nil]

/-- The number that the digits in front of `avail` denote. -/
def headerNumber (avail : List UInt8) : Nat := readDecimal 0 (avail.takeWhile isdigit)

theorem headerNumber_eq (h : HeaderDigits digits) (rest : List UInt8) :
    headerNumber (digits ++ 32 :: rest) = readDecimal 0 digits := by
  rw [headerNumber, takeWhile_header h]

theorem not_hasHeader_bad {c : UInt8} (h : HeaderDigits digits) (hspace : c ≠ 32)
    (hnext : isdigit c = false ∨ digits.length = 10) :
    ¬HasHeader (digits ++ c :: rest) ∧ ¬PartOfHeader (digits ++ c :: rest) := by
  constructor
  · rintro ⟨es, more, he, heq⟩
    rcases append_eq_append_iff.1 heq with ⟨tail, rfl, htail⟩ | ⟨tail, rfl, htail⟩
    · cases tail with
      | nil => exact hspace (List.cons.inj htail).1
      | cons d tail =>
        obtain ⟨rfl, -⟩ := List.cons.inj htail
        have hlen := he.short
        have hdigit := he.digit c (by simp)
        simp only [length_append, length_cons] at hlen
        rcases hnext with hnext | hnext
        · rw [hnext] at hdigit
          cases hdigit
        · omega
    · cases tail with
      | nil => exact hspace (List.cons.inj htail).1.symm
      | cons d tail =>
        obtain ⟨rfl, -⟩ := List.cons.inj htail
        have hdigit := h.digit 32 (by simp)
        rw [isdigit_space] at hdigit
        cases hdigit
  · intro hpart
    have hall := partOfHeader_iff.1 hpart
    have hlen := hall.short
    have hdigit := hall.digit c (by simp)
    simp only [length_append, length_cons] at hlen
    rcases hnext with hnext | hnext
    · rw [hnext] at hdigit
      cases hdigit
    · omega

theorem extractFrameLength_invalid (hb : self.Bounds) {c : UInt8} (hdigits : HeaderDigits digits)
    (hspace : c ≠ 32) (hnext : isdigit c = false ∨ digits.length = 10)
    (h : self.pending = digits ++ c :: rest) :
    self.extractFrameLength =
      some (.invalid, { self with frameLen := readDecimal 0 digits % 2 ^ 32 }) := by
  have hpl := hb.pending_length
  have he := hb.end_le
  have hsm := hb.small
  rw [h, length_append, length_cons] at hpl
  have hno : ¬(isdigit c = true ∧ digits.length < 10) := by
    rintro ⟨hdigit, hlt⟩
    rcases hnext with hnext | hnext
    · rw [hnext] at hdigit
      cases hdigit
    · omega
  have hsub : usub32 (self.bufferPos + digits.length) self.bufferPos = digits.length := by
    rw [usub32_of_le (by omega) (by omega)]
    omega
  unfold extractFrameLength
  rw [scanHeader_pending hb hdigits h, length_cons, scanHeader, hb.pending_byte h, Option.bind_some, hsub]
  simp only [Bool.and_eq_true, decide_eq_true_eq, hno, if_false, hspace]
  rfl

/-- What the parser is to do with the bytes that are available. -/
structure ParsesHeader (s : LogProtoFramedServer) : Prop where
  accepts : ∀ pos t, s.extractFrameLength = some (.found pos, t) ↔
    ∃ digits rest, HeaderDigits digits ∧ s.pending = digits ++ 32 :: rest ∧
      pos = s.bufferPos + digits.length + 1 ∧
      t = { s with frameLen := readDecimal 0 digits, bufferPos := pos }
  waits : (∃ frameLen, s.extractFrameLength =
    some (.needMoreData, { s with frameLen := frameLen })) ↔ PartOfHeader s.pending
  rejects : (∃ frameLen, s.extractFrameLength =
    some (.invalid, { s with frameLen := frameLen })) ↔
      ¬HasHeader s.pending ∧ ¬PartOfHeader s.pending

/-- The number of the header that is there, if one is, fits into `frame_len`. -/
def NumberFits (self : LogProtoFramedServer) : Prop :=
  HasHeader self.pending → headerNumber self.pending < 2 ^ 32

theorem not_extract {scan scan' : HeaderScan} {t : LogProtoFramedServer}
    (h : self.extractFrameLength = some (scan, t)) (hne : scan ≠ scan') {t' : LogProtoFramedServer} :
    self.extractFrameLength ≠ some (scan', t') := by
  rw [h]
  rintro heq
  exact hne (Prod.mk.inj (Option.some.inj heq)).1

theorem parsesHeader_header (hb : self.Bounds) (hdigits : HeaderDigits digits)
    (h : self.pending = digits ++ 32 :: rest) : self.ParsesHeader ↔ readDecimal 0 digits < 2 ^ 32 := by
  have hfound := extractFrameLength_found hb hdigits h
  have hhas : HasHeader self.pending := ⟨digits, rest, hdigits, h⟩
  constructor
  · intro hparses
    obtain ⟨es, more, he, heq, -, ht⟩ := (hparses.accepts _ _).1 hfound
    have hes : es = digits := by
      rw [← takeWhile_header he more, ← heq, h, takeWhile_header hdigits]
    have hlen : readDecimal 0 digits % 2 ^ 32 = readDecimal 0 es := congrArg frameLen ht
    rw [hes] at hlen
    rw [← hlen]
    exact Nat.mod_lt _ (Nat.two_pow_pos 32)
  · intro hfits
    rw [Nat.mod_eq_of_lt hfits] at hfound
    refine ⟨fun pos t => ⟨fun ht => ?_, ?_⟩, ⟨?_, fun hpart => absurd hpart hhas.not_part⟩,
      ⟨?_, fun hno => absurd hhas hno.1⟩⟩
    · rw [hfound] at ht
      obtain ⟨hpos, rfl⟩ := Prod.mk.inj (Option.some.inj ht)
      obtain rfl := HeaderScan.found.inj hpos
      exact ⟨digits, rest, hdigits, h, rfl, rfl⟩
    · rintro ⟨es, more, he, heq, rfl, rfl⟩
      have hes : es = digits := by
        rw [← takeWhile_header he more, ← heq, h, takeWhile_header hdigits]
      rw [hfound, hes]
    · rintro ⟨frameLen, ht⟩
      exact absurd ht (not_extract hfound (by simp))
    · rintro ⟨frameLen, ht⟩
      exact absurd ht (not_extract hfound (by simp))

theorem parsesHeader_part (hb : self.Bounds) (hdigits : HeaderDigits self.pending) : self.ParsesHeader := by
  have hmore := extractFrameLength_needMoreData hb hdigits
  have hpart := partOfHeader_iff.2 hdigits
  refine ⟨fun pos t => ⟨fun ht => absurd ht (not_extract hmore (by simp)), ?_⟩,
    ⟨fun _ => hpart, fun _ => ⟨_, hmore⟩⟩, ⟨?_, fun hno => absurd hpart hno.2⟩⟩
  · rintro ⟨es, more, he, heq, -, -⟩
    exact absurd hpart (HasHeader.not_part ⟨es, more, he, heq⟩)
  · rintro ⟨frameLen, ht⟩
    exact absurd ht (not_extract hmore (by simp))

theorem parsesHeader_bad (hb : self.Bounds) {c : UInt8} (hdigits : HeaderDigits digits) (hspace : c ≠ 32)
    (hnext : isdigit c = false ∨ digits.length = 10) (h : self.pending = digits ++ c :: rest) :
    self.ParsesHeader := by
  have hinvalid := extractFrameLength_invalid hb hdigits hspace hnext h
  have hno : ¬HasHeader self.pending ∧ ¬PartOfHeader self.pending := by
    rw [h]
    exact not_hasHeader_bad hdigits hspace hnext
  refine ⟨fun pos t => ⟨fun ht => absurd ht (not_extract hinvalid (by simp)), ?_⟩,
    ⟨?_, fun hpart => absurd hpart hno.2⟩, ⟨fun _ => hno, fun _ => ⟨_, hinvalid⟩⟩⟩
  · rintro ⟨es, more, he, heq, -, -⟩
    exact absurd ⟨es, more, he, heq⟩ hno.1
  · rintro ⟨frameLen, ht⟩
    exact absurd ht (not_extract hinvalid (by simp))

theorem parsesHeader_iff (hb : self.Bounds) : self.ParsesHeader ↔ self.NumberFits := by
  have hav := available self.pending
  generalize h : self.pending = avail at hav
  cases hav with
  | header rest hdigits =>
    rw [parsesHeader_header hb hdigits h, NumberFits, h, headerNumber_eq hdigits]
    exact ⟨fun hlt _ => hlt, fun hfits => hfits ⟨_, rest, hdigits, rfl⟩⟩
  | part hdigits =>
    rw [← h] at hdigits
    exact ⟨fun _ hhas => absurd (partOfHeader_iff.2 hdigits) hhas.not_part,
      fun _ => parsesHeader_part hb hdigits⟩
  | bad rest hdigits hspace hnext =>
    refine ⟨fun _ hhas => ?_, fun _ => parsesHeader_bad hb hdigits hspace hnext h⟩
    rw [h] at hhas
    exact absurd hhas (not_hasHeader_bad hdigits hspace hnext).1

theorem ParsesHeader.frameLen_eq (h : self.ParsesHeader) {pos : Nat} {t : LogProtoFramedServer}
    (ht : self.extractFrameLength = some (.found pos, t)) : t.frameLen = headerNumber self.pending := by
  obtain ⟨digits, rest, hdigits, heq, -, rfl⟩ := (h.accepts pos t).1 ht
  rw [heq, headerNumber_eq hdigits]

/-- **A frame header is parsed right exactly when its number is below `2^32`**, and such headers
give the same length only for the same number. -/
theorem extract_frame_length_exact (hb : self.Bounds) :
    (self.ParsesHeader ↔ self.NumberFits) ∧
    ∀ {other : LogProtoFramedServer}, other.Bounds → self.NumberFits → other.NumberFits →
      ∀ {pos pos' s t}, self.extractFrameLength = some (.found pos, s) →
        other.extractFrameLength = some (.found pos', t) → s.frameLen = t.frameLen →
        headerNumber self.pending = headerNumber other.pending := by
  refine ⟨parsesHeader_iff hb, ?_⟩
  intro other hbo hfits hfitso pos pos' s t hs ht hlen
  have h1 := ((parsesHeader_iff hb).2 hfits).frameLen_eq hs
  have h2 := ((parsesHeader_iff hbo).2 hfitso).frameLen_eq ht
  rw [← h1, hlen, h2]

/-- A server that has read `bs` and nothing else. -/
def holding (bs : List UInt8) : LogProtoFramedServer :=
  { logProtoFramedServerNew with
    buffer := bs
    bufferSize := bs.length
    bufferEnd := bs.length }

theorem holding_bounds {bs : List UInt8} (h : bs.length < 2 ^ 31) : (holding bs).Bounds :=
  ⟨Nat.zero_le _, Nat.le_refl _, rfl, h⟩

theorem extract_frame_length_five : (holding [53, 32, 120]).ParsesHeader :=
  (extract_frame_length_exact (holding_bounds (by decide))).1.2 fun _ => by decide

/-- The headers `4294967297` and `1` both give a frame of one byte. -/
theorem extract_frame_length_wraps : ∃ s t : LogProtoFramedServer, s.Bounds ∧ t.Bounds ∧
    headerNumber s.pending = 4294967297 ∧ headerNumber t.pending = 1 ∧
    (s.extractFrameLength.map fun r => (r.1, r.2.frameLen)) = some (.found 11, 1) ∧
    (t.extractFrameLength.map fun r => (r.1, r.2.frameLen)) = some (.found 2, 1) ∧
    ¬s.ParsesHeader := by
  have hlong : HeaderDigits [52, 50, 57, 52, 57, 54, 55, 50, 57, 55] := ⟨by decide, by decide +kernel⟩
  refine ⟨holding [52, 50, 57, 52, 57, 54, 55, 50, 57, 55, 32, 120], holding [49, 32, 120],
    holding_bounds (by decide), holding_bounds (by decide), by decide, by decide, by decide,
    by decide, fun h => ?_⟩
  have hlt := (parsesHeader_header (holding_bounds (by decide)) hlong rfl).1 h
  revert hlt
  decide

end LogProtoFramedServer

end SyslogNg.LogProto
