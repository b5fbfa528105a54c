import SyslogNg.Lib.CInt
import SyslogNg.Lib.Reader
import SyslogNg.Time.ZoneOffset

/-!
# Time zone files (`lib/timeutils.c`)

`zone_info_parser` reads one block of a file that `zic` has compiled: six counts, and nine arrays whose
sizes they give. A failed assertion, or a read behind the end of the file, is an `abort`; the label
`error` leaves no table.
-/

namespace SyslogNg.Time

open Lib List

/-! ## The parser -/

/-- `readcoded32` (`k = 4`) and `readcoded64` (`k = 8`). -/
def readcoded (k : Nat) (minv maxv : Int) (input : List UInt8) : Read Int :=
  if input.length < k then .abort
  else
    let val := signedOf k (input.take k)
    if val < minv ∨ val > maxv then .abort else .ok val (input.drop k)

def gMinint64 : Int := -2 ^ 63

def gMaxint64 : Int := 2 ^ 63 - 1

def readbool : List UInt8 → Read Bool
  | [] => .abort
  | c :: input => if c ≠ 0 ∧ c ≠ 1 then .abort else .ok (c ≠ 0) input

def readchar : List UInt8 → Read UInt8
  | [] => .abort
  | c :: input => .ok c input

/-- `*input += n` over bytes that do not matter. -/
def skipBytes (n : Nat) (input : List UInt8) : Read Unit :=
  if input.length < n then .abort else .ok () (input.drop n)

def tzMagic : List UInt8 := [84, 90, 105, 102]

structure TzCounts where
  isgmtcnt : Nat
  isdstcnt : Nat
  leapcnt : Nat
  timecnt : Nat
  typecnt : Nat
  charcnt : Nat

/-- `readcoded32(input, 0, G_MAXINT64)`. -/
def readcount (input : List UInt8) : Read Nat :=
  (readcoded 4 0 gMaxint64 input).bind fun val input => .ok val.toNat input

/-- The signature, the version and the counts. -/
def readHeader (input : List UInt8) : Read (Nat × TzCounts) :=
  if input.length < 5 then .abort
  else if input.take 4 ≠ tzMagic then .error (input.drop 4)
  else (readchar (input.drop 4)).bind fun buf input =>
    if buf ≠ 0 ∧ buf ≠ 50 then .error input
    else (skipBytes 15 input).bind fun _ input =>
      (readcount input).bind fun isgmtcnt input =>
      (readcount input).bind fun isdstcnt input =>
      (readcount input).bind fun leapcnt input =>
      (readcount input).bind fun timecnt input =>
      (readcount input).bind fun typecnt input =>
      (readcount input).bind fun charcnt input =>
        .ok (if buf ≠ 0 then buf.toNat - 48 else 0,
          ⟨isgmtcnt, isdstcnt, leapcnt, timecnt, typecnt, charcnt⟩) input

def timeSize (is64bitData : Bool) : Nat := if is64bitData then 8 else 4

def readTime (is64bitData : Bool) (input : List UInt8) : Read Int :=
  readcoded (timeSize is64bitData) gMinint64 gMaxint64 input

def readTypeIndex (typecnt : Nat) (input : List UInt8) : Read Nat :=
  (readchar input).bind fun t input =>
    if t.toNat ≥ typecnt then .error input else .ok t.toNat input

/-- The offset of a type; its `isdst` flag and the index of its abbreviation are dropped. -/
def readType (input : List UInt8) : Read Int :=
  (readcoded 4 gMinint64 gMaxint64 input).bind fun offset input =>
    if offset > 24 * 60 * 60 ∨ offset < -1 * 24 * 60 * 60 then .error input
    else (readbool input).bind fun _ input =>
      (readchar input).bind fun _ input => .ok offset input

def readLeap (is64bitData : Bool) (input : List UInt8) : Read Unit :=
  (readTime is64bitData input).bind fun _ input =>
    (readcoded 4 gMinint64 gMaxint64 input).bind fun _ input => .ok () input

def lowestTime32 : Int := -2 ^ 31

def zoneInfoNew (timecnt : Nat) : ZoneInfo :=
  ⟨List.replicate timecnt ⟨0, 0⟩, timecnt, none, by rw [length_replicate]⟩

/-- What the loop over the 64 bit transitions has done so far. -/
structure EarlyFold where
  minidx : Option Nat
  lastTransitionIndex : Nat
  transitions : List Transition

/-- One transition of that loop: the latest of the early ones is remembered, the others are kept. -/
def foldTransition (times : List Int) (offsetOf : Nat → Int) (fold : EarlyFold) (i : Nat) :
    EarlyFold :=
  let time := times.getD i 0
  if time < lowestTime32 then
    match fold.minidx with
    | none => { fold with minidx := some i }
    | some minidx => if time > times.getD minidx 0 then { fold with minidx := some i } else fold
  else
    { fold with
      lastTransitionIndex := fold.lastTransitionIndex + 1
      transitions := fold.transitions.set fold.lastTransitionIndex ⟨time, offsetOf i⟩ }

theorem foldTransition_length (times : List Int) (offsetOf : Nat → Int) (fold : EarlyFold) (i : Nat) :
    (foldTransition times offsetOf fold i).transitions.length = fold.transitions.length := by
  unfold foldTransition
  dsimp only
  split
  · split
    · rfl
    · split <;> rfl
  · exact length_set

/-- The loop over the 64 bit transitions. -/
def foldEarly (times : List Int) (offsetOf : Nat → Int) : EarlyFold :=
  (List.range times.length).foldl (foldTransition times offsetOf)
    ⟨none, 0, (zoneInfoNew times.length).transitions⟩

theorem foldEarly_length (times : List Int) (offsetOf : Nat → Int) :
    (foldEarly times offsetOf).transitions.length = times.length := by
  have hfold : ∀ (is : List Nat) (fold : EarlyFold),
      (is.foldl (foldTransition times offsetOf) fold).transitions.length = fold.transitions.length := by
    intro is
    induction is with
    | nil => exact fun _ => rfl
    | cons i is ih => exact fun fold => (ih _).trans (foldTransition_length times offsetOf fold i)
  exact (hfold _ _).trans length_replicate

/-- The table of the transitions, their types and the offsets of these. -/
def buildTransitions (is64bitData : Bool) (times : List Int) (types : List Nat)
    (gmtOffsets : List Int) : ZoneInfo :=
  let timecnt := times.length
  let offsetOf i := gmtOffsets.getD (types.getD i 0) 0
  if gmtOffsets.length > 0 ∧ timecnt = 0 then
    -- only one type: it is added with 1901
    ⟨[⟨lowestTime32, gmtOffsets.getD 0 0⟩], 1, none, Nat.le_refl 1⟩
  else if h : is64bitData ∧ timecnt > 0 then
    let fold := foldEarly times offsetOf
    match fold.minidx with
    | some minidx =>
      ⟨⟨lowestTime32, offsetOf minidx⟩ :: fold.transitions.take (timecnt - 1), timecnt - minidx, none,
        by
          rw [length_cons, length_take, foldEarly_length times offsetOf,
            Nat.min_eq_left (Nat.sub_le timecnt 1), Nat.sub_add_cancel h.2]
          exact Nat.sub_le timecnt minidx⟩
    | none =>
      -- the initial type is inserted
      ⟨⟨lowestTime32, gmtOffsets.getD 0 0⟩ :: fold.transitions, timecnt + 1, none, by
        rw [length_cons, foldEarly_length times offsetOf]⟩
  else
    ⟨(List.range timecnt).map fun i => ⟨times.getD i 0, offsetOf i⟩, timecnt, none, by
      rw [length_map, length_range]⟩

def zoneInfoParser (is64bitData : Bool) (input : List UInt8) : Read (Nat × ZoneInfo) :=
  (readHeader input).bind fun (version, counts) input =>
  (readArray (readTime is64bitData) counts.timecnt input).bind fun times input =>
  (readArray (readTypeIndex counts.typecnt) counts.timecnt input).bind fun types input =>
  (readArray readType counts.typecnt input).bind fun gmtOffsets input =>
  let info := buildTransitions is64bitData times types gmtOffsets
  (skipBytes counts.charcnt input).bind fun _ input =>
  (readArray (readLeap is64bitData) counts.leapcnt input).bind fun _ input =>
  (readArray readbool counts.typecnt input).bind fun _ input =>
  (readArray readbool counts.typecnt input).bind fun _ input =>
  .ok (version, info) input

/-! ## Well-formed files -/

/-- A type of local time. -/
structure TzType where
  utoff : Int
  isdst : Bool
  abbrind : UInt8

/-- A block of a file: the transitions with the indices of their types, the types, and what else the
block holds. -/
structure TzBlock where
  version2 : Bool
  reserved : List UInt8
  transitions : List (Int × Nat)
  types : List TzType
  chars : List UInt8
  leaps : List (Int × Int)
  isstd : List Bool
  isgmt : List Bool

/-- The times of a block are numbers of `timeSize` bytes. -/
def TimeFits (is64bitData : Bool) (time : Int) : Prop :=
  -(256 ^ timeSize is64bitData / 2 : Nat) ≤ time ∧ time < (256 ^ timeSize is64bitData / 2 : Nat)

namespace TzBlock

/-- What the format asks of a block. -/
structure WellFormed (is64bitData : Bool) (block : TzBlock) : Prop where
  reserved : block.reserved.length = 15
  times : ∀ t ∈ block.transitions, TimeFits is64bitData t.1
  increasing : block.transitions.Pairwise fun t u => t.1 < u.1
  indices : ∀ t ∈ block.transitions, t.2 < block.types.length
  types : block.types.length ≤ 256
  utoff : ∀ t ∈ block.types, -2 ^ 31 ≤ t.utoff ∧ t.utoff < 2 ^ 31
  leaps : ∀ l ∈ block.leaps, TimeFits is64bitData l.1 ∧ -2 ^ 31 ≤ l.2 ∧ l.2 < 2 ^ 31
  isstd : block.isstd = [] ∨ block.isstd.length = block.types.length
  isgmt : block.isgmt = [] ∨ block.isgmt.length = block.types.length
  counts : block.transitions.length < 2 ^ 32 ∧ block.chars.length < 2 ^ 32 ∧ block.leaps.length < 2 ^ 32

def boolByte (b : Bool) : UInt8 := if b then 1 else 0

def typeBytes (t : TzType) : List UInt8 := signedBytes 4 t.utoff ++ [boolByte t.isdst, t.abbrind]

def leapBytes (is64bitData : Bool) (l : Int × Int) : List UInt8 :=
  signedBytes (timeSize is64bitData) l.1 ++ signedBytes 4 l.2

def header (block : TzBlock) : List UInt8 :=
  tzMagic ++ (if block.version2 then 50 else 0) :: block.reserved ++
    beBytes 4 block.isgmt.length ++ beBytes 4 block.isstd.length ++ beBytes 4 block.leaps.length ++
    beBytes 4 block.transitions.length ++ beBytes 4 block.types.length ++ beBytes 4 block.chars.length

def encode (is64bitData : Bool) (block : TzBlock) : List UInt8 :=
  block.header ++
    block.transitions.flatMap (fun t => signedBytes (timeSize is64bitData) t.1) ++
    block.transitions.flatMap (fun t => [UInt8.ofNat t.2]) ++
    block.types.flatMap typeBytes ++
    block.chars ++
    block.leaps.flatMap (leapBytes is64bitData) ++
    block.isstd.map boolByte ++
    block.isgmt.map boolByte

/-- The local offset that a file gives a time: that of the last transition not after it, or the first
type. -/
def localOffset (block : TzBlock) (time : Int) : Option Int :=
  let index := ((block.transitions.filter (·.1 ≤ time)).getLast?.map Prod.snd).getD 0
  block.types[index]?.map TzType.utoff

end TzBlock

end SyslogNg.Time
