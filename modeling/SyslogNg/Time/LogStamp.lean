import SyslogNg.Time.TimeUtils
import SyslogNg.Lib.Decimal

/-!
# Formatting time stamps (`lib/logstamp.c`)

The parts of `lib/str-format.c` that write numbers are here too. Everything returns the bytes that
are appended to the target.
-/

namespace SyslogNg.Time

open Lib

/-- `LogStamp`: seconds since the epoch, microseconds, and the seconds to add to get local time. -/
structure LogStamp where
  tvSec : Int
  tvUsec : Nat
  zoneOffset : Int
  deriving DecidableEq

inductive TsFormat where
  | bsd
  | iso
  | full
  | unix
  deriving DecidableEq

/-- `format_uint32_padded` with base 10. -/
def formatUint32Padded (fieldLen : Nat) (padChar : UInt8) (value : Int) : List UInt8 :=
  let num := decimal (value % 2 ^ 32).toNat
  List.replicate (fieldLen - num.length) padChar ++ num

/-- The loop of `log_stamp_append_frac_digits`. -/
def fracDigitsLoop : (fracDigits x usecs : Nat) → List UInt8
  | 0, _, _ => []
  | fracDigits + 1, x, usecs =>
    if x = 0 then []
    else UInt8.ofNat (usecs / x + 48) :: fracDigitsLoop fracDigits (x / 10) (usecs % x)

def logStampAppendFracDigits (stamp : LogStamp) (fracDigits : Nat) : List UInt8 :=
  if fracDigits > 0 then 46 :: fracDigitsLoop fracDigits 100000 (stamp.tvUsec % 1000000) else []

/-- `format_zone_info`, with the buffer of 8 bytes that `log_stamp_append_format` has. -/
def formatZoneInfo (gmtoff : Int) : List UInt8 :=
  ((if gmtoff < 0 then 45 else 43) :: (formatUint32Padded 2 48 (gmtoff.natAbs / 3600 : Nat) ++
    58 :: formatUint32Padded 2 48 (gmtoff.natAbs % 3600 / 60 : Nat))).take 7

def monthNamesAbbrev : List (List UInt8) :=
  ["Jan", "Feb", "Mar", "Apr", "May", "Jun", "Jul", "Aug", "Sep", "Oct", "Nov", "Dec"].map
    fun name => name.toUTF8.toList

/-- `HH:MM:SS`. -/
def formatClock (tm : Tm) : List UInt8 :=
  formatUint32Padded 2 48 tm.hour ++ 58 :: (formatUint32Padded 2 48 tm.min ++
    58 :: formatUint32Padded 2 48 tm.sec)

def logStampAppendFormat (stamp : LogStamp) (tsFormat : TsFormat) (zoneOffset : Int)
    (fracDigits : Nat) (caches : TimeCaches) : List UInt8 × TimeCaches :=
  let targetZoneOffset := if zoneOffset ≠ -1 then zoneOffset else stamp.zoneOffset
  let r := cachedGmtime (stamp.tvSec + targetZoneOffset) caches
  let tm := r.1
  let frac := logStampAppendFracDigits stamp fracDigits
  let month := monthNamesAbbrev.getD tm.mon.toNat []
  (match tsFormat with
    | .bsd => month ++ 32 :: (formatUint32Padded 2 32 tm.mday ++ 32 :: (formatClock tm ++ frac))
    | .iso =>
      formatUint32Padded 0 0 (tm.year + 1900) ++ 45 :: (formatUint32Padded 2 48 (tm.mon + 1) ++
        45 :: (formatUint32Padded 2 48 tm.mday ++ 84 :: (formatClock tm ++ frac ++
          formatZoneInfo targetZoneOffset)))
    | .full =>
      formatUint32Padded 0 0 (tm.year + 1900) ++ 32 :: (month ++
        32 :: (formatUint32Padded 2 32 tm.mday ++ 32 :: (formatClock tm ++ frac)))
    | .unix => formatUint32Padded 0 0 stamp.tvSec ++ frac, r.2)

/-! ## Fields of two and four digits -/

/-- The ASCII digit of a number below 10. -/
def digit (d : Nat) : UInt8 := UInt8.ofNat (48 + d)

theorem formatUint32Padded_two {n : Nat} (h : n < 100) :
    formatUint32Padded 2 48 n = [digit (n / 10), digit (n % 10)] := by
  have hall : ∀ m < 100, formatUint32Padded 2 48 (m : Nat) = [digit (m / 10), digit (m % 10)] := by
    decide +kernel
  exact hall n h

theorem decimal_four {n : Nat} (h : 1000 ≤ n) (hlt : n < 10000) :
    decimal n = [digit (n / 1000), digit (n / 100 % 10), digit (n / 10 % 10), digit (n % 10)] := by
  unfold decimal
  rw [if_neg (by omega), Nat.digits_def' (by decide) (by omega),
    Nat.digits_def' (by decide) (by omega), Nat.digits_def' (by decide) (by omega),
    Nat.digits_def' (by decide) (by omega)]
  have hzero : n / 10 / 10 / 10 / 10 = 0 := by omega
  have hthousand : n / 10 / 10 / 10 % 10 = n / 1000 := by omega
  have hhundred : n / 10 / 10 % 10 = n / 100 % 10 := by omega
  rw [hzero, hthousand, hhundred, Nat.digits_zero]
  rfl

theorem formatUint32Padded_year {n : Nat} (h : 1000 ≤ n) (hlt : n < 10000) :
    formatUint32Padded 0 0 n =
      [digit (n / 1000), digit (n / 100 % 10), digit (n / 10 % 10), digit (n % 10)] := by
  unfold formatUint32Padded
  have hmod : ((n : Int) % 2 ^ 32).toNat = n := by omega
  simp only [hmod, Nat.zero_sub, List.replicate_zero, List.nil_append]
  exact decimal_four h hlt

theorem fracDigits_six (n : Nat) :
    fracDigitsLoop 6 100000 n = [digit (n / 100000), digit (n / 10000 % 10), digit (n / 1000 % 10),
      digit (n / 100 % 10), digit (n / 10 % 10), digit (n % 10)] := by
  simp only [fracDigitsLoop, digit, List.cons.injEq, and_true, Nat.reduceDiv,
    OfNat.ofNat_ne_zero, ite_false, one_ne_zero]
  refine ⟨?_, ?_, ?_, ?_, ?_, ?_⟩
  all_goals
    congr 1
    omega

end SyslogNg.Time
