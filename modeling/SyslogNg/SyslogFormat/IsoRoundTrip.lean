import SyslogNg.SyslogFormat.ParseDate

/-!
# ISO stamps survive formatting and parsing

What `log_stamp_append_format` writes for a stamp is scanned back to its fields. The time is found
with `mktime` in the zone of the host, though, and `iso_stamp_survives_iff` says when this comes out
right: if `mktime` leaves the day, the minute and the second of the text alone. It does not at a time
that the zone of the host skips by a part of an hour or over midnight.
-/

namespace SyslogNg.SyslogFormat

open Lib Time List

/-! ## Digits -/

variable {d : Nat}

theorem isDigit_digit (h : d < 10) : isDigit (digit d) = true := by
  interval_cases d <;> decide

theorem toNat_digit_sub (h : d < 10) : (digit d).toNat - 48 = d := by
  rw [digit, toNat_digit h]
  omega

variable {src : List UInt8} {left : Int}

theorem scanUint32_digit {result width : Nat} (hd : d < 10) (hleft : 0 < left) :
    scanUint32 result (width + 1) ⟨digit d :: src, left⟩ =
      scanUint32 ((result * 10 + d) % 2 ^ 32) width ⟨src, left - 1⟩ := by
  rw [scanUint32, if_pos (show left > 0 from hleft)]
  simp only [peek, Res.ok_bind, isDigit_digit hd, toNat_digit_sub hd, Cursor.advance,
    drop_succ_cons, drop_zero, Nat.cast_one, if_true]

theorem scanInt_two {a b : Nat} (ha : a < 10) (hb : b < 10) (hleft : 2 ≤ left) :
    scanInt 2 ⟨digit a :: digit b :: src, left⟩ = .ok ((10 * a + b : Nat), ⟨src, left - 2⟩) := by
  have hvalue : ((0 * 10 + a) % 2 ^ 32 * 10 + b) % 2 ^ 32 = 10 * a + b := by omega
  rw [scanInt, scanUint32_digit ha (by omega), scanUint32_digit hb (by omega), scanUint32, hvalue]
  simp only [Res.ok_bind, Res.pure_eq, Res.ok.injEq, Prod.mk.injEq, Cursor.mk.injEq, true_and]
  exact ⟨wrap32_eq_self (by omega), by omega⟩

theorem scanInt_four {a b c : Nat} (ha : a < 10) (hb : b < 10) (hc : c < 10) (hd : d < 10)
    (hleft : 4 ≤ left) :
    scanInt 4 ⟨digit a :: digit b :: digit c :: digit d :: src, left⟩ =
      .ok ((1000 * a + 100 * b + 10 * c + d : Nat), ⟨src, left - 4⟩) := by
  have hvalue : (((((0 * 10 + a) % 2 ^ 32 * 10 + b) % 2 ^ 32) * 10 + c) % 2 ^ 32 * 10 + d) % 2 ^ 32 =
      1000 * a + 100 * b + 10 * c + d := by omega
  rw [scanInt, scanUint32_digit ha (by omega), scanUint32_digit hb (by omega),
    scanUint32_digit hc (by omega), scanUint32_digit hd (by omega), scanUint32, hvalue]
  simp only [Res.ok_bind, Res.pure_eq, Res.ok.injEq, Prod.mk.injEq, Cursor.mk.injEq, true_and]
  exact ⟨wrap32_eq_self (by omega), by omega⟩

theorem scanExpectChar_eq {b : UInt8} (hleft : 1 ≤ left) :
    scanExpectChar b ⟨b :: src, left⟩ = .ok ⟨src, left - 1⟩ := by
  rw [scanExpectChar, if_neg (show ¬ left = 0 by omega)]
  simp [peek, Cursor.advance]

theorem fracLoop_digit {room frac div : Nat} (hd : d < 10) (hleft : 0 < left) :
    fracLoop (room + 1) frac div ⟨digit d :: src, left⟩ =
      fracLoop room (10 * frac + d) (div * 10) ⟨src, left - 1⟩ := by
  rw [fracLoop, if_pos (show left > 0 from hleft)]
  simp only [peek, Res.ok_bind, isDigit_digit hd, toNat_digit_sub hd, Cursor.advance,
    drop_succ_cons, drop_zero, Nat.cast_one, if_true]

/-! ## The text of a stamp -/

def two (n : Nat) : List UInt8 := [digit (n / 10), digit (n % 10)]

/-- `YYYY-MM-DDTHH:MM:SS`. -/
def isoClock (year mon mday hour min sec : Nat) : List UInt8 :=
  [digit (year / 1000), digit (year / 100 % 10), digit (year / 10 % 10), digit (year % 10), 45] ++
    two mon ++ [45] ++ two mday ++ [84] ++ two hour ++ [58] ++ two min ++ [58] ++ two sec

/-- `.uuuuuu`. -/
def isoFraction (usec : Nat) : List UInt8 :=
  [46, digit (usec / 100000), digit (usec / 10000 % 10), digit (usec / 1000 % 10),
    digit (usec / 100 % 10), digit (usec / 10 % 10), digit (usec % 10)]

/-- `+HH:MM`. -/
def isoOffset (sign : UInt8) (hours mins : Nat) : List UInt8 := sign :: two hours ++ [58] ++ two mins

theorem scanIsoTimestamp_clock {year mon mday hour min sec : Nat} {tm : Tm} {src : List UInt8}
    {left : Int} (hyear : year < 10000) (hmon : mon < 100) (hmday : mday < 100) (hhour : hour < 100)
    (hmin : min < 100) (hsec : sec < 100) (hleft : 19 ≤ left) :
    scanIsoTimestamp tm ⟨isoClock year mon mday hour min sec ++ src, left⟩ =
      .ok ({ tm with year := year - 1900, mon := mon - 1, mday := mday, hour := hour, min := min,
                     sec := sec }, ⟨src, left - 19⟩) := by
  have hdigits : ∀ n, n < 100 → 10 * (n / 10) + n % 10 = n := fun n _ => by omega
  have hyear4 : 1000 * (year / 1000) + 100 * (year / 100 % 10) + 10 * (year / 10 % 10) + year % 10 =
      year := by omega
  simp only [isoClock, two, cons_append, nil_append, scanIsoTimestamp]
  rw [scanInt_four (by omega) (by omega) (by omega) (by omega) (by omega), Res.ok_bind, hyear4]
  simp only
  rw [scanExpectChar_eq (by omega), Res.ok_bind, scanInt_two (by omega) (by omega) (by omega),
    Res.ok_bind, hdigits mon hmon]
  simp only
  rw [scanExpectChar_eq (by omega), Res.ok_bind, scanInt_two (by omega) (by omega) (by omega),
    Res.ok_bind, hdigits mday hmday]
  simp only
  rw [scanExpectChar_eq (by omega), Res.ok_bind, scanClock, scanInt_two (by omega) (by omega) (by omega),
    Res.ok_bind, hdigits hour hhour]
  simp only
  rw [scanExpectChar_eq (by omega), Res.ok_bind, scanInt_two (by omega) (by omega) (by omega),
    Res.ok_bind, hdigits min hmin]
  simp only
  rw [scanExpectChar_eq (by omega), Res.ok_bind, scanInt_two (by omega) (by omega) (by omega),
    Res.ok_bind, hdigits sec hsec]
  simp only [Res.pure_eq, Res.ok.injEq, Prod.mk.injEq, Cursor.mk.injEq, true_and]
  omega

theorem isoFrac_fraction {usec : Nat} {b : UInt8} (husec : usec < 1000000)
    (hb : isDigit b = false) (hleft : 7 ≤ left) :
    isoFrac ⟨isoFraction usec ++ b :: src, left⟩ = .ok (usec, ⟨b :: src, left - 7⟩) := by
  have hnext : nextIs 46 ⟨isoFraction usec ++ b :: src, left⟩ = .ok true := by
    rw [nextIs, if_pos (show left > 0 by omega)]
    rfl
  have hvalue : 10 * (10 * (10 * (10 * (10 * (10 * 0 + usec / 100000) + usec / 10000 % 10) +
      usec / 1000 % 10) + usec / 100 % 10) + usec / 10 % 10) + usec % 10 = usec := by omega
  rw [isoFrac, hnext, Res.ok_bind, if_pos rfl]
  simp only [isoFraction, cons_append, nil_append, Cursor.advance, drop_succ_cons, drop_zero, Nat.cast_one]
  rw [fracLoop_digit (by omega) (by omega), fracLoop_digit (by omega) (by omega),
    fracLoop_digit (by omega) (by omega), fracLoop_digit (by omega) (by omega),
    fracLoop_digit (by omega) (by omega), fracLoop_digit (by omega) (by omega), fracLoop, hvalue]
  simp only [Res.ok_bind, skipDigits, hb, Bool.false_eq_true, if_false, Res.pure_eq, Res.ok.injEq,
    Prod.mk.injEq, Cursor.mk.injEq, true_and]
  omega

theorem digit_toNat (h : d < 10) : ((digit d).toNat - 48 : Int) = d := by
  rw [digit, toNat_digit h]
  omega

theorem isoZone_offset {sign b : UInt8} {hours mins : Nat} {src : List UInt8} {left : Int}
    (hsign : sign = 43 ∨ sign = 45) (hhours : hours < 100) (hmins : mins < 100) (hb : isDigit b = false)
    (hleft : 6 ≤ left) :
    isoZone ⟨isoOffset sign hours mins ++ b :: src, left⟩ =
      .ok (some ((if sign = 45 then -1 else 1) * (hours * 3600 + mins * 60)), ⟨b :: src, left - 6⟩) := by
  have hnext : nextIs 90 ⟨isoOffset sign hours mins ++ b :: src, left⟩ = .ok false := by
    rw [nextIs, if_pos (show left > 0 by omega)]
    rcases hsign with rfl | rfl
    · rfl
    · rfl
  have htest : testAt (isoOffset sign hours mins ++ b :: src) [(0, fun b => b == 43 || b == 45),
      (1, isDigit), (2, isDigit), (3, (· == 58)), (4, isDigit), (5, isDigit),
      (6, fun b => !isDigit b)] = .ok true := by
    have h1 : isDigit (digit (hours / 10)) = true := isDigit_digit (by omega)
    have h2 : isDigit (digit (hours % 10)) = true := isDigit_digit (by omega)
    have h4 : isDigit (digit (mins / 10)) = true := isDigit_digit (by omega)
    have h5 : isDigit (digit (mins % 10)) = true := isDigit_digit (by omega)
    have h0 : (sign == 43 || sign == 45) = true := by
      rcases hsign with rfl | rfl
      · rfl
      · rfl
    simp [testAt, isoOffset, two, h0, h1, h2, h4, h5, hb]
  have hhours2 : twoDigits (isoOffset sign hours mins ++ b :: src) 1 = hours := by
    simp only [twoDigits, isoOffset, two, cons_append, nil_append, getD_cons_succ, getD_cons_zero]
    rw [digit_toNat (by omega), digit_toNat (by omega)]
    omega
  have hmins2 : twoDigits (isoOffset sign hours mins ++ b :: src) 4 = mins := by
    simp only [twoDigits, isoOffset, two, cons_append, nil_append, getD_cons_succ, getD_cons_zero]
    rw [digit_toNat (by omega), digit_toNat (by omega)]
    omega
  rw [isoZone, hnext, Res.ok_bind, if_neg (by decide), looksOffset, if_pos (show left ≥ 5 by omega),
    htest, Res.ok_bind]
  simp only [if_true, hhours2, hmins2, Res.pure_eq, Res.ok.injEq, Prod.mk.injEq, Option.some.injEq]
  refine ⟨?_, rfl⟩
  simp [isoOffset, two]

/-! ## A stamp and its text -/

/-- The stamps of the years 1970 to 9999 with a zone of whole minutes. -/
structure ValidStamp (stamp : LogStamp) : Prop where
  usec : stamp.tvUsec < 1000000
  minutes : stamp.zoneOffset % 60 = 0
  lower : -86400 < stamp.zoneOffset
  upper : stamp.zoneOffset < 86400
  from1970 : 1970 ≤ (gmtime (stamp.tvSec + stamp.zoneOffset)).year + 1900
  until9999 : (gmtime (stamp.tvSec + stamp.zoneOffset)).year + 1900 ≤ 9999

/-- The fields of a broken-down time as naturals. -/
structure TmFields (tm : Tm) (year mon mday hour min sec : Nat) : Prop where
  yearEq : tm.year + 1900 = year
  monEq : tm.mon + 1 = mon
  mdayEq : tm.mday = mday
  hourEq : tm.hour = hour
  minEq : tm.min = min
  secEq : tm.sec = sec
  monLt : mon < 100
  mdayLt : mday < 100
  hourLt : hour < 100
  minLt : min < 100
  secLt : sec < 100

theorem gmtime_fields {t : Int} (h : 0 ≤ (gmtime t).year + 1900) :
    ∃ year mon mday hour min sec, TmFields (gmtime t) year mon mday hour min sec := by
  have hmon := dateOfDay_month (t / 86400)
  have hday := dateOfDay_day (t / 86400)
  refine ⟨((gmtime t).year + 1900).toNat, ((gmtime t).mon + 1).toNat, (gmtime t).mday.toNat,
    (gmtime t).hour.toNat, (gmtime t).min.toNat, (gmtime t).sec.toNat, ?_⟩
  have hmon1 : (gmtime t).mon = (dateOfDay (t / 86400)).month - 1 := rfl
  have hmday : (gmtime t).mday = (dateOfDay (t / 86400)).day := rfl
  have hhour : (gmtime t).hour = t / 3600 % 24 := rfl
  have hmin : (gmtime t).min = t / 60 % 60 := rfl
  have hsec : (gmtime t).sec = t % 60 := rfl
  constructor <;> omega

def zoneSign (ofs : Int) : UInt8 := if ofs < 0 then 45 else 43

theorem formatZoneInfo_eq {ofs : Int} (h : ofs.natAbs < 360000) :
    formatZoneInfo ofs = isoOffset (zoneSign ofs) (ofs.natAbs / 3600) (ofs.natAbs % 3600 / 60) := by
  rw [formatZoneInfo, formatUint32Padded_two (by omega), formatUint32Padded_two (by omega)]
  rfl

theorem formatIso_eq {stamp : LogStamp} {caches : TimeCaches} {zone : TimeZone}
    {year mon mday hour min sec : Nat} (hvalid : ValidStamp stamp) (hok : CachesOk zone caches)
    (hused : stamp.tvSec + stamp.zoneOffset = 0 → ¬ (caches.gmTimeCache 0).Unused)
    (hf : TmFields (gmtime (stamp.tvSec + stamp.zoneOffset)) year mon mday hour min sec) :
    (logStampAppendFormat stamp .iso (-1) 6 caches).1 =
      isoClock year mon mday hour min sec ++ (isoFraction stamp.tvUsec ++
        isoOffset (zoneSign stamp.zoneOffset) (stamp.zoneOffset.natAbs / 3600)
          (stamp.zoneOffset.natAbs % 3600 / 60)) := by
  have hyear := hf.yearEq
  have hfrom := hvalid.from1970
  have huntil := hvalid.until9999
  have husec : stamp.tvUsec % 1000000 = stamp.tvUsec := Nat.mod_eq_of_lt hvalid.usec
  have hofs : stamp.zoneOffset.natAbs < 360000 := by
    have := hvalid.lower
    have := hvalid.upper
    omega
  simp only [logStampAppendFormat, ne_eq, not_true_eq_false, if_false, cachedGmtime_eq hok hused,
    formatZoneInfo_eq hofs, formatClock, hf.yearEq, hf.monEq, hf.mdayEq, hf.hourEq, hf.minEq,
    hf.secEq, logStampAppendFracDigits, husec, fracDigits_six stamp.tvUsec,
    formatUint32Padded_two hf.monLt, formatUint32Padded_two hf.mdayLt, formatUint32Padded_two hf.hourLt,
    formatUint32Padded_two hf.minLt, formatUint32Padded_two hf.secLt]
  rw [formatUint32Padded_year (by omega) (by omega)]
  simp [isoClock, isoFraction, two]

theorem scanIso_text {stamp : LogStamp} {year mon mday hour min sec : Nat} {now : Tm} {b : UInt8}
    {rest : List UInt8} {left : Int} (hvalid : ValidStamp stamp)
    (hf : TmFields (gmtime (stamp.tvSec + stamp.zoneOffset)) year mon mday hour min sec)
    (hb : isDigit b = false) (hleft : 32 ≤ left) :
    scanIso now ⟨isoClock year mon mday hour min sec ++ (isoFraction stamp.tvUsec ++
        isoOffset (zoneSign stamp.zoneOffset) (stamp.zoneOffset.natAbs / 3600)
          (stamp.zoneOffset.natAbs % 3600 / 60)) ++ b :: rest, left⟩ =
      .ok ⟨{ gmtime (stamp.tvSec + stamp.zoneOffset) with isdst := -1, gmtoff := now.gmtoff },
        stamp.tvUsec, some stamp.zoneOffset, ⟨b :: rest, left - 32⟩⟩ := by
  have hyear := hf.yearEq
  have huntil := hvalid.until9999
  have hlower := hvalid.lower
  have hupper := hvalid.upper
  have hminutes := hvalid.minutes
  have hsign : zoneSign stamp.zoneOffset = 43 ∨ zoneSign stamp.zoneOffset = 45 := by
    unfold zoneSign
    split
    · exact .inr rfl
    · exact .inl rfl
  have hnodigit : isDigit (zoneSign stamp.zoneOffset) = false := by
    rcases hsign with h | h
    · rw [h]
      rfl
    · rw [h]
      rfl
  have hzone : (if zoneSign stamp.zoneOffset = 45 then (-1 : Int) else 1) *
      (((stamp.zoneOffset.natAbs / 3600 : Nat) : Int) * 3600 +
        ((stamp.zoneOffset.natAbs % 3600 / 60 : Nat) : Int) * 60) = stamp.zoneOffset := by
    unfold zoneSign
    by_cases hneg : stamp.zoneOffset < 0
    · rw [if_pos hneg, if_pos rfl]
      omega
    · rw [if_neg hneg, if_neg (by decide)]
      omega
  rw [scanIso, append_assoc, append_assoc, scanIsoTimestamp_clock (by omega) hf.monLt
    hf.mdayLt hf.hourLt hf.minLt hf.secLt (by omega), Res.ok_bind]
  have hfrac : isoFrac ⟨isoFraction stamp.tvUsec ++ (isoOffset (zoneSign stamp.zoneOffset)
      (stamp.zoneOffset.natAbs / 3600) (stamp.zoneOffset.natAbs % 3600 / 60) ++ b :: rest),
        left - 19⟩ = .ok (stamp.tvUsec, ⟨isoOffset (zoneSign stamp.zoneOffset)
          (stamp.zoneOffset.natAbs / 3600) (stamp.zoneOffset.natAbs % 3600 / 60) ++ b :: rest,
            left - 19 - 7⟩) :=
    isoFrac_fraction hvalid.usec hnodigit (by omega)
  simp only
  rw [hfrac, Res.ok_bind]
  simp only
  have hoffset := @isoZone_offset _ b _ _ rest (left - 19 - 7) hsign
    (show stamp.zoneOffset.natAbs / 3600 < 100 by omega)
    (show stamp.zoneOffset.natAbs % 3600 / 60 < 100 by omega) hb (by omega)
  rw [hoffset, Res.ok_bind, hzone]
  simp only [Res.pure_eq, Res.ok.injEq, Scanned.mk.injEq, Cursor.mk.injEq, Tm.mk.injEq, true_and, and_true]
  have := hf.monEq
  have := hf.mdayEq
  have := hf.hourEq
  have := hf.minEq
  have := hf.secEq
  omega

/-! ## The time -/

section

variable {env : ParseEnv} {stamp : LogStamp} {caches : TimeCaches}

/-- What the fields of a stamp become for `mktime`: only `tm_gmtoff` is still that of the current
time. -/
def isoTm (stamp : LogStamp) (gmtoff : Int) : Tm :=
  { gmtime (stamp.tvSec + stamp.zoneOffset) with isdst := -1, gmtoff := gmtoff }

theorem timegm_localtime (zone : TimeZone) (t : Int) : timegm (zone.localtime t) = t + zone.ofs t :=
  timegm_gmtime (t + zone.ofs t)

theorem timegm_isoTm (gmtoff : Int) : timegm (isoTm stamp gmtoff) = stamp.tvSec + stamp.zoneOffset :=
  timegm_gmtime (stamp.tvSec + stamp.zoneOffset)

theorem storeStamp_iff {gmtoff assume : Int} {c : Cursor} {msg : LogMessage}
    (hok : CachesOk env.zone caches) (hzone : stamp.zoneOffset ≠ -1)
    (hepoch : (env.zone.localtime 0).SameClock (isoTm stamp gmtoff) ∨
      env.zone.mktime (isoTm stamp gmtoff) = 0 → ¬ (caches.localTimeCache 0).Unused) :
    (storeStamp env assume ⟨isoTm stamp gmtoff, stamp.tvUsec, some stamp.zoneOffset, c⟩
        ⟨msg, caches⟩).msg.stamp = stamp ↔
      (env.zone.localtime (env.zone.mktime (isoTm stamp gmtoff))).SameButHour (isoTm stamp gmtoff) := by
  generalize htm : isoTm stamp gmtoff = tm at hepoch
  have htime : timegm tm = stamp.tvSec + stamp.zoneOffset := by rw [← htm, timegm_isoTm]
  have hisdst : tm.isdst = -1 := by rw [← htm]; rfl
  have hmday : tm.mday ≠ 0 := by
    have := (dateOfDay_day ((stamp.tvSec + stamp.zoneOffset) / 86400)).1
    have hday : tm.mday = (dateOfDay ((stamp.tvSec + stamp.zoneOffset) / 86400)).day := by
      rw [← htm]
      rfl
    omega
  unfold storeStamp cachedMktime
  by_cases hhit : tm.SameClock caches.mktimePrevTm
  · -- the result of an earlier call: the broken-down time exists in the zone
    have hprev : (env.zone.localtime caches.mktimePrevTime).SameClock tm := by
      rcases hok.mktime with hzero | hsame
      · rw [hzero] at hhit
        exact absurd hhit.2.2.2.1 hmday
      · exact hsame.trans hhit.symm
    have hofs : (getLocalTimezoneOfs env.zone caches.mktimePrevTime caches).1 =
        env.zone.ofs caches.mktimePrevTime := by
      refine getLocalTimezoneOfs_eq hok (fun hzero => hepoch (.inl ?_))
      rwa [hzero] at hprev
    have hsum := hprev.timegm_eq
    rw [timegm_localtime, htime] at hsum
    have hexists := env.zone.mktime_exists tm caches.mktimePrevTime hisdst hprev
    simp only [if_pos hhit, Option.getD_some, if_neg hzone, hofs]
    constructor
    · intro _
      exact ⟨hexists.1, hexists.2.1, hexists.2.2.2.1, hexists.2.2.2.2.1, hexists.2.2.2.2.2⟩
    · intro _
      cases stamp
      simp only [LogStamp.mk.injEq, and_true] at hsum ⊢
      omega
  · have hofs : (getLocalTimezoneOfs env.zone (env.zone.mktime tm) { caches with
        mktimePrevTm := env.zone.localtime (env.zone.mktime tm)
        mktimePrevTime := env.zone.mktime tm }).1 = env.zone.ofs (env.zone.mktime tm) := by
      refine getLocalTimezoneOfs_eq ?_ (fun hzero => hepoch (.inr hzero))
      have := hok.afterMktime tm
      rwa [cachedMktime, if_neg hhit] at this
    have hiff := sameButHour_gmtime_iff (env.zone.mktime tm + env.zone.ofs (env.zone.mktime tm))
      (stamp.tvSec + stamp.zoneOffset)
    have hhour : (gmtime (stamp.tvSec + stamp.zoneOffset)).hour = tm.hour := by
      rw [← htm]
      rfl
    have hsame : (env.zone.localtime (env.zone.mktime tm)).SameButHour tm ↔
        (gmtime (env.zone.mktime tm + env.zone.ofs (env.zone.mktime tm))).SameButHour
          (gmtime (stamp.tvSec + stamp.zoneOffset)) := by
      rw [← htm]
      exact Iff.rfl
    rw [hsame, hiff, hhour]
    have hlocal : (env.zone.localtime (env.zone.mktime tm)).hour =
        (gmtime (env.zone.mktime tm + env.zone.ofs (env.zone.mktime tm))).hour := rfl
    simp only [if_neg hhit, Option.getD_some, if_neg hzone, hofs, hlocal]
    cases stamp
    simp only [LogStamp.mk.injEq, and_true]
    omega

def isoText (stamp : LogStamp) (caches : TimeCaches) : List UInt8 :=
  (logStampAppendFormat stamp .iso (-1) 6 caches).1

theorem skipSynced_clock {syslogProtocol : Bool} {year mon mday hour min sec : Nat} {msg : LogMessage}
    {src : List UInt8} {left : Int} (hyear : year < 10000) :
    skipSynced syslogProtocol msg ⟨isoClock year mon mday hour min sec ++ src, left⟩ =
      .ok (msg, ⟨isoClock year mon mday hour min sec ++ src, left⟩) := by
  have hdigit : isDigit (digit (year / 1000)) = true := isDigit_digit (by omega)
  have hstar : digit (year / 1000) ≠ 42 := by
    intro h
    rw [h] at hdigit
    exact absurd hdigit (by decide)
  have hdot : digit (year / 1000) ≠ 46 := by
    intro h
    rw [h] at hdigit
    exact absurd hdigit (by decide)
  cases syslogProtocol with
  | true => rfl
  | false => simp [skipSynced, isoClock, peek, hstar, hdot]

theorem looksIso_clock {year mon mday hour min sec : Nat} {src : List UInt8} {left : Int}
    (hleft : 19 ≤ left) : looksIso ⟨isoClock year mon mday hour min sec ++ src, left⟩ = .ok true := by
  rw [looksIso, if_pos (show left ≥ 19 from hleft)]
  simp [testAt, isoClock, two]

theorem parseDate_isoText {caches' : TimeCaches} {syslogProtocol : Bool} {assume left : Int}
    {msg : LogMessage} {b : UInt8} {rest : List UInt8} (hvalid : ValidStamp stamp)
    (hok : CachesOk env.zone caches)
    (hused : stamp.tvSec + stamp.zoneOffset = 0 → ¬ (caches.gmTimeCache 0).Unused)
    (hb : isDigit b = false) (hleft : (isoText stamp caches).length ≤ left) :
    logMsgParseDate env syslogProtocol assume ⟨msg, caches'⟩ ⟨isoText stamp caches ++ b :: rest, left⟩ =
      .ok (true, storeStamp env assume
        ⟨isoTm stamp (cachedLocaltime env.zone env.now caches').1.gmtoff, stamp.tvUsec,
          some stamp.zoneOffset, ⟨b :: rest, left - 32⟩⟩
        ⟨msg, (cachedLocaltime env.zone env.now caches').2⟩, ⟨b :: rest, left - 32⟩) := by
  have hfrom := hvalid.from1970
  obtain ⟨year, mon, mday, hour, min, sec, hf⟩ :=
    @gmtime_fields (stamp.tvSec + stamp.zoneOffset) (by omega)
  have hyear := hf.yearEq
  have huntil := hvalid.until9999
  rw [isoText, formatIso_eq hvalid hok hused hf] at hleft ⊢
  have hleft32 : 32 ≤ left := by
    simpa [isoClock, isoFraction, isoOffset, two] using hleft
  have hscan := @scanIso_text stamp year mon mday hour min sec
    (cachedLocaltime env.zone env.now caches').1 b rest left hvalid hf hb hleft32
  rw [append_assoc] at hscan ⊢
  have hsynced := @skipSynced_clock syslogProtocol year mon mday hour min sec msg (isoFraction stamp.tvUsec ++
    isoOffset (zoneSign stamp.zoneOffset) (stamp.zoneOffset.natAbs / 3600)
      (stamp.zoneOffset.natAbs % 3600 / 60) ++ b :: rest) left (by omega)
  have hiso := @looksIso_clock year mon mday hour min sec (isoFraction stamp.tvUsec ++
    isoOffset (zoneSign stamp.zoneOffset) (stamp.zoneOffset.natAbs / 3600)
      (stamp.zoneOffset.natAbs % 3600 / 60) ++ b :: rest) left (by omega)
  simp only [logMsgParseDate, hsynced, Res.ok_bind, dateFormat, hiso, if_true, Res.pure_eq, scanDate,
    hscan, finishDate]
  rfl

end

/-- A stamp is written, and the text is parsed into a message. -/
def Survives (env : ParseEnv) (syslogProtocol : Bool) (assume : Int) (stamp : LogStamp)
    (caches caches' : TimeCaches) (msg : LogMessage) (behind : List UInt8) (left : Int) : Prop :=
  ∃ st c, logMsgParseDate env syslogProtocol assume ⟨msg, caches'⟩
    ⟨isoText stamp caches ++ behind, left⟩ = .ok (true, st, c) ∧ st.msg.stamp = stamp

/-- **ISO stamps.** For all caches of the thread that writes a stamp and of the thread that parses it,
and all zones of the host: the stamp survives if and only if `mktime` only moves the hour of its
broken-down time. The times that are looked up must not be 0, unless the entry of the cache that
would be taken for them is in use. -/
theorem iso_stamp_survives_iff (env : ParseEnv) (syslogProtocol : Bool) (assume : Int)
    (stamp : LogStamp) (hvalid : ValidStamp stamp) (caches caches' : TimeCaches)
    (hreach : CachesReachable env.zone caches) (hreach' : CachesReachable env.zone caches')
    (msg : LogMessage) (b : UInt8) (rest : List UInt8) (hb : isDigit b = false) (left : Int)
    (hleft : (isoText stamp caches).length ≤ left)
    (hused : stamp.tvSec + stamp.zoneOffset = 0 → ¬ (caches.gmTimeCache 0).Unused)
    (hused' : (env.zone.localtime 0).SameClock
          (isoTm stamp (cachedLocaltime env.zone env.now caches').1.gmtoff) ∨
        env.zone.mktime (isoTm stamp (cachedLocaltime env.zone env.now caches').1.gmtoff) = 0 →
      ¬ (caches'.localTimeCache 0).Unused) :
    Survives env syslogProtocol assume stamp caches caches' msg (b :: rest) left ↔
      (env.zone.localtime (env.zone.mktime
        (isoTm stamp (cachedLocaltime env.zone env.now caches').1.gmtoff))).SameButHour
          (isoTm stamp (cachedLocaltime env.zone env.now caches').1.gmtoff) := by
  have hminutes := hvalid.minutes
  rw [Survives, parseDate_isoText hvalid hreach.ok hused hb hleft]
  have hiff := @storeStamp_iff env stamp (cachedLocaltime env.zone env.now caches').2
    (cachedLocaltime env.zone env.now caches').1.gmtoff assume ⟨b :: rest, left - 32⟩ msg
    (hreach'.ok.afterLocaltime env.now) (by omega)
    (fun h hunused => hused' h (unused_of_afterLocaltime hunused))
  rw [← hiff]
  constructor
  · rintro ⟨st, c, hok, hstamp⟩
    simp only [Res.ok.injEq, Prod.mk.injEq, true_and] at hok
    obtain ⟨rfl, rfl⟩ := hok
    exact hstamp
  · intro hstamp
    exact ⟨_, _, rfl, hstamp⟩

/-- A host on Lord Howe Island, where the clocks went from 02:00 to 02:30 on 2018-10-07. -/
def lordHoweEnv : ParseEnv where
  zone := .change 1538839800 37800 39600
  now := 1538839000
  utf8Validate _ := true
  getpid := 1

def emptyMessage : LogMessage where
  pri := 13
  utf8 := false
  isLocal := false
  internal := false
  hasLegacyMsghdr := false
  initialParse := true
  stamp := ⟨0, 0, -1⟩
  recvd := ⟨1538839000, 0, 37800⟩
  values _ := none
  sdata := []

/-- 2018-10-07T03:15:00.250000-05:30. -/
theorem iso_stamp_survives_lord_howe :
    isoText ⟨1538901900, 250000, -19800⟩ .init =
        "2018-10-07T03:15:00.250000-05:30".toUTF8.toList ∧
      Survives lordHoweEnv true (-1) ⟨1538901900, 250000, -19800⟩ .init .init emptyMessage [32] 33 := by
  refine ⟨by decide +kernel, (iso_stamp_survives_iff lordHoweEnv true (-1) ⟨1538901900, 250000, -19800⟩
    ?_ .init .init .init .init emptyMessage 32 [] rfl 33 ?_ ?_ ?_).2 ?_⟩
  · exact ⟨by decide, by decide, by decide, by decide, by decide +kernel, by decide +kernel⟩
  · decide +kernel
  · decide
  · decide +kernel
  · decide +kernel

def parsedStamp : Res (Bool × DateState × Cursor) → Option LogStamp
  | .ok (_, st, _) => some st.msg.stamp
  | _ => none

/-- 2018-10-07T02:15:00.000000+00:00 comes out as 02:45: the text is a local time that was skipped,
and `mktime` moves it by half an hour. -/
theorem iso_stamp_moved :
    ¬ ∀ (env : ParseEnv) (stamp : LogStamp), ValidStamp stamp →
      ∀ caches caches', CachesReachable env.zone caches → CachesReachable env.zone caches' →
      ∀ (msg : LogMessage) (left : Int), (isoText stamp caches).length ≤ left →
        Survives env true (-1) stamp caches caches' msg [32] left := by
  intro h
  obtain ⟨st, c, hparse, hstamp⟩ := h lordHoweEnv ⟨1538878500, 0, 0⟩
    ⟨by decide, by decide, by decide, by decide, by decide +kernel, by decide +kernel⟩
    .init .init .init .init emptyMessage 33 (by decide +kernel)
  have hmoved : parsedStamp (logMsgParseDate lordHoweEnv true (-1) ⟨emptyMessage, .init⟩
      ⟨isoText ⟨1538878500, 0, 0⟩ .init ++ [32], 33⟩) = some ⟨1538880300, 0, 0⟩ := by
    decide +kernel
  rw [hparse] at hmoved
  exact absurd ((congrArg some hstamp).symm.trans hmoved) (by decide)

end SyslogNg.SyslogFormat
