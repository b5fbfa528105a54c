import SyslogNg.Lib.Calendar

/-!
# Broken-down time (`lib/timeutils.c`)

The time zone of the host is a parameter: the offset that is in use at a time, and the time that
`mktime` finds for a broken-down time. A thread keeps the results of the C library in caches
(`cached_gmtime`, `cached_localtime`, `cached_mktime`). They start as zero bytes, so that an unused
entry is taken for the result at the time 0.
-/

namespace SyslogNg.Time

open Lib Function

/-- `struct tm`. -/
structure Tm where
  sec : Int
  min : Int
  hour : Int
  mday : Int
  mon : Int
  year : Int
  isdst : Int
  gmtoff : Int
  deriving DecidableEq

def Tm.zero : Tm := ⟨0, 0, 0, 0, 0, 0, 0, 0⟩

/-- The fields that `cached_mktime` compares. -/
def Tm.SameClock (a b : Tm) : Prop :=
  a.sec = b.sec ∧ a.min = b.min ∧ a.hour = b.hour ∧ a.mday = b.mday ∧ a.mon = b.mon ∧ a.year = b.year

instance (a b : Tm) : Decidable (a.SameClock b) :=
  inferInstanceAs (Decidable (_ ∧ _ ∧ _ ∧ _ ∧ _ ∧ _))

theorem Tm.SameClock.symm {a b : Tm} (h : a.SameClock b) : b.SameClock a := by
  obtain ⟨h1, h2, h3, h4, h5, h6⟩ := h
  exact ⟨h1.symm, h2.symm, h3.symm, h4.symm, h5.symm, h6.symm⟩

theorem Tm.SameClock.trans {a b c : Tm} (h : a.SameClock b) (h' : b.SameClock c) :
    a.SameClock c := by
  obtain ⟨h1, h2, h3, h4, h5, h6⟩ := h
  obtain ⟨g1, g2, g3, g4, g5, g6⟩ := h'
  exact ⟨h1.trans g1, h2.trans g2, h3.trans g3, h4.trans g4, h5.trans g5, h6.trans g6⟩

/-- `gmtime_r`. -/
def gmtime (t : Int) : Tm where
  sec := t % 60
  min := t / 60 % 60
  hour := t / 3600 % 24
  mday := (dateOfDay (t / 86400)).day
  mon := (dateOfDay (t / 86400)).month - 1
  year := (dateOfDay (t / 86400)).year - 1900
  isdst := 0
  gmtoff := 0

/-- The time whose `gmtime_r` is a broken-down time. -/
def timegm (tm : Tm) : Int :=
  dayOfDate ⟨tm.year + 1900, tm.mon + 1, tm.mday⟩ * 86400 + tm.hour * 3600 + tm.min * 60 + tm.sec

theorem timegm_gmtime (t : Int) : timegm (gmtime t) = t := by
  have hdate : (⟨(gmtime t).year + 1900, (gmtime t).mon + 1, (gmtime t).mday⟩ : Date) =
      dateOfDay (t / 86400) := by
    simp [gmtime]
  rw [timegm, hdate, dayOfDate_dateOfDay]
  simp only [gmtime]
  omega

theorem Tm.SameClock.timegm_eq {a b : Tm} (h : a.SameClock b) : timegm a = timegm b := by
  obtain ⟨h1, h2, h3, h4, h5, h6⟩ := h
  rw [timegm, timegm, h1, h2, h3, h4, h5, h6]

/-- At most the hour is not the same. -/
def Tm.SameButHour (a b : Tm) : Prop :=
  a.sec = b.sec ∧ a.min = b.min ∧ a.mday = b.mday ∧ a.mon = b.mon ∧ a.year = b.year

instance (a b : Tm) : Decidable (a.SameButHour b) :=
  inferInstanceAs (Decidable (_ ∧ _ ∧ _ ∧ _ ∧ _))

theorem sameButHour_gmtime_iff (x y : Int) : (gmtime x).SameButHour (gmtime y) ↔
    x - (gmtime x).hour * 3600 = y - (gmtime y).hour * 3600 := by
  constructor
  · rintro ⟨hsec, hmin, hmday, hmon, hyear⟩
    have hday : x / 86400 = y / 86400 := by
      apply dateOfDay_injective
      simp only [gmtime] at hmday hmon hyear
      cases hx : dateOfDay (x / 86400)
      cases hy : dateOfDay (y / 86400)
      simp only [hx, hy] at hmday hmon hyear
      simp only [Date.mk.injEq]
      omega
    simp only [gmtime] at hsec hmin ⊢
    omega
  · intro h
    simp only [gmtime] at h
    have hday : x / 86400 = y / 86400 := by omega
    have hsec : x % 60 = y % 60 := by omega
    have hmin : x / 60 % 60 = y / 60 % 60 := by omega
    simp only [Tm.SameButHour, gmtime, hday, hsec, hmin, and_self]

/-- The local time zone of the host. If a broken-down time exists in the zone, then `mktime` finds
a time that has it (there are two of them when an hour is played twice). -/
structure TimeZone where
  ofs : Int → Int
  isdst : Int → Int
  mktime : Tm → Int
  mktime_exists : ∀ tm t, tm.isdst = -1 → (gmtime (t + ofs t)).SameClock tm →
    (gmtime (mktime tm + ofs (mktime tm))).SameClock tm

/-- `localtime_r`. -/
def TimeZone.localtime (zone : TimeZone) (t : Int) : Tm :=
  { gmtime (t + zone.ofs t) with isdst := zone.isdst t, gmtoff := zone.ofs t }

/-- A zone that changes its offset once. In the time that is skipped, `mktime` uses the offset from
before the change. -/
def TimeZone.change (at_ before after : Int) : TimeZone where
  ofs t := if t < at_ then before else after
  isdst t := if t < at_ then 0 else 1
  mktime tm :=
    if timegm tm - before < at_ then timegm tm - before
    else if at_ ≤ timegm tm - after then timegm tm - after
    else timegm tm - before
  mktime_exists tm t _ h := by
    have htime := h.timegm_eq
    rw [timegm_gmtime] at htime
    suffices hsame : ∀ t', t' + (if t' < at_ then before else after) = timegm tm →
        (gmtime (t' + if t' < at_ then before else after)).SameClock tm by
      apply hsame
      by_cases hfirst : timegm tm - before < at_
      · rw [if_pos hfirst, if_pos hfirst]
        omega
      · have hlt : ¬ t < at_ := by
          intro hlt
          rw [if_pos hlt] at htime
          omega
        rw [if_neg hlt] at htime
        have hsecond : at_ ≤ timegm tm - after := by omega
        rw [if_neg hfirst, if_pos hsecond, if_neg (by omega)]
        omega
    intro t' ht'
    rw [ht', ← htime]
    exact h

/-! ## Caches -/

structure TimeCache where
  when : Int
  tm : Tm
  deriving DecidableEq

/-- What a thread keeps. -/
structure TimeCaches where
  localTimeCache : Nat → TimeCache
  gmTimeCache : Nat → TimeCache
  mktimePrevTm : Tm
  mktimePrevTime : Int

def TimeCaches.init : TimeCaches := ⟨fun _ => ⟨0, .zero⟩, fun _ => ⟨0, .zero⟩, .zero, 0⟩

/-- `*when & 0x3F`. -/
def cacheSlot (t : Int) : Nat := (t % 64).toNat

/-- `cached_mktime`: the time, and the broken-down time as `mktime` leaves it. -/
def cachedMktime (zone : TimeZone) (tm : Tm) (caches : TimeCaches) : Int × Tm × TimeCaches :=
  if tm.SameClock caches.mktimePrevTm then (caches.mktimePrevTime, tm, caches)
  else
    let result := zone.mktime tm
    let tm := zone.localtime result
    (result, tm, { caches with mktimePrevTm := tm, mktimePrevTime := result })

def cachedLocaltime (zone : TimeZone) (t : Int) (caches : TimeCaches) : Tm × TimeCaches :=
  if t = (caches.localTimeCache (cacheSlot t)).when then
    ((caches.localTimeCache (cacheSlot t)).tm, caches)
  else
    (zone.localtime t, { caches with
      localTimeCache := update caches.localTimeCache (cacheSlot t) ⟨t, zone.localtime t⟩ })

def cachedGmtime (t : Int) (caches : TimeCaches) : Tm × TimeCaches :=
  if t = (caches.gmTimeCache (cacheSlot t)).when then
    ((caches.gmTimeCache (cacheSlot t)).tm, caches)
  else
    (gmtime t, { caches with
      gmTimeCache := update caches.gmTimeCache (cacheSlot t) ⟨t, gmtime t⟩ })

/-- `get_local_timezone_ofs`, where `struct tm` has `tm_gmtoff`. -/
def getLocalTimezoneOfs (zone : TimeZone) (t : Int) (caches : TimeCaches) : Int × TimeCaches :=
  ((cachedLocaltime zone t caches).1.gmtoff, (cachedLocaltime zone t caches).2)

def cleanTimeCache (caches : TimeCaches) : TimeCaches :=
  { caches with localTimeCache := fun _ => ⟨0, .zero⟩, gmTimeCache := fun _ => ⟨0, .zero⟩ }

/-- The caches a thread can have after any use of them. -/
inductive CachesReachable (zone : TimeZone) : TimeCaches → Prop where
  | init : CachesReachable zone .init
  | mktime {caches : TimeCaches} (tm : Tm) : CachesReachable zone caches →
      CachesReachable zone (cachedMktime zone tm caches).2.2
  | localtime {caches : TimeCaches} (t : Int) : CachesReachable zone caches →
      CachesReachable zone (cachedLocaltime zone t caches).2
  | gmtime {caches : TimeCaches} (t : Int) : CachesReachable zone caches →
      CachesReachable zone (cachedGmtime t caches).2
  | clean {caches : TimeCaches} : CachesReachable zone caches →
      CachesReachable zone (cleanTimeCache caches)

/-- An entry that was never used. -/
def TimeCache.Unused (entry : TimeCache) : Prop := entry = ⟨0, .zero⟩

instance (entry : TimeCache) : Decidable entry.Unused := inferInstanceAs (Decidable (_ = _))

/-- Every entry that was used is a result of the C library. -/
structure CachesOk (zone : TimeZone) (caches : TimeCaches) : Prop where
  localtime : ∀ i, (caches.localTimeCache i).Unused ∨
    (caches.localTimeCache i).tm = zone.localtime (caches.localTimeCache i).when
  gmtime : ∀ i, (caches.gmTimeCache i).Unused ∨
    (caches.gmTimeCache i).tm = gmtime (caches.gmTimeCache i).when
  mktime : caches.mktimePrevTm = .zero ∨
    (zone.localtime caches.mktimePrevTime).SameClock caches.mktimePrevTm

section

variable {zone : TimeZone} {caches : TimeCaches}

theorem CachesOk.init : CachesOk zone .init := ⟨fun _ => .inl rfl, fun _ => .inl rfl, .inl rfl⟩

theorem CachesOk.afterMktime (h : CachesOk zone caches) (tm : Tm) :
    CachesOk zone (cachedMktime zone tm caches).2.2 := by
  unfold cachedMktime
  split
  · exact h
  · exact ⟨h.localtime, h.gmtime, .inr ⟨rfl, rfl, rfl, rfl, rfl, rfl⟩⟩

theorem CachesOk.afterLocaltime (h : CachesOk zone caches) (t : Int) :
    CachesOk zone (cachedLocaltime zone t caches).2 := by
  unfold cachedLocaltime
  split
  · exact h
  · refine ⟨fun i => ?_, h.gmtime, h.mktime⟩
    by_cases hi : i = cacheSlot t
    · right
      simp only [hi, update_self]
    · simp only [ne_eq, hi, not_false_eq_true, update_of_ne]
      exact h.localtime i

theorem CachesOk.afterGmtime (h : CachesOk zone caches) (t : Int) :
    CachesOk zone (cachedGmtime t caches).2 := by
  unfold cachedGmtime
  split
  · exact h
  · refine ⟨h.localtime, fun i => ?_, h.mktime⟩
    by_cases hi : i = cacheSlot t
    · right
      simp only [hi, update_self]
    · simp only [ne_eq, hi, not_false_eq_true, update_of_ne]
      exact h.gmtime i

theorem CachesReachable.ok (h : CachesReachable zone caches) : CachesOk zone caches := by
  induction h with
  | init => exact .init
  | mktime tm _ ih => exact ih.afterMktime tm
  | localtime t _ ih => exact ih.afterLocaltime t
  | gmtime t _ ih => exact ih.afterGmtime t
  | clean _ ih => exact ⟨fun _ => .inl rfl, fun _ => .inl rfl, ih.mktime⟩

/-! ## What a lookup returns -/

theorem cachedGmtime_eq (h : CachesOk zone caches) {t : Int}
    (hused : t = 0 → ¬ (caches.gmTimeCache 0).Unused) : (cachedGmtime t caches).1 = gmtime t := by
  unfold cachedGmtime
  split
  case isTrue heq =>
    rcases h.gmtime (cacheSlot t) with hunused | hentry
    · -- only an entry for the time 0 can be taken for a used one
      have hzero : t = 0 := by
        rw [heq, hunused]
      subst hzero
      exact absurd hunused (hused rfl)
    · rw [hentry, ← heq]
  case isFalse => rfl

theorem cachedGmtime_cases (h : CachesOk zone caches) (t : Int) :
    (cachedGmtime t caches).1 = gmtime t ∨ (cachedGmtime t caches).1 = .zero := by
  by_cases hunused : (caches.gmTimeCache 0).Unused
  · by_cases hzero : t = 0
    · right
      subst hzero
      have hentry : caches.gmTimeCache (cacheSlot 0) = ⟨0, .zero⟩ := hunused
      rw [cachedGmtime, hentry, if_pos rfl]
    · exact .inl (cachedGmtime_eq h fun hzero' => absurd hzero' hzero)
  · exact .inl (cachedGmtime_eq h fun _ => hunused)

theorem getLocalTimezoneOfs_eq (h : CachesOk zone caches) {t : Int}
    (hused : t = 0 → ¬ (caches.localTimeCache 0).Unused) :
    (getLocalTimezoneOfs zone t caches).1 = zone.ofs t := by
  unfold getLocalTimezoneOfs cachedLocaltime
  split
  case isTrue heq =>
    rcases h.localtime (cacheSlot t) with hunused | hentry
    · have hzero : t = 0 := by
        rw [heq, hunused]
      subst hzero
      exact absurd hunused (hused rfl)
    · simp only
      rw [hentry, ← heq]
      rfl
  case isFalse => rfl

theorem unused_of_afterLocaltime {t : Int}
    (h : ((cachedLocaltime zone t caches).2.localTimeCache 0).Unused) :
    (caches.localTimeCache 0).Unused := by
  unfold cachedLocaltime at h
  split at h
  · exact h
  case isFalse hne =>
    by_cases hslot : 0 = cacheSlot t
    · simp only [← hslot, update_self] at h
      have hmday : (gmtime (t + zone.ofs t)).mday = 0 := congrArg (fun entry => entry.tm.mday) h
      have := (dateOfDay_day ((t + zone.ofs t) / 86400)).1
      simp only [gmtime] at hmday
      omega
    · simpa only [ne_eq, hslot, not_false_eq_true, update_of_ne] using h

end

end SyslogNg.Time
