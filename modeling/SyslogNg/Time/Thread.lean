import SyslogNg.Time.TimeUtils

/-!
# The time caches of a thread (`lib/timeutils.c`)

`cached_localtime` and `cached_gmtime` keep one broken-down time for each value of the lowest six bits of
a `time_t`; `cached_mktime` keeps the last one, and compares six of its members. An entry of zeros looks
like a filled one. Here a `struct tm` has all of its members, and the C library may be any; what the
parsers see of it is in `SyslogNg.Time.TimeCaches`.
-/

namespace SyslogNg.Time

/-- A `struct tm`, with the members that the parsers do not look at. -/
structure StructTm extends Tm where
  wday : Int
  yday : Int
  zone : Option (List UInt8)
  deriving DecidableEq

def StructTm.zero : StructTm := ⟨.zero, 0, 0, none⟩

structure StructCache where
  when : Int
  tm : StructTm
  deriving DecidableEq

def StructCache.zero : StructCache := ⟨0, .zero⟩

/-- The functions of the C library, in a fixed time zone. `localtime_r` and `gmtime_r` fail where the
year is too large, and leave their argument alone; `mktime` gives its result for what it has made of its
argument. -/
structure TimeLibrary where
  localtimeR : Int → Option StructTm
  gmtimeR : Int → Option StructTm
  mktime : StructTm → Int × StructTm
  mktime_again : ∀ tm, mktime (mktime tm).2 = mktime tm

/-- What a thread keeps. -/
structure Thread where
  localTimeCache : Nat → StructCache
  gmTimeCache : Nat → StructCache
  mktimePrevTm : StructTm
  mktimePrevTime : Int

namespace Thread

/-- The thread starts with zeros. -/
def zero : Thread := ⟨fun _ => .zero, fun _ => .zero, .zero, 0⟩

/-- `cached_localtime` and `cached_gmtime`, on their own cache. -/
def cachedTime (timeR : Int → Option StructTm) (cache : Nat → StructCache) (time : Int)
    (tm : StructTm) : StructTm × (Nat → StructCache) :=
  if time = (cache (cacheSlot time)).when then ((cache (cacheSlot time)).tm, cache)
  else
    let tm := (timeR time).getD tm
    (tm, Function.update cache (cacheSlot time) ⟨time, tm⟩)

def cachedLocaltime (lib : TimeLibrary) (s : Thread) (time : Int) (tm : StructTm) :
    StructTm × Thread :=
  let (tm, cache) := cachedTime lib.localtimeR s.localTimeCache time tm
  (tm, { s with localTimeCache := cache })

def cachedGmtime (lib : TimeLibrary) (s : Thread) (time : Int) (tm : StructTm) : StructTm × Thread :=
  let (tm, cache) := cachedTime lib.gmtimeR s.gmTimeCache time tm
  (tm, { s with gmTimeCache := cache })

def cachedMktime (lib : TimeLibrary) (s : Thread) (tm : StructTm) : Int × StructTm × Thread :=
  if tm.SameClock s.mktimePrevTm.toTm then (s.mktimePrevTime, tm, s)
  else
    let (result, tm) := lib.mktime tm
    (result, tm, { s with mktimePrevTm := tm, mktimePrevTime := result })

def cleanTimeCache (s : Thread) : Thread :=
  { s with gmTimeCache := fun _ => .zero, localTimeCache := fun _ => .zero }

end Thread

inductive TimeCall where
  | localtime (time : Int) (tm : StructTm)
  | gmtime (time : Int) (tm : StructTm)
  | mktime (tm : StructTm)
  | clean

structure TimeAnswer where
  result : Option Int
  tm : Option StructTm
  deriving DecidableEq

/-- A call on the caches. -/
def TimeCall.cached (lib : TimeLibrary) (s : Thread) : TimeCall → TimeAnswer × Thread
  | .localtime time tm =>
    let (tm, s) := s.cachedLocaltime lib time tm
    (⟨none, some tm⟩, s)
  | .gmtime time tm =>
    let (tm, s) := s.cachedGmtime lib time tm
    (⟨none, some tm⟩, s)
  | .mktime tm =>
    let (result, tm, s) := s.cachedMktime lib tm
    (⟨some result, some tm⟩, s)
  | .clean => (⟨none, none⟩, s.cleanTimeCache)

/-- The answers of a sequence of calls. -/
def cachedAnswers (lib : TimeLibrary) : Thread → List TimeCall → List TimeAnswer
  | _, [] => []
  | s, call :: calls => (call.cached lib s).1 :: cachedAnswers lib (call.cached lib s).2 calls

/-- The same call on the C library. -/
def TimeCall.plain (lib : TimeLibrary) : TimeCall → TimeAnswer
  | .localtime time tm => ⟨none, some ((lib.localtimeR time).getD tm)⟩
  | .gmtime time tm => ⟨none, some ((lib.gmtimeR time).getD tm)⟩
  | .mktime tm => ⟨some (lib.mktime tm).1, some (lib.mktime tm).2⟩
  | .clean => ⟨none, none⟩

/-! ## What the caches hold -/

def HitsFilled (timeR : Int → Option StructTm) (cache : Nat → StructCache) (time : Int) : Prop :=
  time = (cache (cacheSlot time)).when →
    cache (cacheSlot time) ≠ .zero ∧ (timeR time).isSome

/-- The calls that the caches answer as the library does. For `mktime` these are the ones whose argument
is in every member the one that the last call has left. -/
def TimeCall.Served (lib : TimeLibrary) (s : Thread) : TimeCall → Prop
  | .localtime time _ => HitsFilled lib.localtimeR s.localTimeCache time
  | .gmtime time _ => HitsFilled lib.gmtimeR s.gmTimeCache time
  | .mktime tm => tm.SameClock s.mktimePrevTm.toTm → tm = s.mktimePrevTm ∧ tm ≠ .zero
  | .clean => True

/-- Every call of a sequence is served. -/
def AllServed (lib : TimeLibrary) : Thread → List TimeCall → Prop
  | _, [] => True
  | s, call :: calls => call.Served lib s ∧ AllServed lib (call.cached lib s).2 calls

def CacheTrue (timeR : Int → Option StructTm) (cache : Nat → StructCache) : Prop :=
  ∀ i, cache i = .zero ∨ ∀ tm, timeR (cache i).when = some tm → (cache i).tm = tm

structure CachesTrue (lib : TimeLibrary) (s : Thread) : Prop where
  localTime : CacheTrue lib.localtimeR s.localTimeCache
  gmTime : CacheTrue lib.gmtimeR s.gmTimeCache
  prev : s.mktimePrevTm = .zero ∨ lib.mktime s.mktimePrevTm = (s.mktimePrevTime, s.mktimePrevTm)

theorem cachesTrue_zero (lib : TimeLibrary) : CachesTrue lib .zero :=
  ⟨fun _ => .inl rfl, fun _ => .inl rfl, .inl rfl⟩

section

variable {lib : TimeLibrary} {s : Thread} {timeR : Int → Option StructTm} {cache : Nat → StructCache}

/-- **`cached_localtime` and `cached_gmtime`**: a hit is what the library gave, and a miss is stored. -/
theorem cachedTime_true (hcache : CacheTrue timeR cache) {time : Int}
    (hhit : HitsFilled timeR cache time) (tm : StructTm) :
    (Thread.cachedTime timeR cache time tm).1 = (timeR time).getD tm ∧
      CacheTrue timeR (Thread.cachedTime timeR cache time tm).2 := by
  unfold Thread.cachedTime
  dsimp only
  split
  case isTrue htime =>
    obtain ⟨hfilled, hsome⟩ := hhit htime
    obtain ⟨t, ht⟩ := Option.isSome_iff_exists.mp hsome
    have hentry := (hcache (cacheSlot time)).resolve_left hfilled
    refine ⟨?_, hcache⟩
    rw [ht, Option.getD_some]
    exact hentry t (htime ▸ ht)
  case isFalse =>
    refine ⟨rfl, fun i => ?_⟩
    by_cases hi : i = cacheSlot time
    · subst hi
      dsimp only
      rw [Function.update_self]
      refine .inr fun t ht => ?_
      dsimp only at ht ⊢
      rw [ht, Option.getD_some]
    · dsimp only
      rw [Function.update_of_ne hi]
      exact hcache i

/-- **`cached_mktime`**: a hit on an equal argument is what `mktime` gave for it. -/
theorem cachedMktime_true {tm : StructTm}
    (hprev : s.mktimePrevTm = .zero ∨ lib.mktime s.mktimePrevTm = (s.mktimePrevTime, s.mktimePrevTm))
    (hserved : (TimeCall.mktime tm).Served lib s) :
    (TimeCall.cached lib s (.mktime tm)).1 = (TimeCall.mktime tm).plain lib ∧
      ∀ s', s' = (TimeCall.cached lib s (.mktime tm)).2 →
        s'.localTimeCache = s.localTimeCache ∧ s'.gmTimeCache = s.gmTimeCache ∧
          (s'.mktimePrevTm = .zero ∨
            lib.mktime s'.mktimePrevTm = (s'.mktimePrevTime, s'.mktimePrevTm)) := by
  unfold TimeCall.cached TimeCall.plain Thread.cachedMktime
  dsimp only
  split
  case isTrue hsame =>
    obtain ⟨rfl, hne⟩ := hserved hsame
    have hlib := hprev.resolve_left hne
    refine ⟨by rw [hlib], ?_⟩
    rintro s' rfl
    exact ⟨rfl, rfl, hprev⟩
  case isFalse =>
    refine ⟨rfl, ?_⟩
    rintro s' rfl
    exact ⟨rfl, rfl, .inr (lib.mktime_again tm)⟩

theorem TimeCall.cached_true {call : TimeCall} (hs : CachesTrue lib s) (hserved : call.Served lib s) :
    (call.cached lib s).1 = call.plain lib ∧ CachesTrue lib (call.cached lib s).2 := by
  cases call with
  | localtime time tm =>
    obtain ⟨htm, hcache⟩ := cachedTime_true hs.localTime hserved tm
    exact ⟨congrArg (fun t : StructTm => TimeAnswer.mk none (some t)) htm, ⟨hcache, hs.gmTime, hs.prev⟩⟩
  | gmtime time tm =>
    obtain ⟨htm, hcache⟩ := cachedTime_true hs.gmTime hserved tm
    exact ⟨congrArg (fun t : StructTm => TimeAnswer.mk none (some t)) htm, ⟨hs.localTime, hcache, hs.prev⟩⟩
  | mktime tm =>
    obtain ⟨hanswer, hstate⟩ := cachedMktime_true hs.prev hserved
    obtain ⟨hlocal, hgm, hprev⟩ := hstate _ rfl
    exact ⟨hanswer, ⟨hlocal ▸ hs.localTime, hgm ▸ hs.gmTime, hprev⟩⟩
  | clean => exact ⟨rfl, ⟨fun _ => .inl rfl, fun _ => .inl rfl, hs.prev⟩⟩

/-- **The caches are transparent** to every sequence of calls of which each is served. -/
theorem cachedAnswers_plain (lib : TimeLibrary) (calls : List TimeCall)
    (h : AllServed lib .zero calls) :
    cachedAnswers lib .zero calls = calls.map (TimeCall.plain lib) := by
  have hrun : ∀ (calls : List TimeCall) (s : Thread), CachesTrue lib s → AllServed lib s calls →
      cachedAnswers lib s calls = calls.map (TimeCall.plain lib) := by
    intro calls
    induction calls with
    | nil => exact fun _ _ _ => rfl
    | cons call calls ih =>
      intro s hs hserved
      obtain ⟨hanswer, hnext⟩ := TimeCall.cached_true hs hserved.1
      rw [cachedAnswers, List.map_cons, hanswer, ih _ hnext hserved.2]
  exact hrun calls .zero (cachesTrue_zero lib) h

end

/-! ## What the parsers see -/

namespace Thread

variable {lib : TimeLibrary} {zone : TimeZone} (s : Thread)

end Thread

/-- One minute and four seconds after the epoch, in UTC. -/
def minuteFour : StructTm := ⟨⟨4, 1, 0, 1, 0, 70, 0, 0⟩, 4, 0, some [85, 84, 67]⟩

def epoch : StructTm := { minuteFour with sec := 0, min := 0 }

/-- A library in UTC, as far as these two times go. -/
def utcLibrary : TimeLibrary where
  localtimeR time := if time = 64 then some minuteFour else if time = 0 then some epoch else none
  gmtimeR time := if time = 64 then some minuteFour else if time = 0 then some epoch else none
  mktime tm :=
    if tm.SameClock minuteFour.toTm then (64, minuteFour)
    else if tm.SameClock epoch.toTm then (0, epoch)
    else (-1, tm)
  mktime_again tm := by
    split
    · rfl
    · split
      · rfl
      · rfl

/-- Slot 0 is filled before time 0 is asked for, and `mktime` is given its own result again. -/
def servedCalls : List TimeCall :=
  [.localtime 64 .zero, .localtime 0 .zero, .localtime 0 minuteFour,
    .mktime { epoch with isdst := -1 }, .mktime epoch]

theorem servedCalls_plain :
    cachedAnswers utcLibrary .zero servedCalls = servedCalls.map (TimeCall.plain utcLibrary) :=
  cachedAnswers_plain utcLibrary servedCalls
    ⟨fun h => absurd h (by decide), fun h => absurd h (by decide), fun _ => ⟨by decide, rfl⟩,
      fun h => absurd h (by decide), fun _ => ⟨rfl, by decide⟩, trivial⟩

/-- **The epoch is answered with zeros.** -/
theorem epoch_not_plain :
    cachedAnswers utcLibrary .zero [.localtime 0 minuteFour] = [⟨none, some .zero⟩] ∧
      cachedAnswers utcLibrary .zero [.localtime 0 minuteFour] ≠
        [TimeCall.localtime 0 minuteFour].map (TimeCall.plain utcLibrary) := by
  decide

end SyslogNg.Time
