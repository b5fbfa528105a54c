import SyslogNg.SyslogFormat.Parse

/-!
# Dates

`log_msg_parse_date` of `modules/syslogformat/syslog-format.c`: RFC 3339 stamps, and the stamps of
the legacy formats. `mktime` takes a stamp for local time of the host; the offset of the host and the
hours that `mktime` moved the stamp by are taken back afterwards.
-/

namespace SyslogNg.SyslogFormat

open Lib Time

/-- What `log_msg_parse_date` changes besides the cursor: the message and the caches of the thread. -/
structure DateState where
  msg : LogMessage
  caches : TimeCaches

inductive DateFormat where
  | iso
  | pix
  | linksys
  | bsd
  deriving DecidableEq

/-- A stamp that was scanned: the broken-down time, the microseconds, and the zone if there is one. -/
structure Scanned where
  tm : Tm
  usec : Nat
  zoneOffset : Option Int
  cursor : Cursor

/-- The Cisco mark of a clock that is synchronised or not, which the syslog protocol does not have. -/
def skipSynced (syslogProtocol : Bool) (msg : LogMessage) (c : Cursor) :
    Res (LogMessage × Cursor) :=
  if syslogProtocol then .ok (msg, c)
  else do
    let b ← peek c.src
    if b = 42 then return (msg.setValue isSynced [48], c.advance 1)
    else if b = 46 then return (msg.setValue isSynced [49], c.advance 1)
    else return (msg, c)

/-! ## RFC 3339 -/

/-- `left >= 19 && src[4] == '-' && …`. -/
def looksIso (c : Cursor) : Res Bool :=
  if c.left ≥ 19 then
    testAt c.src [(4, (· == 45)), (7, (· == 45)), (10, (· == 84)), (13, (· == 58)), (16, (· == 58))]
  else .ok false

/-- The first loop over the digits of a fraction: at most six of them. -/
def fracLoop : (room : Nat) → (frac div : Nat) → Cursor → Res (Nat × Nat × Cursor)
  | 0, frac, div, c => .ok (frac, div, c)
  | room + 1, frac, div, c =>
    if c.left > 0 then do
      let b ← peek c.src
      if isDigit b then fracLoop room (10 * frac + (b.toNat - 48)) (div * 10) (c.advance 1)
      else return (frac, div, c)
    else .ok (frac, div, c)

/-- The second loop, which does not look at the number of bytes that are left. -/
def skipDigits : List UInt8 → Int → Res Cursor
  | [], _ => .outside
  | b :: src, left => if isDigit b then skipDigits src (left - 1) else .ok ⟨b :: src, left⟩

/-- The fraction of a second. -/
def isoFrac (c : Cursor) : Res (Nat × Cursor) := do
  if ← nextIs 46 c then
    let (frac, div, c) ← fracLoop 6 0 1 (c.advance 1)
    let c ← skipDigits c.src c.left
    return (frac * (1000000 / div), c)
  else return (0, c)

/-- The value of two digits. -/
def twoDigits (src : List UInt8) (i : Nat) : Int :=
  ((src.getD i 0).toNat - 48 : Int) * 10 + ((src.getD (i + 1) 0).toNat - 48 : Int)

/-- `left >= 5 && (*src == '+' || *src == '-') && …`. -/
def looksOffset (c : Cursor) : Res Bool :=
  if c.left ≥ 5 then
    testAt c.src [(0, fun b => b == 43 || b == 45), (1, isDigit), (2, isDigit), (3, (· == 58)),
      (4, isDigit), (5, isDigit), (6, fun b => !isDigit b)]
  else .ok false

/-- The zone: `Z` or `+HH:MM`. -/
def isoZone (c : Cursor) : Res (Option Int × Cursor) := do
  if ← nextIs 90 c then return (some 0, c.advance 1)
  else if ← looksOffset c then
    let sign : Int := if c.src.head? = some 45 then -1 else 1
    return (some (sign * (twoDigits c.src 1 * 3600 + twoDigits c.src 4 * 60)), c.advance 6)
  else return (none, c)

/-- An RFC 3339 stamp. -/
def scanIso (tm : Tm) (c : Cursor) : Res Scanned := do
  let (tm, c) ← scanIsoTimestamp tm c
  let (usec, c) ← isoFrac c
  let (zoneOffset, c) ← isoZone c
  return ⟨{ tm with isdst := -1 }, usec, zoneOffset, c⟩

/-! ## Legacy formats -/

/-- The PIX and ASA format. -/
def looksPix (c : Cursor) : Res Bool :=
  if c.left ≥ 21 then
    testAt c.src [(3, (· == 32)), (6, (· == 32)), (11, (· == 32)), (14, (· == 58)), (17, (· == 58)),
      (20, fun b => b == 58 || b == 32), (7, isDigit), (8, isDigit), (9, isDigit), (10, isDigit)]
  else .ok false

def scanPix (tm : Tm) (c : Cursor) : Res Scanned := do
  let (tm, c) ← scanPixTimestamp tm c
  let b ← peek c.src
  let c := if b = 58 then c.advance 1 else c
  return ⟨{ tm with isdst := -1 }, 0, none, c⟩

/-- The LinkSys format. -/
def looksLinksys (c : Cursor) : Res Bool :=
  if c.left ≥ 21 then
    testAt c.src [(3, (· == 32)), (6, (· == 32)), (9, (· == 58)), (12, (· == 58)), (15, (· == 32)),
      (16, isDigit), (17, isDigit), (18, isDigit), (19, isDigit), (20, isSpace)]
  else .ok false

def scanLinksys (tm : Tm) (c : Cursor) : Res Scanned := do
  let (tm, c) ← scanLinksysTimestamp tm c
  return ⟨{ tm with isdst := -1 }, 0, none, c⟩

/-- RFC 3164. -/
def looksBsd (c : Cursor) : Res Bool :=
  if c.left ≥ 15 then
    testAt c.src [(3, (· == 32)), (6, (· == 32)), (9, (· == 58)), (12, (· == 58))]
  else .ok false

/-- The fraction of an RFC 3164 stamp: `i < left` bounds both of its loops. -/
def bsdFrac (c : Cursor) : Res (Nat × Cursor) := do
  if ← nextIs 46 c then
    let (frac, div, c) ← fracLoop 6 0 1 (c.advance 1)
    let (_, c) ← skipUntil (fun b => !isDigit b) c
    return (frac * (1000000 / div), c)
  else return (0, c)

/-- A stamp has no year: it is from the year before if its month is too far behind the current one,
and from the next year if it is too far before it. -/
def guessYear (now tm : Tm) : Tm :=
  let tm := if tm.mon > now.mon + 1 then { tm with year := tm.year - 1 } else tm
  if tm.mon < now.mon - 1 then { tm with year := tm.year + 1 } else tm

def scanBsd (now : Tm) (c : Cursor) : Res Scanned := do
  let (tm, c) ← scanBsdTimestamp now c
  let (usec, c) ← bsdFrac c
  return ⟨guessYear now tm, usec, none, c⟩

/-- The format of a stamp, if the text looks like one. -/
def dateFormat (syslogProtocol : Bool) (c : Cursor) : Res (Option DateFormat) := do
  if ← looksIso c then return some .iso
  else if syslogProtocol then return none
  else if ← looksPix c then return some .pix
  else if ← looksLinksys c then return some .linksys
  else if ← looksBsd c then return some .bsd
  else return none

/-- The fields that a format does not have are those of the current time. -/
def scanDate (now : Tm) (c : Cursor) : DateFormat → Res Scanned
  | .iso => scanIso now c
  | .pix => scanPix now c
  | .linksys => scanLinksys now c
  | .bsd => scanBsd now c

/-! ## The time of a stamp -/

/-- From the call of `cached_mktime` on. A zone that the message does not name stays as it was; -1
stands for none. -/
def storeStamp (env : ParseEnv) (assumeTimezone : Int) (scanned : Scanned) (st : DateState) :
    DateState :=
  let (time, tm, caches) := cachedMktime env.zone scanned.tm st.caches
  let zone := scanned.zoneOffset.getD st.msg.stamp.zoneOffset
  let zone := if zone = -1 then assumeTimezone else zone
  let (zone, caches) :=
    if zone = -1 then getLocalTimezoneOfs env.zone time caches else (zone, caches)
  let (ofs, caches) := getLocalTimezoneOfs env.zone time caches
  let tvSec := time + ofs - (tm.hour - scanned.tm.hour) * 3600 - zone
  ⟨{ st.msg with stamp := ⟨tvSec, scanned.usec, zone⟩ }, caches⟩

/-- The end of `log_msg_parse_date`: the cursor is only moved behind a stamp. -/
def finishDate (env : ParseEnv) (assumeTimezone : Int) (st : DateState) (c : Cursor) :
    Res Scanned → Res (Bool × DateState × Cursor)
  | .outside => .outside
  | .failed => .ok (false, { st with msg := { st.msg with stamp := st.msg.recvd } }, c)
  | .ok scanned => .ok (true, storeStamp env assumeTimezone scanned st, scanned.cursor)

/-- `log_msg_parse_date`: whether there was a stamp, and the cursor behind it. In a message of the
syslog protocol, a text that does not look like a stamp leaves the message alone. -/
def logMsgParseDate (env : ParseEnv) (syslogProtocol : Bool) (assumeTimezone : Int) (st : DateState)
    (c : Cursor) : Res (Bool × DateState × Cursor) := do
  let (msg, d) ← skipSynced syslogProtocol st.msg c
  match ← dateFormat syslogProtocol d with
  | none =>
    let stamp := if syslogProtocol then msg.stamp else msg.recvd
    return (false, ⟨{ msg with stamp }, st.caches⟩, c)
  | some format =>
    let (now, caches) := cachedLocaltime env.zone env.now st.caches
    finishDate env assumeTimezone ⟨msg, caches⟩ c (scanDate now d format)

end SyslogNg.SyslogFormat
