import SyslogNg.Template.Compile
import SyslogNg.Time.Thread
import SyslogNg.SyslogFormat.ParseSd

/-!
# Macros (`lib/templates.c`)

`log_macro_expand`, with what it reads of a message and of its surroundings. The broken-down time is the
one that `cached_gmtime` gives.
-/

namespace SyslogNg.Template

open Lib Time SyslogFormat

/-- What the macros read of a message: `saddr` is the address of an inet sender as `g_sockaddr_format`
writes it, `tags` are the names of the tags in the order of `log_msg_tags_foreach`. -/
structure MacroMessage extends LogMessage where
  chainedHostname : Bool
  tags : List (List UInt8)
  saddr : Option (List UInt8)

/-- The options of the template, the arguments of `log_macro_expand`, and what it asks the process
for. -/
structure MacroOptions where
  /-- The configuration is of a version before 3.0. -/
  old : Bool
  tsFormat : TsFormat
  fracDigits : Nat
  timeZoneOffset : Option (Int → Int)
  seqNum : Nat
  contextId : Option (List UInt8)
  localHostname : List UInt8
  sysUptime : Nat
  now : LogStamp
  gmtime : Int → StructTm
  caches : TimeCaches

inductive TimeMacro where
  | date
  | fulldate
  | isodate
  | stamp
  | year
  | yearDay
  | month
  | monthWeek
  | monthAbbrev
  | monthName
  | day
  | hour
  | hour12
  | min
  | sec
  | usec
  | msec
  | ampm
  | weekDay
  | weekDayAbbrev
  | weekDayName
  | week
  | tzoffset
  | tz
  | unixtime
  deriving DecidableEq

/-- The time that a macro is about: none in its name, `R_`, `S_` or `C_`. -/
inductive MacroTime where
  | plain
  | recvd
  | stamp
  | current
  deriving DecidableEq

inductive Macro where
  | facility
  | facilityNum
  | level
  | levelNum
  | tag
  | tags
  | bsdtag
  | pri
  | host
  | sdata
  | msghdr
  | message
  | sourceIp
  | seqnum
  | contextId
  | loghost
  | sysuptime
  | time (of : MacroTime) (macro_ : TimeMacro)
  deriving DecidableEq

def plainMacros : List Macro :=
  [.facility, .facilityNum, .level, .levelNum, .tag, .tags, .bsdtag, .pri, .host, .sdata, .msghdr, .message,
    .sourceIp, .seqnum, .contextId, .loghost, .sysuptime]

def timeMacros : List TimeMacro :=
  [.date, .fulldate, .isodate, .stamp, .year, .yearDay, .month, .monthWeek, .monthAbbrev, .monthName, .day,
    .hour, .hour12, .min, .sec, .usec, .msec, .ampm, .weekDay, .weekDayAbbrev, .weekDayName, .week, .tzoffset,
    .tz, .unixtime]

/-- The macro of an id; 0 is `M_NONE`. -/
def macroOf (id : Nat) : Option Macro :=
  if id = 0 then none
  else if id ≤ plainMacros.length then plainMacros[id - 1]?
  else
    let ofs := id - 1 - plainMacros.length
    [MacroTime.plain, .recvd, .stamp, .current][ofs / timeMacros.length]?.bind fun of =>
      timeMacros[ofs % timeMacros.length]?.map (.time of)

/-! ## Names -/

def bytes (name : String) : List UInt8 := name.toUTF8.toList

def slLevels : List (String × Nat) :=
  [("emerg", 0), ("panic", 0), ("alert", 1), ("crit", 2), ("err", 3), ("error", 3), ("warning", 4),
    ("warn", 4), ("notice", 5), ("info", 6), ("debug", 7)]

def slFacilities : List (String × Nat) :=
  [("kern", 0), ("user", 1), ("mail", 2), ("daemon", 3), ("auth", 4), ("syslog", 5), ("lpr", 6), ("news", 7),
    ("uucp", 8), ("cron", 9), ("authpriv", 10), ("megasafe", 10), ("ftp", 11), ("ntp", 12), ("security", 13),
    ("console", 14), ("solaris-cron", 15), ("local0", 16), ("local1", 17), ("local2", 18), ("local3", 19),
    ("local4", 20), ("local5", 21), ("local6", 22), ("local7", 23)]

def syslogNameLookupNameByValue (value : Nat) (names : List (String × Nat)) : Option (List UInt8) :=
  (names.find? (·.2 = value)).map (bytes ·.1)

def monthNames : List String :=
  ["January", "February", "March", "April", "May", "June", "July", "August", "September", "October", "November",
    "December"]

def weekdayNamesAbbrev : List String := ["Sun", "Mon", "Tue", "Wed", "Thu", "Fri", "Sat"]

def weekdayNames : List String :=
  ["Sunday", "Monday", "Tuesday", "Wednesday", "Thursday", "Friday", "Saturday"]

def nameAt (names : List String) (i : Int) : List UInt8 := bytes (names.getD i.toNat "")

/-! ## Expansion -/

section

variable (opts : MacroOptions) (msg : MacroMessage)

/-- `(msg->pri & LOG_FACMASK) >> 3`. -/
def MacroMessage.facility : Nat := msg.pri / 8 % 128

/-- `msg->pri & LOG_PRIMASK`. -/
def MacroMessage.level : Nat := msg.pri % 8

/-- The host behind the last `@` that `memchr` comes to, up to the first slash. -/
def chainedHost (host : List UInt8) : List UInt8 :=
  (if 64 ∈ host then (host.dropWhile (· ≠ 64)).tail else host).takeWhile (· ≠ 47)

def logMsgPrintTags : List (List UInt8) → List UInt8 :=
  List.foldl (fun result name => (if result.length > 0 then result ++ [44] else result) ++ name) []

/-- `M_MSGHDR`. -/
def expandMsghdr (escape : Bool) : List UInt8 :=
  if msg.hasLegacyMsghdr then resultAppend escape (msg.getValue .legacyMsghdr)
  else
    let program := resultAppend escape (msg.getValue .program)
    let pid := msg.getValue .pid
    if program = [] then []
    else program ++ (if pid.length > 0 then [91] ++ resultAppend escape pid ++ [93] else []) ++ [58, 32]

def MacroTime.stampOf : MacroTime → LogStamp
  | plain | stamp => msg.stamp
  | recvd => msg.recvd
  | current => ⟨opts.now.tvSec, opts.now.tvUsec, -1⟩

def zoneOfs (stamp : LogStamp) : Int :=
  let ofs := match opts.timeZoneOffset with
    | some timeZoneOffset => timeZoneOffset stamp.tvSec
    | none => stamp.zoneOffset
  if ofs = -1 then stamp.zoneOffset else ofs

/-- The macros about a time. -/
def expandTime (stamp : LogStamp) : TimeMacro → List UInt8
  | .weekDayAbbrev => nameAt weekdayNamesAbbrev tm.wday
  | .weekDayName => nameAt weekdayNames tm.wday
  | .weekDay => formatUint32Padded 0 0 (tm.wday + 1)
  | .week => formatUint32Padded 2 48 ((tm.yday - (tm.wday - 1 + 7).tmod 7 + 7).tdiv 7)
  | .year => formatUint32Padded 4 48 (tm.year + 1900)
  | .yearDay => formatUint32Padded 3 48 (tm.yday + 1)
  | .month => formatUint32Padded 2 48 (tm.mon + 1)
  | .monthWeek => formatUint32Padded 0 0
      (tm.mday.tdiv 7 + if tm.wday > 0 ∧ tm.mday.tmod 7 ≥ tm.wday then 1 else 0)
  | .monthAbbrev => monthNamesAbbrev.getD tm.mon.toNat []
  | .monthName => nameAt monthNames tm.mon
  | .day => formatUint32Padded 2 48 tm.mday
  | .hour => formatUint32Padded 2 48 tm.hour
  | .hour12 =>
    let tmpHour := if tm.hour < 12 then tm.hour else tm.hour - 12
    formatUint32Padded 2 48 (if tmpHour = 0 then 12 else tmpHour)
  | .min => formatUint32Padded 2 48 tm.min
  | .sec => formatUint32Padded 2 48 tm.sec
  | .msec => formatUint32Padded 3 48 (stamp.tvUsec / 1000 : Nat)
  | .usec => formatUint32Padded 6 48 stamp.tvUsec
  | .ampm => if tm.hour < 12 then bytes "AM" else bytes "PM"
  | .date => (logStampAppendFormat stamp .bsd ofs opts.fracDigits opts.caches).1
  | .stamp => (logStampAppendFormat stamp opts.tsFormat ofs opts.fracDigits opts.caches).1
  | .isodate => (logStampAppendFormat stamp .iso ofs opts.fracDigits opts.caches).1
  | .fulldate => (logStampAppendFormat stamp .full ofs opts.fracDigits opts.caches).1
  | .unixtime => (logStampAppendFormat stamp .unix ofs opts.fracDigits opts.caches).1
  | .tz | .tzoffset => formatZone ofs
where
  ofs : Int := zoneOfs opts stamp
  tm : StructTm := opts.gmtime (stamp.tvSec + zoneOfs opts stamp)
  /-- `format_zone_info`, with a buffer of 64 bytes. -/
  formatZone (gmtoff : Int) : List UInt8 :=
    ((if gmtoff < 0 then 45 else 43) :: (padTwo (gmtoff.natAbs / 3600) ++
      58 :: padTwo (gmtoff.natAbs % 3600 / 60))).take 63
  padTwo (n : Nat) : List UInt8 := List.replicate (2 - (decimal n).length) 48 ++ decimal n

/-- `log_macro_expand`: what is appended. -/
def logMacroExpand (escape : Bool) : Macro → List UInt8
  | .facility => (syslogNameLookupNameByValue msg.facility slFacilities).getD (formatPadded 0 0 16 msg.facility)
  | .facilityNum => formatPadded 0 0 10 msg.facility
  | .level => (syslogNameLookupNameByValue msg.level slLevels).getD (formatPadded 0 0 10 msg.level)
  | .levelNum => formatPadded 0 0 10 msg.level
  | .tag => formatPadded 2 48 16 msg.pri
  | .tags => logMsgPrintTags msg.tags
  | .bsdtag => formatPadded 0 0 10 msg.level ++ [UInt8.ofNat (msg.facility + 65)]
  | .pri => formatPadded 0 0 10 msg.pri
  | .host => resultAppend escape
      (if msg.chainedHostname then chainedHost (msg.getValue .host) else msg.getValue .host)
  | .sdata => resultAppend escape (logMsgAppendFormatSdata msg.toLogMessage opts.seqNum)
  | .msghdr => expandMsghdr msg escape
  | .message =>
    (if opts.old then expandMsghdr msg escape else []) ++ resultAppend escape (msg.getValue .message)
  | .sourceIp => resultAppend escape (msg.saddr.getD (bytes "127.0.0.1"))
  | .seqnum => if opts.seqNum ≠ 0 then formatPadded 0 0 10 opts.seqNum else []
  | .contextId => resultAppend escape (opts.contextId.getD [])
  | .loghost => resultAppend escape opts.localHostname
  | .sysuptime => decimal (opts.sysUptime % 2 ^ 64)
  | .time of macro_ => expandTime opts (of.stampOf opts msg) macro_

end

end SyslogNg.Template
