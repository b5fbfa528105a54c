import SyslogNg.SyslogFormat.Cursor
import SyslogNg.Time.LogStamp

/-!
# The fields of a message (`modules/syslogformat/syslog-format.c`)

What the parser needs of a `LogMessage` (`lib/logmsg.c`) is here too: the values by their names, and
the names of the structured data in the order of `self->sdata`. The registry that gives names their
handles is left out, and so are the limits of a payload.
-/

namespace SyslogNg.SyslogFormat

open Lib Time

/-- The names the parser knows, and the names of structured data, which start with `.SDATA.`. -/
inductive NVHandle where
  | host
  | program
  | pid
  | msgid
  | message
  | legacyMsghdr
  | sdata (name : List UInt8)
  deriving DecidableEq

/-- `logmsg_sd_prefix`, `.SDATA.`. -/
def logmsgSdPrefix : List UInt8 := [46, 83, 68, 65, 84, 65, 46]

/-- `is_synced`, `.SDATA.timeQuality.isSynced`. -/
def isSynced : NVHandle := .sdata (".SDATA.timeQuality.isSynced".toUTF8.toList)

/-- `cisco_seqid` and `meta_seqid`, `.SDATA.meta.sequenceId`. -/
def metaSeqid : NVHandle := .sdata (".SDATA.meta.sequenceId".toUTF8.toList)

structure LogMessage where
  pri : Nat
  utf8 : Bool
  isLocal : Bool
  internal : Bool
  hasLegacyMsghdr : Bool
  initialParse : Bool
  stamp : LogStamp
  recvd : LogStamp
  values : NVHandle → Option (List UInt8)
  sdata : List (List UInt8)

namespace LogMessage

def sameBlock (sdataName name : List UInt8) : Bool :=
  let block := (name.reverse.dropWhile (· ≠ 46)).tail.reverse
  decide (block.length < sdataName.length) && sdataName.take block.length == block

def lastOfBlock (name : List UInt8) : List (List UInt8) → Option Nat
  | [] => none
  | sdataName :: sdata =>
    match lastOfBlock name sdata with
    | some i => some (i + 1)
    | none => if sameBlock sdataName name then some 0 else none

/-- `log_msg_update_sdata_slow`. -/
def updateSdataSlow (msg : LogMessage) (name : List UInt8) : LogMessage :=
  if msg.sdata.length = 255 then msg
  else
    match if msg.initialParse then none else lastOfBlock name msg.sdata with
    | some i => { msg with sdata := msg.sdata.take i ++ name :: msg.sdata.drop i }
    | none => { msg with sdata := msg.sdata ++ [name] }

/-- `log_msg_update_sdata`: only the names of structured data have the flag. -/
def updateSdata (msg : LogMessage) : NVHandle → LogMessage
  | .sdata name => msg.updateSdataSlow name
  | _ => msg

def setValue (msg : LogMessage) (handle : NVHandle) (value : List UInt8) : LogMessage :=
  let newEntry := (msg.values handle).isNone
  let msg := { msg with values := Function.update msg.values handle (some value) }
  let msg := if newEntry then msg.updateSdata handle else msg
  if handle = .program then { msg with hasLegacyMsghdr := false } else msg

/-- `log_msg_get_value`: a name without a value has the empty one. -/
def getValue (msg : LogMessage) (handle : NVHandle) : List UInt8 := (msg.values handle).getD []

end LogMessage

/-- `MsgFormatOptions`: the flags, and what the parser uses of the rest. `badHostname` tells if a host
name matches the expression. -/
structure MsgFormatOptions where
  noparse : Bool
  checkHostname : Bool
  syslogProtocol : Bool
  assumeUtf8 : Bool
  validateUtf8 : Bool
  noMultiLine : Bool
  storeLegacyMsghdr : Bool
  expectHostname : Bool
  isLocal : Bool
  defaultPri : Nat
  recvTimeZoneOffset : Int → Int
  badHostname : Option (List UInt8 → Bool)
  sdataParamValueMax : Nat

/-- What the parser asks the system for: the time zone, the current time, `g_utf8_validate` and
`getpid`. -/
structure ParseEnv where
  zone : TimeZone
  now : Int
  utf8Validate : List UInt8 → Bool
  getpid : Nat

/-! ## Priority, sequence number and version -/

def logMsgParsePri (options : MsgFormatOptions) (msg : LogMessage) (c : Cursor) :
    Res (LogMessage × Cursor) := do
  if ← leftAnd (· == 60) c then
    let (digits, c) ← scanUntil (· == 62) isDigit (c.src.drop 1) (c.left - 1)
    let msg := { msg with pri := readDecimal 0 digits % 2 ^ 16 }
    return (msg, if c.left = 0 then c else c.advance 1)
  else
    let pri := if options.defaultPri ≠ 0xFFFF then options.defaultPri else 13
    return ({ msg with pri }, c)

def logMsgParseSeq (msg : LogMessage) (c : Cursor) : Res (LogMessage × Cursor) := do
  let (digits, d) ← scanUntil (· == 58) isDigit c.src c.left
  let d := d.advance 1
  let b ← peek d.src
  if b ≠ 32 then .failed
  else return (msg.setValue metaSeqid digits, d)

def logMsgParseVersion (c : Cursor) : Res Cursor := do
  let (digits, c) ← scanUntil (· == 32) isDigit c.src c.left
  if wrap32 (readDecimal 0 digits) ≠ 1 then .failed else return c

/-! ## Skipping -/

/-- `log_msg_parse_skip_chars` without a limit: `strchr` finds the NUL byte too. -/
def logMsgParseSkipChars (chars : List UInt8) (c : Cursor) : Res Cursor := do
  let (_, c) ← skipUntil (fun b => !(b ∈ chars || b == 0)) c
  return c

def logMsgParseSkipSpace (c : Cursor) : Res Cursor :=
  if c.left > 0 then do
    let b ← peek c.src
    if b = 32 then .ok (c.advance 1) else .failed
  else .failed

/-- `log_msg_parse_skip_chars_until`: the bytes that were skipped. -/
def logMsgParseSkipCharsUntil (delims : List UInt8) (c : Cursor) : Res (List UInt8 × Cursor) :=
  skipUntil (fun b => b ∈ delims || b == 0) c

/-! ## Columns -/

def logMsgParseColumn (handle : NVHandle) (maxLength : Nat) (msg : LogMessage) (c : Cursor) :
    Res (LogMessage × Cursor) := do
  let (column, c) ← skipUntil (· == 32) c
  if c.left = 0 ∨ column = [45] then return (msg, c)
  else return (msg.setValue handle (column.take maxLength), c)

/-- `*src == b`, if there is a byte left. -/
def nextIs (b : UInt8) (c : Cursor) : Res Bool :=
  if c.left > 0 then testAt c.src [(0, (· == b))] else .ok false

/-- `if (left > 0 && *src == b) { src++; left--; }`. -/
def skipByte (b : UInt8) (c : Cursor) : Res Cursor := do
  if ← nextIs b c then return c.advance 1 else return c

/-- The process id behind a program name, from the bracket on. -/
def logMsgParseLegacyPid (msg : LogMessage) (c : Cursor) : Res (LogMessage × Cursor) := do
  let (pid, c) ← skipUntil (fun b => b == 32 || b == 93 || b == 58) c
  let msg := if c.left = 0 then msg else msg.setValue .pid (pid.drop 1)
  return (msg, ← skipByte 93 c)

/-- The process id, if there is one. -/
def logMsgParsePidIf (hasPid : Bool) (msg : LogMessage) (c : Cursor) : Res (LogMessage × Cursor) :=
  if hasPid then logMsgParseLegacyPid msg c else .ok (msg, c)

def logMsgParseLegacyProgramName (options : MsgFormatOptions) (msg : LogMessage) (c : Cursor) :
    Res (LogMessage × Cursor) := do
  let (program, d) ← skipUntil (fun b => b == 32 || b == 91 || b == 58) c
  let msg := msg.setValue .program program
  let (msg, d) ← logMsgParsePidIf (← nextIs 91 d) msg d
  let d ← skipByte 58 d
  let d ← skipByte 32 d
  if options.storeLegacyMsghdr then
    let msg := msg.setValue .legacyMsghdr (c.src.take (c.left - d.left).toNat)
    return ({ msg with hasLegacyMsghdr := true }, d)
  else return (msg, d)

/-! ## Host names -/

def isHostChar (i : Nat) : Bool :=
  (65 ≤ i && i ≤ 90) || (97 ≤ i && i ≤ 122) || (48 ≤ i && i ≤ 57) ||
    i == 45 || i == 95 || i == 46 || i == 58 || i == 64 || i == 47

/-- The first byte of `invalid_chars`: `i >> 8` is 0 for every character. -/
def invalidChars : UInt8 :=
  (List.range 256).foldl
    (fun bits i => if isHostChar i then bits else bits ||| (1 <<< UInt8.ofNat (i % 8))) 0 ||| 1

/-- The test of a character against `invalid_chars`. -/
def isInvalidChar (b : UInt8) : Bool := invalidChars &&& (1 <<< (b % 8)) ≠ 0

/-- The loop of `log_msg_parse_hostname`, with the room that is left in `hostname_buf`. -/
def hostnameLoop (check : Bool) : (room : Nat) → List UInt8 → Int → Res (List UInt8 × Cursor)
  | _, [], left => if left = 0 then .ok ([], ⟨[], left⟩) else .outside
  | 0, b :: src, left => .ok ([], ⟨b :: src, left⟩)
  | room + 1, b :: src, left =>
    if left = 0 ∨ b = 32 ∨ b = 58 ∨ b = 91 ∨ (check = true ∧ isInvalidChar b = true) then
      .ok ([], ⟨b :: src, left⟩)
    else do
      let r ← hostnameLoop check room src (left - 1)
      return (b :: r.1, r.2)

/-- `log_msg_parse_hostname`: the host name, if there is one. -/
def logMsgParseHostname (options : MsgFormatOptions) (badHostname : Option (List UInt8 → Bool))
    (c : Cursor) : Res (Option (List UInt8) × Cursor) := do
  let (hostname, d) ← hostnameLoop options.checkHostname 255 c.src c.left
  let bad := badHostname.any fun bad => bad (hostname.takeWhile (· ≠ 0))
  if (← leftAnd (· == 32) d) && !bad then return (some hostname, d) else return (none, c)

end SyslogNg.SyslogFormat
