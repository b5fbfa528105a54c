import SyslogNg.SyslogFormat.ParseDate
import SyslogNg.SyslogFormat.ParseSd

/-!
# Parsing a message

`log_msg_parse_legacy`, `log_msg_parse_syslog_proto` and `syslog_format_handler` of
`modules/syslogformat/syslog-format.c`.
-/

namespace SyslogNg.SyslogFormat

open Lib Time

def aixFwdString : List UInt8 := "Message forwarded from ".toUTF8.toList

def repeatMsgString : List UInt8 := "last message repeated".toUTF8.toList

/-- `left >= n` where `n` is a `size_t`: a negative `left` is a large one. -/
def leftAtLeast (left : Int) (n : Nat) : Prop := left < 0 ∨ n ≤ left

instance (left : Int) (n : Nat) : Decidable (leftAtLeast left n) :=
  inferInstanceAs (Decidable (_ ∨ _))

/-- The bytes of a value that is given by a pointer and a length; a negative length stands for
`strlen`. -/
def valueBytes (c : Cursor) : Res (List UInt8) :=
  if c.left < 0 then
    if c.src.all (· ≠ 0) then .outside else .ok (c.src.takeWhile (· ≠ 0))
  else if c.left ≤ c.src.length then .ok (c.src.take c.left.toNat)
  else .outside

/-- The text behind the header of a message. -/
def storeMessage (env : ParseEnv) (options : MsgFormatOptions) (msg : LogMessage) (c : Cursor) :
    Res LogMessage := do
  let text ← valueBytes c
  let msg := msg.setValue .message text
  return { msg with utf8 := msg.utf8 || (options.validateUtf8 && env.utf8Validate text) }

/-- `left >= n && memcmp(src, str, …) == 0`. -/
def startsWith (n : Nat) (str : List UInt8) (c : Cursor) : Res Bool :=
  if leftAtLeast c.left n then memEq str c.src else .ok false

/-- The host name that the AIX syslogd puts into a message that it forwards. -/
def aixHostname (c : Cursor) : Res (Option (List UInt8) × Cursor) := do
  if ← startsWith aixFwdString.length aixFwdString c then
    let (hostname, c) ← logMsgParseSkipCharsUntil [58] (c.advance aixFwdString.length)
    let c ← logMsgParseSkipChars [32, 58] c
    return (some hostname, c)
  else return (none, c)

/-- The host name of a message that was not forwarded, if there is to be one. -/
def legacyHostname (options : MsgFormatOptions) (forwarded : Option (List UInt8)) (c : Cursor) :
    Res (Option (List UInt8) × Cursor) :=
  if forwarded = none ∧ options.expectHostname = true then do
    let (hostname, c) ← logMsgParseHostname options options.badHostname c
    let c ← logMsgParseSkipChars [32] c
    return (hostname, c)
  else .ok (forwarded, c)

def storeHost (msg : LogMessage) : Option (List UInt8) → LogMessage
  | some hostname => msg.setValue .host hostname
  | none => msg

/-- What is behind the time stamp of a legacy message: the host and the program. -/
def legacyHeader (options : MsgFormatOptions) (msg : LogMessage) (c : Cursor) :
    Res (LogMessage × Cursor) := do
  let c ← logMsgParseSkipChars [32] c
  let (forwarded, c) ← aixHostname c
  if ← startsWith (repeatMsgString.length + 1) repeatMsgString c then
    return (storeHost msg forwarded, c)
  else
    let (hostname, c) ← legacyHostname options forwarded c
    let (msg, c) ← logMsgParseLegacyProgramName options msg c
    return (storeHost msg hostname, c)

/-- The program of a legacy message without a time stamp: the facility of the kernel is 0. -/
def legacyProgram (options : MsgFormatOptions) (msg : LogMessage) (c : Cursor) :
    Res (LogMessage × Cursor) :=
  if msg.internal = false ∧ msg.pri &&& 0x03f8 = 0 then
    .ok (msg.setValue .program "kernel".toUTF8.toList, c)
  else logMsgParseLegacyProgramName options msg c

/-- What is behind the place of the time stamp. -/
def legacyRest (found : Bool) (options : MsgFormatOptions) (msg : LogMessage) (c : Cursor) :
    Res (LogMessage × Cursor) :=
  if found then legacyHeader options msg c
  else do
    let (msg, c) ← legacyProgram options msg c
    return ({ msg with stamp := msg.recvd }, c)

/-- What a parser leaves: the message, or `none` if it was refused, and the caches. -/
abbrev Parsed := Option LogMessage × TimeCaches

/-- A parser that was refused does not lose the caches. -/
def withCaches (caches : TimeCaches) : Res LogMessage → Res Parsed
  | .outside => .outside
  | .failed => .ok (none, caches)
  | .ok msg => .ok (some msg, caches)

/-- What is behind the priority of a legacy message. -/
def legacyBody (env : ParseEnv) (options : MsgFormatOptions) (st : DateState) (c : Cursor) :
    Res Parsed := do
  let (msg, c) ← (logMsgParseSeq st.msg c).orElse (st.msg, c)
  let c ← logMsgParseSkipChars [32] c
  let (found, st, c) ← logMsgParseDate env false (options.recvTimeZoneOffset env.now)
    ⟨msg, st.caches⟩ c
  withCaches st.caches do
    let (msg, c) ← legacyRest found options st.msg c
    storeMessage env options msg c

def logMsgParseLegacy (env : ParseEnv) (options : MsgFormatOptions) (st : DateState) (c : Cursor) :
    Res Parsed :=
  match logMsgParsePri options st.msg c with
  | .outside => .outside
  | .failed => .ok (none, st.caches)
  | .ok (msg, c) => legacyBody env options { st with msg } c

/-- A byte order mark. -/
def hasBom (c : Cursor) : Res Bool :=
  if c.left ≥ 3 then memEq [0xEF, 0xBB, 0xBF] c.src else .ok false

/-- The text of a message of the syslog protocol, behind the structured data. -/
def protoMessage (env : ParseEnv) (options : MsgFormatOptions) (msg : LogMessage) (c : Cursor) :
    Res LogMessage := do
  if c.left = 0 then return msg
  else
    let c ← logMsgParseSkipSpace c
    if ← hasBom c then
      let text ← valueBytes (c.advance 3)
      return { msg.setValue .message text with utf8 := true }
    else storeMessage env options msg c

/-- What is behind the time stamp of a message of the syslog protocol. -/
def protoFields (env : ParseEnv) (options : MsgFormatOptions) (msg : LogMessage) (c : Cursor) :
    Res LogMessage := do
  let c ← logMsgParseSkipSpace c
  let (hostname, c) ← logMsgParseHostname options none c
  let c ← logMsgParseSkipSpace c
  let msg := if hostname = some [45] then msg else storeHost msg hostname
  let (msg, c) ← logMsgParseColumn .program 48 msg c
  let c ← logMsgParseSkipSpace c
  let (msg, c) ← logMsgParseColumn .pid 128 msg c
  let c ← logMsgParseSkipSpace c
  let (msg, c) ← logMsgParseColumn .msgid 32 msg c
  let c ← logMsgParseSkipSpace c
  let (msg, c) ← logMsgParseSd options msg c
  protoMessage env options msg c

/-- What is behind the version of a message of the syslog protocol. -/
def protoBody (env : ParseEnv) (options : MsgFormatOptions) (st : DateState) (c : Cursor) :
    Res Parsed :=
  match logMsgParseSkipSpace c with
  | .outside => .outside
  | .failed => .ok (none, st.caches)
  | .ok c => do
    let (found, st, c) ← logMsgParseDate env options.syslogProtocol
      (options.recvTimeZoneOffset env.now) st c
    if found then withCaches st.caches (protoFields env options st.msg c)
    else return (none, st.caches)

/-- `log_msg_parse_syslog_proto`: a message without a version is parsed as a legacy one. -/
def logMsgParseSyslogProto (env : ParseEnv) (options : MsgFormatOptions) (st : DateState)
    (c : Cursor) : Res Parsed :=
  match logMsgParsePri options st.msg c with
  | .outside => .outside
  | .failed => logMsgParseLegacy env options st c
  | .ok (msg, d) =>
    match logMsgParseVersion d with
    | .outside => .outside
    | .failed => logMsgParseLegacy env options { st with msg } c
    | .ok d => protoBody env options { st with msg } d

/-- The number of bytes that `syslog_format_handler` parses. -/
def trimmedLength (data : List UInt8) : Nat :=
  (data.reverse.dropWhile fun b => b = 10 ∨ b = 0).length

/-- Line ends become spaces, up to the first NUL byte. -/
def replaceLineEnds : List UInt8 → List UInt8
  | [] => []
  | b :: text =>
    if b = 0 then b :: text
    else (if b = 13 ∨ b = 10 then 32 else b) :: replaceLineEnds text

end SyslogNg.SyslogFormat
