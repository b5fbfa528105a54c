import SyslogNg.SyslogFormat.Handler
import SyslogNg.SyslogFormat.SdWrite

/-!
# Writing a message of the syslog protocol (`lib/logwriter.c`)

`log_writer_format_log` for a writer of the syslog protocol that has no template. The values it writes
are not indirect ones (`log_msg_set_value_indirect` does not take the built-in names), so that a value
ends with a NUL byte.
-/

namespace SyslogNg.LogWriter

open Lib Time SyslogFormat

/-- The options and the state of a writer that are used here. -/
structure FormatOptions where
  seqNum : Nat
  sendZoneOffset : Int → Int
  fracDigits : Nat
  padding : Nat
  noMultiLine : Bool

/-- The value up to the space that `strchr` finds. -/
def upToSpace (value : List UInt8) : List UInt8 :=
  if 32 ∈ value.takeWhile (· ≠ 0) then value.takeWhile (· ≠ 32) else value

def logWriterAppendValue (msg : LogMessage) (handle : NVHandle) (useNil appendSpace : Bool) :
    List UInt8 :=
  let value := msg.getValue handle
  (if useNil = true ∧ value = [] then [45] else upToSpace value) ++ if appendSpace then [32] else []

/-- `strtol` with base 10, where a `long` has 64 bits. -/
def strtol (text : List UInt8) : Int :=
  let text := text.dropWhile isSpace
  let value := fun digits : List UInt8 => (readDecimal 0 (digits.takeWhile isDigit) : Int)
  match text with
  | 45 :: digits => max (-value digits) (-2 ^ 63)
  | 43 :: digits => min (value digits) (2 ^ 63 - 1)
  | digits => min (value digits) (2 ^ 63 - 1)

/-- The sequence number that is written with a message. -/
def seqNumOf (options : FormatOptions) (msg : LogMessage) : Nat :=
  let seqid := msg.getValue metaSeqid
  if msg.isLocal then options.seqNum
  else if seqid.headD 0 ≠ 0 then (strtol (seqid.takeWhile (· ≠ 0)) % 2 ^ 32).toNat
  else 0

/-- `log_writer_do_padding`: as many bytes as are added are cleared from the last byte of the message
on. The last one of the bytes that are added is not written; it is taken for 0. -/
def logWriterDoPadding (padding : Nat) (result : List UInt8) : List UInt8 :=
  if padding = 0 then result
  else if padding < result.length then result.take padding
  else
    result.take (result.length - 1) ++ List.replicate (padding - result.length) 0 ++
      (result ++ List.replicate (padding - result.length) 0).drop (padding - 1)

/-- The structured data, or `-` if there is none. -/
def sdataOrNil (msg : LogMessage) (seqNum : Nat) : List UInt8 :=
  if logMsgAppendFormatSdata msg seqNum = [] then [45] else logMsgAppendFormatSdata msg seqNum

/-- The text of a message, with a byte order mark if it is known to be UTF-8. -/
def messageText (msg : LogMessage) : List UInt8 :=
  let text := msg.getValue .message
  if text = [] then [] else (if msg.utf8 then [0xEF, 0xBB, 0xBF] else []) ++ text

def replaceInnerLineEnds (result : List UInt8) : List UInt8 :=
  replaceLineEnds result.dropLast ++ result.getLast?.toList

def logWriterFormatLog (options : FormatOptions) (msg : LogMessage) (caches : TimeCaches) :
    List UInt8 × TimeCaches :=
  let seqNum := seqNumOf options msg
  let r := logStampAppendFormat msg.stamp .iso (options.sendZoneOffset msg.stamp.tvSec)
    options.fracDigits caches
  let result :=
    60 :: (formatUint32Padded 0 0 msg.pri ++ 62 :: 49 :: 32 :: (r.1 ++ 32 ::
      (logWriterAppendValue msg .host true true ++ (logWriterAppendValue msg .program true true ++
        (logWriterAppendValue msg .pid true true ++ (logWriterAppendValue msg .msgid true true ++
          (sdataOrNil msg seqNum ++ 32 :: (messageText msg ++ [10]))))))))
  let result := logWriterDoPadding options.padding result
  (if options.noMultiLine then replaceInnerLineEnds result else result, r.2)

end SyslogNg.LogWriter
