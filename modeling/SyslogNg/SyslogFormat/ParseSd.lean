import SyslogNg.SyslogFormat.Parse

/-!
# Structured data

`log_msg_parse_sd` of `modules/syslogformat/syslog-format.c`, and `log_msg_append_format_sdata` of
`lib/logmsg.c`. The parser joins the id of an element and the name of a parameter with a dot, in a
buffer of 66 bytes; the formatter takes them apart at the last dot.
-/

namespace SyslogNg.SyslogFormat

/-- The characters of an id or of the name of a parameter. -/
def isSdNameChar (b : UInt8) : Bool := isAscii b && b != 61 && b != 32 && b != 93 && b != 34

/-- The loop that reads an id or the name of a parameter, with the room that is left in its buffer. -/
def sdNameLoop (stop : UInt8 → Bool) : (room : Nat) → List UInt8 → Int → Res (List UInt8 × Cursor)
  | _, [], left => if left = 0 then .ok ([], ⟨[], left⟩) else .outside
  | room, b :: src, left =>
    if left = 0 ∨ stop b = true then .ok ([], ⟨b :: src, left⟩)
    else if room = 0 ∨ isSdNameChar b = false then .failed
    else do
      let r ← sdNameLoop stop (room - 1) src (left - 1)
      return (b :: r.1, r.2)

/-- A byte is only stored if there is room for it. -/
def storeByte (max : Nat) (value : List UInt8) (b : UInt8) : List UInt8 :=
  if value.length < max then value ++ [b] else value

/-- The loop that reads the value of a parameter. -/
def sdValueLoop (max : Nat) : (quote : Bool) → (value : List UInt8) → List UInt8 → Int →
    Res (List UInt8 × Cursor)
  | _, value, [], left => if left = 0 then .ok (value, ⟨[], left⟩) else .outside
  | quote, value, b :: src, left =>
    if left = 0 ∨ (b = 34 ∧ quote = false) then .ok (value, ⟨b :: src, left⟩)
    else if quote = false ∧ b = 92 then sdValueLoop max true value src (left - 1)
    else if quote = false ∧ b = 93 then .failed
    else
      -- a backslash that escapes nothing stays
      let value :=
        if quote = true ∧ b ≠ 34 ∧ b ≠ 93 ∧ b ≠ 92 then storeByte max value 92 else value
      sdValueLoop max false (storeByte max value b) src (left - 1)

/-- `if (left && *src == b) sd_step_and_store(…); else goto error;`. -/
def sdExpect (b : UInt8) (c : Cursor) : Res Cursor :=
  if c.left = 0 then .failed
  else do
    let d ← peek c.src
    if d = b then .ok (c.advance 1) else .failed

/-- The first byte of a name, which is read without a look at the bytes that are left. -/
def sdCheckName (c : Cursor) : Res Unit := do
  let b ← peek c.src
  if isSdNameChar b then return () else .failed

/-- The name in `sd_value_name`: without its NUL byte the buffer is read to its end and on. -/
def sdValueName (id param : List UInt8) : Res (List UInt8) :=
  if param.length < 66 - logmsgSdPrefix.length - 1 - id.length then
    .ok (logmsgSdPrefix ++ id ++ 46 :: param)
  else .outside

/-- A parameter, from the space before it. -/
def sdParam (options : MsgFormatOptions) (id : List UInt8) (msg : LogMessage) (c : Cursor) :
    Res (LogMessage × Cursor) := do
  let c ← sdExpect 32 c
  sdCheckName c
  let (param, c) ← sdNameLoop (· == 61) 32 c.src c.left
  let c ← sdExpect 61 c
  let c ← sdExpect 34 c
  let (value, c) ← sdValueLoop options.sdataParamValueMax false [] c.src c.left
  let c ← sdExpect 34 c
  let name ← sdValueName id param
  return (msg.setValue (.sdata name) value, c)

/-- The parameters of an element, up to its bracket. -/
def sdParams (options : MsgFormatOptions) (id : List UInt8) : Nat → LogMessage → Cursor →
    Res (LogMessage × Cursor)
  | 0, _, _ => .failed
  | n + 1, msg, c => do
    if ← leftAnd (· != 93) c then
      let (msg, c) ← sdParam options id msg c
      sdParams options id n msg c
    else return (msg, c)

/-- An element, behind its opening bracket. -/
def sdElement (options : MsgFormatOptions) (msg : LogMessage) (c : Cursor) :
    Res (LogMessage × Cursor) := do
  sdCheckName c
  let (id, c) ← sdNameLoop (fun b => b == 32 || b == 93) 32 c.src c.left
  if id = [] then .failed
  else
    let b ← peek c.src
    let msg := if b = 93 then msg.setValue (.sdata (logmsgSdPrefix ++ id)) [] else msg
    let (msg, c) ← sdParams options id (c.src.length + 1) msg c
    let c ← sdExpect 93 c
    return (msg, c)

/-- The elements, behind the opening bracket of the first one. -/
def sdElements (options : MsgFormatOptions) : Nat → LogMessage → Cursor → Res (LogMessage × Cursor)
  | 0, _, _ => .failed
  | n + 1, msg, c => do
    let (msg, c) ← sdElement options msg c
    let more ← leftAnd (· == 91) c
    -- an opening bracket at the end of the block ends the loop
    if more && c.left != 1 then sdElements options n msg (c.advance 1)
    else if more then return (msg, c.advance 1)
    else return (msg, c)

def logMsgParseSd (options : MsgFormatOptions) (msg : LogMessage) (c : Cursor) :
    Res (LogMessage × Cursor) := do
  if ← leftAnd (· == 45) c then return (msg, c.advance 1)
  else if ← leftAnd (· == 91) c then sdElements options (c.src.length + 1) msg (c.advance 1)
  else return (msg, c)

/-! ## Formatting -/

def sdataAppendEscaped (value : List UInt8) : List UInt8 :=
  value.flatMap fun b => if b = 34 ∨ b = 92 ∨ b = 93 then [92, b] else [b]

/-- The id and the name of the parameter, which are joined by the last dot. -/
def splitName (name : List UInt8) : List UInt8 × List UInt8 :=
  let elem := name.drop 7
  match (elem.reverse.dropWhile (· ≠ 46)).reverse with
  | [] => (if elem = [] then "none".toUTF8.toList else elem, [])
  | block => (block.dropLast, elem.drop block.length)

/-- `sequenceId="n"`: the number is written with `%d`. -/
def sequenceId (seqNum : Nat) : List UInt8 :=
  "sequenceId=\"".toUTF8.toList ++
    (if seqNum < 2 ^ 31 then Lib.decimal seqNum else 45 :: Lib.decimal (2 ^ 32 - seqNum)) ++ [34]

/-- What the loop of `log_msg_append_format_sdata` keeps. -/
structure SdataState where
  result : List UInt8
  curElem : Option (List UInt8)
  hasSeqNum : Bool
  deriving DecidableEq

/-- One round of the loop of `log_msg_append_format_sdata`. -/
def formatSdataStep (msg : LogMessage) (seqNum : Nat) (st : SdataState) (name : List UInt8) :
    SdataState :=
  let (elem, param) := splitName name
  let opened :=
    if st.curElem = some elem then st.result
    else st.result ++ (if st.curElem.isSome then [93] else []) ++ 91 :: elem
  -- `sdata_elem` points into the name, and goes on behind the element
  let addSeqNum := !st.hasSeqNum && seqNum != 0 && (name.drop 7).take 5 == "meta.".toUTF8.toList
  let opened := if addSeqNum then opened ++ 32 :: sequenceId seqNum else opened
  let written :=
    if param = [] then opened
    else opened ++ 32 :: param ++ [61, 34] ++ sdataAppendEscaped (msg.getValue (.sdata name)) ++ [34]
  ⟨written, some elem, st.hasSeqNum || addSeqNum⟩

/-- `log_msg_append_format_sdata`: what is appended. -/
def logMsgAppendFormatSdata (msg : LogMessage) (seqNum : Nat) : List UInt8 :=
  let seqid := msg.getValue metaSeqid
  let hasSeqNum := decide (seqid.headD 0 ≠ 0)
  let st := msg.sdata.foldl (formatSdataStep msg seqNum) ⟨[], none, hasSeqNum⟩
  let result := if st.curElem.isSome then st.result ++ [93] else st.result
  if !st.hasSeqNum && seqNum != 0 then
    result ++ "[meta ".toUTF8.toList ++ sequenceId seqNum ++ [93]
  else result

end SyslogNg.SyslogFormat
