import SyslogNg.LogWriter.RelayFields
import SyslogNg.SyslogFormat.SdRoundTrip

/-!
# A message that is relayed

`message_relayed`: what `log_writer_format_log` writes for a message of the syslog protocol is parsed
by `log_msg_parse_syslog_proto` into a message with the same fields, if the writer adds no sequence
number and the host name has no colon, no opening bracket and at most 255 bytes.
-/

namespace SyslogNg.LogWriter

open Lib Time SyslogFormat Function

/-! ## The structured data -/

theorem formatSdataStep_seqNum {msg : LogMessage} {st : SdataState} (seqNum : Nat) (name : List UInt8)
    (h : st.hasSeqNum = true) :
    formatSdataStep msg seqNum st name = formatSdataStep msg 0 st name ∧
      (formatSdataStep msg 0 st name).hasSeqNum = true := by
  simp [formatSdataStep, h]

theorem foldl_seqNum {msg : LogMessage} (seqNum : Nat) (names : List (List UInt8)) {st : SdataState}
    (h : st.hasSeqNum = true) :
    names.foldl (formatSdataStep msg seqNum) st = names.foldl (formatSdataStep msg 0) st ∧
      (names.foldl (formatSdataStep msg 0) st).hasSeqNum = true := by
  induction names generalizing st with
  | nil => exact ⟨rfl, h⟩
  | cons name names ih =>
    obtain ⟨hstep, hnext⟩ := formatSdataStep_seqNum seqNum name h
    rw [List.foldl_cons, List.foldl_cons, hstep]
    exact ih hnext

theorem appendFormatSdata_seqNum {msg : LogMessage} (seqNum : Nat)
    (h : (msg.getValue metaSeqid).headD 0 ≠ 0) :
    logMsgAppendFormatSdata msg seqNum = logMsgAppendFormatSdata msg 0 := by
  have hfold := @foldl_seqNum msg seqNum msg.sdata
    ⟨[], none, decide ((msg.getValue metaSeqid).headD 0 ≠ 0)⟩ (by simpa using h)
  unfold logMsgAppendFormatSdata
  simp only [hfold.1, hfold.2, Bool.not_true, Bool.false_and, Bool.false_eq_true, if_false]

/-- The writer has no sequence number for the message, or the message has one already. -/
def NotNumbered (options : FormatOptions) (msg : LogMessage) : Prop :=
  msg.isLocal = true → options.seqNum = 0 ∨ (msg.getValue metaSeqid).headD 0 ≠ 0

theorem NotNumbered.appendFormatSdata {options : FormatOptions} {msg : LogMessage}
    (h : NotNumbered options msg) :
    logMsgAppendFormatSdata msg (seqNumOf options msg) = logMsgAppendFormatSdata msg 0 := by
  by_cases hseqid : (msg.getValue metaSeqid).headD 0 ≠ 0
  · exact appendFormatSdata_seqNum _ hseqid
  · have hzero : seqNumOf options msg = 0 := by
      unfold seqNumOf
      by_cases hlocal : msg.isLocal = true
      · rw [if_pos hlocal]
        exact (h hlocal).resolve_right hseqid
      · rw [if_neg hlocal, if_neg hseqid]
    rw [hzero]

/-- The structured data of a message: the elements that its names are taken apart to. A name has to
fit into the buffer of the parser, and a message has no more than 255 of them. -/
structure HasSdata (max : Nat) (msg : LogMessage) (elements : List SdElement) : Prop where
  valid : SdValid max elements
  separable : ∀ element ∈ elements, element.Separable
  fits : ∀ element ∈ elements, element.Fits
  room : (elements.flatMap SdElement.entries).length ≤ 255
  names : msg.sdata = (elements.flatMap SdElement.entries).map Prod.fst
  values : ∀ element ∈ elements, ∀ entry ∈ element.entries, msg.values (.sdata entry.1) = some entry.2

section

variable {max : Nat} {msg : LogMessage} {elements : List SdElement}

theorem HasSdata.sdataOrNil_eq {options : FormatOptions} (h : HasSdata max msg elements)
    (hseq : NotNumbered options msg) : sdataOrNil msg (seqNumOf options msg) = sdText elements := by
  unfold sdataOrNil
  rw [hseq.appendFormatSdata, logMsgAppendFormatSdata_eq h.valid.ids h.separable
    (fun e he => (h.valid.idName e he).1.1)
    (fun e he param hparam => (h.valid.paramName e he param hparam).1.1) h.values h.names]
  cases elements with
  | nil => rfl
  | cons element elements => simp [sdText, elementsText, SdElement.text]

theorem HasSdata.parseSd {options : MsgFormatOptions} (h : HasSdata options.sdataParamValueMax msg elements)
    {msg' : LogMessage} (hnew : Unparsed msg') {src : List UInt8} {left : Int} (hleft : 0 ≤ left) :
    ∃ stored, logMsgParseSd options msg'
        ⟨sdText elements ++ 32 :: src, (sdText elements).length + left⟩ = .ok (stored, ⟨32 :: src, left⟩) ∧
      stored.pri = msg'.pri ∧ stored.sdata = msg.sdata ∧
      (∀ name ∈ msg.sdata, stored.values (.sdata name) = msg.values (.sdata name)) ∧
      ∀ handle, (∀ name, handle ≠ .sdata name) → stored.values handle = msg'.values handle := by
  have hnodup := nodup_entries h.valid.ids h.valid.names (fun e he => (h.valid.idName e he).1.1)
    h.separable
  obtain ⟨hsdata, hvalues, hframe⟩ := storeAll_new hnew.initial hnodup
    (fun entry _ => hnew.values entry.1) (by rw [hnew.sdata]; simpa using h.room)
  refine ⟨storeAll msg' (elements.flatMap SdElement.entries), ?_, ?_, ?_, ?_, ?_⟩
  · rw [logMsgParseSd_text (fun e he => ⟨h.valid.idName e he, h.valid.paramName e he,
      h.valid.valueLength e he⟩) (fun _ => ⟨32, src, rfl, by decide⟩) hleft, storeElements_eq h.fits]
    rfl
  · obtain ⟨values, sdata, hstore⟩ := storeAll_frame msg' (elements.flatMap SdElement.entries)
    rw [hstore]
  · rw [hsdata, hnew.sdata, h.names, List.nil_append]
  · intro name hname
    rw [h.names] at hname
    obtain ⟨entry, hentry, rfl⟩ := List.mem_map.1 hname
    obtain ⟨element, he, hentry'⟩ := List.mem_flatMap.1 hentry
    rw [hvalues entry hentry, h.values element he entry hentry']
  · intro handle hhandle
    exact hframe handle fun entry _ => hhandle entry.1

end

/-! ## The text -/

structure TextOk (text : List UInt8) : Prop where
  bom : text.take 3 ≠ [0xEF, 0xBB, 0xBF]
  last : ∀ b, text.getLast? = some b → b ≠ 10 ∧ b ≠ 0

theorem valueBytes_text (text behind : List UInt8) :
    valueBytes ⟨text ++ behind, text.length⟩ = .ok text := by
  rw [valueBytes, if_neg (by dsimp only; omega), if_pos (by simp)]
  simp

theorem memEq_ne {str src : List UInt8} (hlen : str.length ≤ src.length)
    (hne : src.take str.length ≠ str) : memEq str src = .ok false := by
  induction str generalizing src with
  | nil => simp at hne
  | cons a str ih =>
    cases src with
    | nil => simp at hlen
    | cons b src =>
      rw [memEq]
      split
      case isTrue h =>
        subst h
        exact ih (by simpa using hlen) (by simpa using hne)
      case isFalse => rfl

theorem hasBom_text {text behind : List UInt8} (h : TextOk text) :
    hasBom ⟨text ++ behind, text.length⟩ = .ok false := by
  unfold hasBom
  split
  case isFalse => rfl
  case isTrue hlen =>
    have hlen : 3 ≤ text.length := by
      dsimp only at hlen
      omega
    refine memEq_ne (by simp; omega) ?_
    rw [List.take_append_of_le_length (by simpa using hlen)]
    exact h.bom

theorem hasBom_bom (src : List UInt8) (left : Int) (h : 3 ≤ left) :
    hasBom ⟨0xEF :: 0xBB :: 0xBF :: src, left⟩ = .ok true := by
  rw [hasBom, if_pos h]
  rfl

theorem protoMessage_text {env : ParseEnv} {options : MsgFormatOptions} {msg msg' : LogMessage}
    (h : TextOk (msg.getValue .message)) (behind : List UInt8) :
    ∃ utf8, protoMessage env options msg'
        ⟨32 :: (messageText msg ++ behind), 1 + (messageText msg).length⟩ =
      .ok { msg'.setValue .message (msg.getValue .message) with utf8 := utf8 } := by
  rw [protoMessage, if_neg (by dsimp only; omega), skipSpace_text (by omega), Res.ok_bind]
  unfold messageText
  generalize msg.getValue .message = text at h ⊢
  by_cases hbom : text ≠ [] ∧ msg.utf8 = true
  · -- the mark is skipped
    simp only [if_neg hbom.1, hbom.2, if_true, List.cons_append, List.nil_append]
    rw [hasBom_bom _ _ (by simp only [List.length_cons]; omega), Res.ok_bind, if_pos rfl]
    have hadvance : Cursor.advance ⟨0xEF :: 0xBB :: 0xBF :: (text ++ behind),
        ((0xEF :: 0xBB :: 0xBF :: text).length : Nat)⟩ 3 = ⟨text ++ behind, text.length⟩ := by
      simp only [Cursor.advance, List.drop_succ_cons, List.drop_zero, List.length_cons,
        Cursor.mk.injEq, true_and]
      omega
    rw [hadvance, valueBytes_text]
    exact ⟨true, rfl⟩
  · have htext : (if text = [] then [] else (if msg.utf8 = true then [0xEF, 0xBB, 0xBF] else []) ++
        text) = text := by
      split
      case isTrue hnil => exact hnil.symm
      case isFalse hnil => rw [if_neg (fun hutf8 => hbom ⟨hnil, hutf8⟩), List.nil_append]
    simp only [htext]
    rw [hasBom_text h, Res.ok_bind, if_neg (by decide), storeMessage, valueBytes_text]
    exact ⟨_, rfl⟩

theorem messageText_last {msg : LogMessage} (h : TextOk (msg.getValue .message)) :
    ∀ b, (messageText msg).getLast? = some b → b ≠ 10 ∧ b ≠ 0 := by
  intro b hb
  unfold messageText at hb
  by_cases hnil : msg.getValue .message = []
  · simp [hnil] at hb
  · simp only [if_neg hnil] at hb
    rw [List.getLast?_append_of_ne_nil _ hnil] at hb
    exact h.last b hb

theorem trimmedLength_append {text : List UInt8} (b : UInt8)
    (h : ∀ b, text.getLast? = some b → b ≠ 10 ∧ b ≠ 0) (hne : text ≠ [] ∨ b ≠ 10 ∧ b ≠ 0)
    (pre : List UInt8) : trimmedLength (pre ++ b :: (text ++ [10])) = pre.length + 1 + text.length := by
  have hrev : (pre ++ b :: (text ++ [10])).reverse = 10 :: (text.reverse ++ b :: pre.reverse) := by
    simp
  rw [trimmedLength, hrev, List.dropWhile_cons_of_pos (by decide)]
  cases htext : text.reverse with
  | nil =>
    have hnil : text = [] := List.reverse_eq_nil_iff.1 htext
    have hb := hne.resolve_left (not_not_intro hnil)
    rw [List.nil_append, List.dropWhile_cons_of_neg (by simpa using hb)]
    simp [hnil]
  | cons c rest =>
    have hlast : text.getLast? = some c := by
      rw [List.getLast?_eq_head?_reverse, htext]
      rfl
    have hlen : text.length = rest.length + 1 := by
      rw [← List.length_reverse, htext, List.length_cons]
    rw [List.cons_append, List.dropWhile_cons_of_neg (by simpa using h c hlast), hlen]
    simp
    omega

/-! ## The message -/

def IsField (handle : NVHandle) : Prop := ∀ name, handle ≠ .sdata name

theorem setValue_values (msg : LogMessage) (handle : NVHandle) (value : List UInt8) :
    (msg.setValue handle value).values = update msg.values handle (some value) := by
  unfold LogMessage.setValue LogMessage.updateSdata LogMessage.updateSdataSlow
  cases handle with
  | sdata name =>
    simp only [reduceCtorEq, if_false]
    split
    · split
      · rfl
      · split
        · rfl
        · rfl
    · rfl
  | host => simp
  | program => simp
  | pid => simp
  | msgid => simp
  | message => simp
  | legacyMsghdr => simp

theorem setValue_field {handle : NVHandle} (hfield : IsField handle) (msg : LogMessage)
    (value : List UInt8) :
    (msg.setValue handle value).pri = msg.pri ∧ (msg.setValue handle value).sdata = msg.sdata ∧
      (msg.setValue handle value).initialParse = msg.initialParse := by
  unfold LogMessage.setValue LogMessage.updateSdata
  cases handle with
  | sdata name => exact absurd rfl (hfield name)
  | host => simp
  | program => simp
  | pid => simp
  | msgid => simp
  | message => simp
  | legacyMsghdr => simp

section

variable {msg : LogMessage} {handle : NVHandle} {value : List UInt8}

theorem storeColumn_frame (hfield : IsField handle) :
    (storeColumn msg handle value).pri = msg.pri ∧ (storeColumn msg handle value).sdata = msg.sdata ∧
      (storeColumn msg handle value).initialParse = msg.initialParse := by
  unfold storeColumn
  split
  · exact ⟨rfl, rfl, rfl⟩
  · exact setValue_field hfield msg value

theorem storeColumn_other {other : NVHandle} (hne : other ≠ handle) :
    (storeColumn msg handle value).values other = msg.values other := by
  unfold storeColumn
  split
  · rfl
  · rw [setValue_values, update_of_ne hne]

theorem storeColumn_self (hnone : msg.values handle = none) :
    (storeColumn msg handle value).getValue handle = value := by
  unfold storeColumn
  split
  case isTrue hnil => simp [LogMessage.getValue, hnone, hnil]
  case isFalse => simp [LogMessage.getValue, setValue_values]

end

/-- A message that is relayed as the syslog protocol has it. -/
structure Relayable (options : FormatOptions) (reader : MsgFormatOptions) (msg : LogMessage)
    (elements : List SdElement) : Prop where
  pri : msg.pri < 65536
  host : FieldOk (msg.getValue .host)
  program : FieldOk (msg.getValue .program)
  pid : FieldOk (msg.getValue .pid)
  msgid : FieldOk (msg.getValue .msgid)
  programLength : (msg.getValue .program).length ≤ 48
  pidLength : (msg.getValue .pid).length ≤ 128
  msgidLength : (msg.getValue .msgid).length ≤ 32
  sdata : HasSdata reader.sdataParamValueMax msg elements
  message : TextOk (msg.getValue .message)

/-- A message to parse into: nothing is stored in it yet. -/
structure Fresh (msg : LogMessage) : Prop where
  initial : msg.initialParse = true
  sdata : msg.sdata = []
  values : ∀ handle, msg.values handle = none

structure SameFields (msg msg' : LogMessage) : Prop where
  pri : msg'.pri = msg.pri
  host : msg'.getValue .host = msg.getValue .host
  program : msg'.getValue .program = msg.getValue .program
  pid : msg'.getValue .pid = msg.getValue .pid
  msgid : msg'.getValue .msgid = msg.getValue .msgid
  sdata : msg'.sdata = msg.sdata
  sdataValues : ∀ name ∈ msg.sdata, msg'.values (.sdata name) = msg.values (.sdata name)
  message : msg'.getValue .message = msg.getValue .message

def fieldsText (msg : LogMessage) (elements : List SdElement) : List UInt8 :=
  fieldText (msg.getValue .host) ++ 32 :: (fieldText (msg.getValue .program) ++
    32 :: (fieldText (msg.getValue .pid) ++ 32 :: (fieldText (msg.getValue .msgid) ++
      32 :: (sdText elements ++ 32 :: (messageText msg ++ [10])))))

section

variable {options : FormatOptions} {reader : MsgFormatOptions} {msg : LogMessage}
  {elements : List SdElement}

theorem Relayable.formatLog_eq (h : Relayable options reader msg elements)
    (hseq : NotNumbered options msg) (hpadding : options.padding = 0)
    (hlines : options.noMultiLine = false) (caches : TimeCaches) :
    (logWriterFormatLog options msg caches).1 =
      60 :: (decimal msg.pri ++ 62 :: 49 :: 32 :: ((logStampAppendFormat msg.stamp .iso
        (options.sendZoneOffset msg.stamp.tvSec) options.fracDigits caches).1 ++
          32 :: fieldsText msg elements)) := by
  have hpri : ((msg.pri : Int) % 2 ^ 32).toNat = msg.pri := by
    have := h.pri
    omega
  simp only [logWriterFormatLog, logWriterDoPadding, hpadding, hlines, if_true, Bool.false_eq_true,
    if_false, appendValue_eq h.host, appendValue_eq h.program, appendValue_eq h.pid,
    appendValue_eq h.msgid, h.sdata.sdataOrNil_eq hseq, formatUint32Padded, hpri, Nat.zero_sub,
    List.replicate_zero, List.nil_append, fieldsText, List.append_assoc, List.cons_append]

theorem HostOk.text {host : List UInt8} (h : HostOk host) : HostOk (fieldText host) := by
  unfold fieldText
  split
  · exact ⟨by decide, by decide, by decide⟩
  · exact h

theorem storeHost_text {host : List UInt8} (hhost : FieldOk host) (msg : LogMessage) :
    (if some (fieldText host) = some [45] then msg else storeHost msg (some (fieldText host))) =
      storeColumn msg .host host := by
  unfold fieldText storeColumn
  by_cases hnil : host = []
  · rw [if_pos hnil, if_pos hnil, if_pos rfl]
  · rw [if_neg hnil, if_neg hnil, if_neg (fun h => hhost.hyphen (Option.some.inj h))]
    rfl

def storeHeader (msg0 msg : LogMessage) : LogMessage :=
  storeColumn (storeColumn (storeColumn (storeColumn msg0 .host (msg.getValue .host)) .program
    (msg.getValue .program)) .pid (msg.getValue .pid)) .msgid (msg.getValue .msgid)

theorem storeHeader_frame (msg0 msg : LogMessage) :
    (storeHeader msg0 msg).pri = msg0.pri ∧ (storeHeader msg0 msg).sdata = msg0.sdata ∧
      (storeHeader msg0 msg).initialParse = msg0.initialParse ∧
      ∀ name, (storeHeader msg0 msg).values (.sdata name) = msg0.values (.sdata name) := by
  unfold storeHeader
  have hmsgid : IsField .msgid := fun name => by simp
  have hpid : IsField .pid := fun name => by simp
  have hprogram : IsField .program := fun name => by simp
  have hhost : IsField .host := fun name => by simp
  refine ⟨?_, ?_, ?_, fun name => ?_⟩
  · rw [(storeColumn_frame hmsgid).1, (storeColumn_frame hpid).1, (storeColumn_frame hprogram).1,
      (storeColumn_frame hhost).1]
  · rw [(storeColumn_frame hmsgid).2.1, (storeColumn_frame hpid).2.1,
      (storeColumn_frame hprogram).2.1, (storeColumn_frame hhost).2.1]
  · rw [(storeColumn_frame hmsgid).2.2, (storeColumn_frame hpid).2.2,
      (storeColumn_frame hprogram).2.2, (storeColumn_frame hhost).2.2]
  · rw [storeColumn_other (hmsgid name).symm, storeColumn_other (hpid name).symm,
      storeColumn_other (hprogram name).symm, storeColumn_other (hhost name).symm]

theorem storeHeader_fields {msg0 : LogMessage} (hnone : ∀ handle, msg0.values handle = none)
    (msg : LogMessage) : ∀ handle ∈ [NVHandle.host, .program, .pid, .msgid],
      (storeHeader msg0 msg).getValue handle = msg.getValue handle := by
  have hother : ∀ {m : LogMessage} {handle other : NVHandle} {value : List UInt8}, other ≠ handle →
      (storeColumn m handle value).getValue other = m.getValue other := fun hne => by
    rw [LogMessage.getValue, storeColumn_other hne, LogMessage.getValue]
  unfold storeHeader
  simp only [List.forall_mem_cons, List.not_mem_nil, false_imp_iff, implies_true, and_true]
  refine ⟨?_, ?_, ?_, ?_⟩
  · rw [hother (by decide), hother (by decide), hother (by decide), storeColumn_self (hnone _)]
  · rw [hother (by decide), hother (by decide), storeColumn_self]
    rw [storeColumn_other (by decide), hnone]
  · rw [hother (by decide), storeColumn_self]
    rw [storeColumn_other (by decide), storeColumn_other (by decide), hnone]
  · rw [storeColumn_self]
    rw [storeColumn_other (by decide), storeColumn_other (by decide), storeColumn_other (by decide),
      hnone]

def fieldsLength (msg : LogMessage) (elements : List SdElement) : Int :=
  (fieldText (msg.getValue .host)).length + (1 + ((fieldText (msg.getValue .program)).length +
    (1 + ((fieldText (msg.getValue .pid)).length + (1 + ((fieldText (msg.getValue .msgid)).length +
      (1 + ((sdText elements).length + (1 + ((messageText msg).length : Int))))))))))

theorem Relayable.protoFields_text (h : Relayable options reader msg elements)
    (hcheck : reader.checkHostname = false) (hhost : HostOk (msg.getValue .host)) {msg0 : LogMessage}
    (hfresh : Fresh msg0) (hpri : msg0.pri = msg.pri) (env : ParseEnv) :
    ∃ msg', protoFields env reader msg0
        ⟨32 :: fieldsText msg elements, 1 + fieldsLength msg elements⟩ = .ok msg' ∧
      SameFields msg msg' := by
  unfold fieldsText fieldsLength protoFields
  rw [skipSpace_text (by omega), Res.ok_bind, parseHostname_text hcheck h.host.no_space_text hhost.text
    (by omega), Res.ok_bind]
  simp only
  rw [skipSpace_text (by omega), Res.ok_bind]
  simp only [storeHost_text h.host]
  rw [parseColumn_text h.program h.programLength (by omega), Res.ok_bind]
  simp only
  rw [skipSpace_text (by omega), Res.ok_bind, parseColumn_text h.pid h.pidLength (by omega),
    Res.ok_bind]
  simp only
  rw [skipSpace_text (by omega), Res.ok_bind, parseColumn_text h.msgid h.msgidLength (by omega),
    Res.ok_bind]
  simp only
  rw [skipSpace_text (by omega), Res.ok_bind]
  obtain ⟨hpri0, hsdata0, hinitial0, hvalues0⟩ := storeHeader_frame msg0 msg
  have hunparsed : Unparsed (storeHeader msg0 msg) :=
    ⟨by rw [hinitial0, hfresh.initial], by rw [hsdata0, hfresh.sdata],
      fun name => by rw [hvalues0, hfresh.values]⟩
  obtain ⟨stored, hparse, hpri1, hsdata1, hvalues1, hframe1⟩ := @HasSdata.parseSd msg elements reader
    h.sdata _ hunparsed (messageText msg ++ [10]) (1 + (messageText msg).length) (by omega)
  obtain ⟨utf8, hmessage⟩ := @protoMessage_text env reader msg stored h.message [10]
  have hfields := storeHeader_fields hfresh.values msg
  simp only [List.forall_mem_cons, List.not_mem_nil, false_imp_iff, implies_true, and_true] at hfields
  obtain ⟨hhost1, hprogram1, hpid1, hmsgid1⟩ := hfields
  have hget : ∀ handle, IsField handle → handle ≠ .message →
      LogMessage.getValue { stored.setValue .message (msg.getValue .message) with utf8 := utf8 } handle =
        (storeHeader msg0 msg).getValue handle := by
    intro handle hfield hne
    simp only [LogMessage.getValue, setValue_values]
    rw [update_of_ne hne, hframe1 handle hfield]
  have hmsg : IsField .message := fun name => by simp
  unfold storeHeader at hparse
  rw [hparse, Res.ok_bind]
  simp only
  rw [hmessage]
  refine ⟨_, rfl, ?_⟩
  constructor
  case pri =>
    show (stored.setValue .message (msg.getValue .message)).pri = _
    rw [(setValue_field hmsg _ _).1, hpri1, hpri0, hpri]
  case host => rw [hget .host (fun name => by simp) (by decide), hhost1]
  case program => rw [hget .program (fun name => by simp) (by decide), hprogram1]
  case pid => rw [hget .pid (fun name => by simp) (by decide), hpid1]
  case msgid => rw [hget .msgid (fun name => by simp) (by decide), hmsgid1]
  case sdata =>
    show (stored.setValue .message (msg.getValue .message)).sdata = _
    rw [(setValue_field hmsg _ _).2.1, hsdata1]
  case sdataValues =>
    intro name hname
    show (stored.setValue .message (msg.getValue .message)).values (.sdata name) = _
    rw [setValue_values, update_of_ne (by simp), hvalues1 name hname]
  case message =>
    show (stored.setValue .message (msg.getValue .message)).getValue .message = _
    simp [LogMessage.getValue, setValue_values]

theorem Relayable.parse_eq (h : Relayable options reader msg elements)
    (hstamp : StampOk msg.stamp (options.sendZoneOffset msg.stamp.tvSec)) {zone : TimeZone}
    {caches : TimeCaches} (hok : CachesOk zone caches) (hseq : NotNumbered options msg)
    (hpadding : options.padding = 0) (hlines : options.noMultiLine = false)
    (hproto : reader.syslogProtocol = true) (env : ParseEnv) (st : DateState)
    (hlength : (logWriterFormatLog options msg caches).1.length ≤ 2 ^ 31) :
    ∃ stamp caches', logMsgParseSyslogProto env reader st
        ⟨(logWriterFormatLog options msg caches).1,
          wrap32 (trimmedLength (logWriterFormatLog options msg caches).1)⟩ =
      withCaches caches' (protoFields env reader { st.msg with pri := msg.pri, stamp := stamp }
        ⟨32 :: fieldsText msg elements, 1 + fieldsLength msg elements⟩) := by
  obtain ⟨stamp, caches', hdate⟩ := @parseDate_text zone msg.stamp
    (options.sendZoneOffset msg.stamp.tvSec) caches hok hstamp options.fracDigits env
    (reader.recvTimeZoneOffset env.now) { st with msg := { st.msg with pri := msg.pri } }
    (fieldsText msg elements) (1 + fieldsLength msg elements) (by unfold fieldsLength; omega)
  refine ⟨stamp, caches', ?_⟩
  have htext := h.formatLog_eq hseq hpadding hlines caches
  generalize (logStampAppendFormat msg.stamp .iso (options.sendZoneOffset msg.stamp.tvSec)
    options.fracDigits caches).1 = stampText at hdate htext
  obtain ⟨pre, hpre⟩ : ∃ pre, (logWriterFormatLog options msg caches).1 =
      pre ++ 32 :: (messageText msg ++ [10]) := by
    refine ⟨60 :: (decimal msg.pri ++ 62 :: 49 :: 32 :: (stampText ++
      32 :: (fieldText (msg.getValue .host) ++ 32 :: (fieldText (msg.getValue .program) ++
        32 :: (fieldText (msg.getValue .pid) ++ 32 :: (fieldText (msg.getValue .msgid) ++
          32 :: sdText elements)))))), ?_⟩
    rw [htext, fieldsText]
    simp only [List.append_assoc, List.cons_append]
  have hcut := trimmedLength_append 32 (messageText_last h.message) (.inr (by decide)) pre
  rw [← hpre] at hcut
  have hlen : (logWriterFormatLog options msg caches).1.length =
      trimmedLength (logWriterFormatLog options msg caches).1 + 1 := by
    rw [hcut, hpre]
    simp only [List.length_append, List.length_cons, List.length_nil]
    omega
  have htrim : (trimmedLength (logWriterFormatLog options msg caches).1 : Int) =
      (decimal msg.pri).length + 2 + (1 + (1 + (stampText.length + (1 + fieldsLength msg elements)))) := by
    have hlen' := congrArg List.length htext
    rw [hlen, fieldsText] at hlen'
    simp only [List.length_append, List.length_cons, List.length_nil] at hlen'
    unfold fieldsLength
    omega
  have hwrap : wrap32 (trimmedLength (logWriterFormatLog options msg caches).1) =
      trimmedLength (logWriterFormatLog options msg caches).1 := wrap32_eq_self (by omega)
  rw [hwrap, htrim, htext, logMsgParseSyslogProto, parsePri_text h.pri (by unfold fieldsLength; omega)]
  simp only
  rw [parseVersion_text (by unfold fieldsLength; omega)]
  simp only [protoBody]
  rw [skipSpace_text (by unfold fieldsLength; omega)]
  simp only [hproto]
  rw [hdate, Res.ok_bind]
  rfl

end

/-- A message is written, and the text is parsed into a message with the same fields. -/
def Relayed (options : FormatOptions) (reader : MsgFormatOptions) (env : ParseEnv) (msg : LogMessage)
    (caches : TimeCaches) (st : DateState) : Prop :=
  ∃ msg' caches', logMsgParseSyslogProto env reader st
      ⟨(logWriterFormatLog options msg caches).1,
        wrap32 (trimmedLength (logWriterFormatLog options msg caches).1)⟩ = .ok (some msg', caches') ∧
    SameFields msg msg'

/-- **Relaying.** For all time stamps with a year of four digits, all caches, and all messages that the
writer does not add a sequence number to: the fields come back if the host name has no colon, no
opening bracket and at most 255 bytes. -/
theorem message_relayed (options : FormatOptions) (hpadding : options.padding = 0)
    (hlines : options.noMultiLine = false) (reader : MsgFormatOptions)
    (hproto : reader.syslogProtocol = true) (hcheck : reader.checkHostname = false) (msg : LogMessage)
    (elements : List SdElement) (h : Relayable options reader msg elements)
    (hstamp : StampOk msg.stamp (options.sendZoneOffset msg.stamp.tvSec))
    (hseq : NotNumbered options msg) (hhost : HostOk (msg.getValue .host)) (zone : TimeZone)
    (caches : TimeCaches) (hreach : CachesReachable zone caches)
    (hlength : (logWriterFormatLog options msg caches).1.length ≤ 2 ^ 31) (env : ParseEnv)
    (st : DateState) (hfresh : Fresh st.msg) : Relayed options reader env msg caches st := by
  obtain ⟨stamp, caches', hparse⟩ := h.parse_eq hstamp hreach.ok hseq hpadding hlines hproto env st hlength
  have hfresh' : Fresh { st.msg with pri := msg.pri, stamp := stamp } :=
    ⟨hfresh.initial, hfresh.sdata, hfresh.values⟩
  obtain ⟨msg', hfields, hsame⟩ := h.protoFields_text hcheck hhost hfresh' rfl env
  rw [hfields] at hparse
  exact ⟨msg', caches', hparse, hsame⟩

/-- A writer with default options. -/
def relayWriter (seqNum : Nat) : FormatOptions where
  seqNum := seqNum
  sendZoneOffset _ := -1
  fracDigits := 0
  padding := 0
  noMultiLine := false

/-- `<13>1 2018-10-07T03:15:00-05:30 h p - - [a b="]"] x`. -/
def relayedMessage (isLocal : Bool) : LogMessage where
  pri := 13
  utf8 := true
  isLocal := isLocal
  internal := false
  hasLegacyMsghdr := false
  initialParse := false
  stamp := ⟨1538901900, 250000, -19800⟩
  recvd := ⟨1538901900, 250000, -19800⟩
  values
    | .host => some [104]
    | .program => some [112]
    | .message => some [120]
    | .sdata [46, 83, 68, 65, 84, 65, 46, 97, 46, 98] => some [93]
    | _ => none
  sdata := [[46, 83, 68, 65, 84, 65, 46, 97, 46, 98]]

instance (value : List UInt8) : Decidable (FieldOk value) :=
  decidable_of_iff (value ≠ [45] ∧ value.all fun b => 33 ≤ b ∧ b ≤ 126)
    ⟨fun h => ⟨h.1, by simpa using h.2⟩, fun h => ⟨h.1, by simpa using h.2⟩⟩

theorem relayable_relayedMessage (isLocal : Bool) (seqNum : Nat) :
    Relayable (relayWriter seqNum) protocolOptions (relayedMessage isLocal)
      [⟨[97], [⟨[98], [93]⟩]⟩] where
  pri := by decide +revert
  host := by decide +revert +kernel
  program := by decide +revert +kernel
  pid := by decide +revert +kernel
  msgid := by decide +revert +kernel
  programLength := by decide +revert
  pidLength := by decide +revert
  msgidLength := by decide +revert
  sdata :=
    { valid := ⟨by decide, by decide +kernel, by decide, by decide +kernel, by decide⟩
      separable := by simp [SdElement.Separable]
      fits := by simp [SdElement.Fits, FitsBuffer]
      room := by decide +revert
      names := rfl
      values := by simp [SdElement.entries, relayedMessage, paramName, logmsgSdPrefix] }
  message := ⟨by decide +revert, by simp [relayedMessage, LogMessage.getValue]⟩

theorem stampOk_relayedMessage (isLocal : Bool) : StampOk (relayedMessage isLocal).stamp (-1) :=
  ⟨by decide +kernel +revert, by decide +kernel +revert, by decide +revert⟩

theorem fresh_newMessage : Fresh newMessage := ⟨rfl, rfl, fun _ => rfl⟩

theorem message_relayed_lord_howe :
    Relayed (relayWriter 7) protocolOptions lordHoweEnv (relayedMessage false) .init
      ⟨newMessage, .init⟩ :=
  message_relayed (relayWriter 7) rfl rfl protocolOptions rfl rfl (relayedMessage false) _
    (relayable_relayedMessage false 7) (stampOk_relayedMessage false) (fun h => nomatch h)
    ⟨by decide, by decide, by decide⟩ lordHoweEnv.zone .init .init (by decide +kernel) lordHoweEnv
    ⟨newMessage, .init⟩ fresh_newMessage

def parsedSdata : Res Parsed → Option (List (List UInt8))
  | .ok (some msg, _) => some msg.sdata
  | _ => none

/-- A message from the host itself gets a sequence number when it is written: the structured data of
the message that is parsed has one name more. -/
theorem local_message_numbered :
    ¬ ∀ (options : FormatOptions), options.padding = 0 → options.noMultiLine = false →
      ∀ (reader : MsgFormatOptions), reader.syslogProtocol = true → reader.checkHostname = false →
      ∀ (msg : LogMessage) (elements : List SdElement), Relayable options reader msg elements →
        StampOk msg.stamp (options.sendZoneOffset msg.stamp.tvSec) →
      ∀ (zone : TimeZone) (caches : TimeCaches), CachesReachable zone caches →
        (logWriterFormatLog options msg caches).1.length ≤ 2 ^ 31 →
      ∀ (env : ParseEnv) (st : DateState), Fresh st.msg → Relayed options reader env msg caches st := by
  intro h
  obtain ⟨msg', caches', hparse, hsame⟩ := h (relayWriter 7) rfl rfl protocolOptions rfl rfl
    (relayedMessage true) _ (relayable_relayedMessage true 7) (stampOk_relayedMessage true)
    lordHoweEnv.zone .init .init (by decide +kernel) lordHoweEnv ⟨newMessage, .init⟩ fresh_newMessage
  have hnames : parsedSdata (logMsgParseSyslogProto lordHoweEnv protocolOptions ⟨newMessage, .init⟩
      ⟨(logWriterFormatLog (relayWriter 7) (relayedMessage true) .init).1,
        wrap32 (trimmedLength (logWriterFormatLog (relayWriter 7) (relayedMessage true) .init).1)⟩) =
      some [".SDATA.a.b".toUTF8.toList, ".SDATA.meta.sequenceId".toUTF8.toList] := by
    decide +kernel
  rw [hparse, parsedSdata, hsame.sdata] at hnames
  exact absurd hnames (by decide +kernel)

end SyslogNg.LogWriter
