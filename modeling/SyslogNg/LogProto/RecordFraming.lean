import SyslogNg.LogProto.BufferedFetch

/-!
# Records of a stream (`lib/logproto-record-server.c`)

The buffer of a server of records starts with `init_buffer_size`, so that the assertion that a record
fits only holds where that is at least the size of a record; `validate_options` compares the size with
`max_buffer_size`. Where it fits, a fetch makes one message of one read, as long as there is text in it.
-/

namespace SyslogNg.LogProto

open Lib List LogProtoTextServer
open Option (bind_some)

/-! ## A fetch and what it leaves of its input -/

namespace BufferedKind

section

variable (kind : BufferedKind) (options : LogProtoServerOptions) (junk : UInt8) (addr : Nat)
  (rawSize : List UInt8 → Nat)

/-- `readLoop`, with the input that is left. -/
def readLoopRest : List (List IconvCall) → Nat → ConvertingServer → LogTransport → Bool →
    Option ((LogProtoStatus × Option (List UInt8) × ConvertingServer) × TextEnv)
  | _, 0, _, _, _ => none
  | iconvs, rounds + 1, self, transport, mayRead =>
    if !mayRead then some ((.success, none, self), ⟨transport, iconvs⟩)
    else (kind.readData transport (room options self)).bind fun
      | (.again, transport) => some ((.success, none, self), ⟨transport, iconvs⟩)
      | (.error, transport) =>
        (flushAtEnd kind addr rawSize self .error).map fun r => (r, ⟨transport, iconvs⟩)
      | (.eof, transport) =>
        if self.rawBufferLeftover.isEmpty then
          (flushAtEnd kind addr rawSize self .eof).map fun r => (r, ⟨transport, iconvs⟩)
        else some ((.eof, none, { self with server := { self.server with status := .eof } }),
          ⟨transport, iconvs⟩)
      | (.bytes bs, transport) =>
        (addChunk kind options junk (iconvs.headD []) bs self).bind fun
        | (none, server) => some ((.error, none,
            { self with server := { server with status := .error }, rawBufferLeftover := [] }),
            ⟨transport, iconvs.tail⟩)
        | (some leftover, server) =>
          (fetchFromBuf kind self.encoding addr rawSize server false).bind fun
          | (some msg, server) => some ((.success, some msg,
              { self with server := server, rawBufferLeftover := leftover }),
              ⟨transport, iconvs.tail⟩)
          | (none, server) =>
            readLoopRest iconvs.tail rounds
              { self with server := server, rawBufferLeftover := leftover } transport
              (!server.noMultiRead)

/-- `fetch`, with the input that is left. -/
def fetchRest (self : ConvertingServer) (mayRead : Bool) (env : TextEnv) :
    Option ((LogProtoStatus × Option (List UInt8) × ConvertingServer) × TextEnv) :=
  if self.server.status = .success then
    (fetchFromBuf kind self.encoding addr rawSize (self.server.allocate options junk) false).bind fun
    | (some msg, server) => some ((.success, some msg, { self with server := server }), env)
    | (none, server) =>
      readLoopRest kind options junk addr rawSize env.iconvs (readsLeft env.transport + 1)
        { self with server := server } env.transport mayRead
  else some ((self.server.status, none, self), env)

end

end BufferedKind

/-! ## Records -/

def recordKind (padded : Bool) (n : Nat) : BufferedKind :=
  if padded then .paddedRecord n else .binaryRecord n

def recordMessage (padded : Bool) (text : List UInt8) : List UInt8 :=
  if padded then text.takeWhile fun c => !isEom c else text

/-- `log_proto_record_server_validate_options`, for an encoding that is known. -/
def validateOptions (options : LogProtoServerOptions) (n : Nat) : Bool := n ≤ options.maxBufferSize

def recordAt (n : Nat) (stream : List UInt8) (k : Nat) : List UInt8 := (stream.drop (k * n)).take n

/-- What `g_iconv` does to a record that it can convert: what it writes fits, it stops where there is no
more room, and all of its output is the text of the record. -/
def ConvertsTo (options : LogProtoServerOptions) : (bufferSize pendingEnd : Nat) → List IconvCall →
    List UInt8 → Prop
  | _, _, [], _ => False
  | bufferSize, pendingEnd, call :: calls, text =>
    pendingEnd + call.out.length ≤ bufferSize ∧
      ((call.status = .ok ∧ call.rest = [] ∧ text = call.out) ∨
        (call.status = .full ∧ call.rest ≠ [] ∧ ∃ more, text = call.out ++ more ∧
          (bufferSize < options.maxBufferSize →
            ConvertsTo options (ConvertingServer.doubled options bufferSize)
              (pendingEnd + call.out.length) calls more)))

/-! ## The buffer -/

/-- The buffer starts with a text, and nothing else is in it. -/
structure Holds (text : List UInt8) (s : LogProtoTextServer) : Prop where
  status : s.status = .success
  length : s.buffer.length = s.state.bufferSize
  small : s.state.bufferSize < 2 ^ 31
  pos : s.state.pendingBufferPos = 0
  pendingEnd : s.state.pendingBufferEnd = text.length
  fits : text.length ≤ s.state.bufferSize
  text : window s.buffer 0 text.length = text

section

variable {options : LogProtoServerOptions} {s : LogProtoTextServer} {text more : List UInt8}

theorem Holds.room (h : Holds text s) :
    usub32 s.state.bufferSize s.state.pendingBufferEnd = s.state.bufferSize - text.length := by
  have hsmall := h.small
  rw [h.pendingEnd]
  exact usub32_of_le h.fits (by omega)

theorem Holds.bufferBytes (h : Holds text s) :
    usub32 s.state.pendingBufferEnd s.state.pendingBufferPos = text.length := by
  have hsmall := h.small
  have hfits := h.fits
  rw [h.pos, h.pendingEnd]
  exact usub32_of_le (Nat.zero_le _) (by omega)

theorem Holds.store (h : Holds text s) (hfits : text.length + more.length ≤ s.state.bufferSize) :
    ∃ buffer, Lib.store s.buffer s.state.pendingBufferEnd more = some buffer ∧
      buffer.length = s.buffer.length ∧ window buffer 0 (text ++ more).length = text ++ more := by
  have hstore : text.length + more.length ≤ s.buffer.length := h.length ▸ hfits
  rw [h.pendingEnd]
  refine ⟨_, store_isSome hstore, store_length (store_isSome hstore), ?_⟩
  rw [length_append, window_store (Nat.zero_le _) (store_isSome hstore), h.text]

theorem Holds.convert (hmax : options.maxBufferSize < 2 ^ 31) (junk : UInt8) (kind : BufferedKind)
    {calls : List IconvCall} (h : Holds text s)
    (hcalls : ConvertsTo options s.state.bufferSize text.length calls more) :
    (∃ t, ConvertingServer.convertFromRaw options junk (kind.iconvs calls) s = some (some [], t) ∧
      Holds (text ++ more) t ∧ s.state.bufferSize ≤ t.state.bufferSize) ∨
    ∃ t, ConvertingServer.convertFromRaw options junk (kind.iconvs calls) s = some (none, t) := by
  induction calls generalizing s text more with
  | nil => exact hcalls.elim
  | cons call calls ih =>
    obtain ⟨hfits, hcalls⟩ := hcalls
    obtain ⟨buffer, hstore, hlen, hwindow⟩ := h.store hfits
    -- the call is not one of those that end in an error
    have hiconvs : call.status ≠ .incomplete →
        kind.iconvs (call :: calls) = call :: kind.iconvs calls := by
      intro hstatus
      unfold BufferedKind.iconvs
      split
      · rfl
      · rw [map_cons, if_neg hstatus]
    have hroom : ¬usub32 s.state.bufferSize s.state.pendingBufferEnd < call.out.length := by
      rw [h.room]
      omega
    have hholds : Holds (text ++ call.out)
        (ConvertingServer.advance call.out.length { s with buffer := buffer }) := by
      refine ⟨h.status, hlen.trans h.length, h.small, h.pos, ?_, ?_, hwindow⟩
      · show s.state.pendingBufferEnd + call.out.length = _
        rw [h.pendingEnd, length_append]
      · rw [length_append]
        exact hfits
    rcases hcalls with ⟨hok, hrest, rfl⟩ | ⟨hfull, hrest, more', rfl, hmore⟩
    · left
      refine ⟨_, ?_, hholds, Nat.le_refl _⟩
      rw [hiconvs (by rw [hok]; decide), ConvertingServer.convertFromRaw, if_neg hroom, hstore,
        bind_some, hok]
      simp only [hrest, isEmpty_nil, if_true]
    · rw [hiconvs (by rw [hfull]; decide), ConvertingServer.convertFromRaw, if_neg hroom, hstore,
        bind_some, hfull]
      dsimp only
      by_cases hsize : s.state.bufferSize < options.maxBufferSize
      · have hdoubled : s.state.bufferSize ≤ ConvertingServer.doubled options s.state.bufferSize := by
          unfold ConvertingServer.doubled
          split <;> omega
        have hsmall : ConvertingServer.doubled options s.state.bufferSize < 2 ^ 31 := by
          unfold ConvertingServer.doubled
          split <;> omega
        have hgrown : Holds (text ++ call.out) (ConvertingServer.grow options junk
            (ConvertingServer.advance call.out.length { s with buffer := buffer })) := by
          have hend : (text ++ call.out).length ≤ s.state.bufferSize := by
            rw [length_append]
            exact hfits
          refine ⟨hholds.status, realloc_length _ _ _, hsmall, hholds.pos, hholds.pendingEnd,
            hend.trans hdoubled, ?_⟩
          show window (realloc junk buffer (ConvertingServer.doubled options s.state.bufferSize)) 0 _ = _
          rw [window_realloc junk (hend.trans hdoubled) (by rw [hlen, h.length]; exact hend)]
          exact hholds.text
        have hlength : (text ++ call.out).length = text.length + call.out.length :=
          length_append
        have hadvanced : (ConvertingServer.advance call.out.length
            { s with buffer := buffer }).state.bufferSize < options.maxBufferSize := hsize
        rw [if_pos hadvanced, if_neg (by simpa using hrest)]
        rcases ih hgrown (hlength ▸ hmore hsize) with ⟨t, ht, hholds', hle⟩ | hfailed
        · exact .inl ⟨t, ht, append_assoc _ _ _ ▸ hholds', hdoubled.trans hle⟩
        · exact .inr hfailed
      · have hadvanced : ¬(ConvertingServer.advance call.out.length
            { s with buffer := buffer }).state.bufferSize < options.maxBufferSize := hsize
        right
        rw [if_neg hadvanced]
        exact ⟨_, rfl⟩

theorem fetchFromBuf_empty {padded : Bool} {n : Nat} (encoding : Bool) (addr : Nat)
    (rawSize : List UInt8 → Nat) (flushTheRest : Bool)
    (h : usub32 s.state.pendingBufferEnd s.state.pendingBufferPos = 0) :
    BufferedKind.fetchFromBuf (recordKind padded n) encoding addr rawSize s flushTheRest =
      some (none, s.resetBuffer) := by
  cases padded with
  | false => exact if_pos h
  | true => exact if_pos h

theorem Holds.fetchFromBuf {padded : Bool} {n : Nat} (h : Holds text s) (hne : text ≠ [])
    (encoding : Bool) (addr : Nat) (rawSize : List UInt8 → Nat) (flushTheRest : Bool) :
    BufferedKind.fetchFromBuf (recordKind padded n) encoding addr rawSize s flushTheRest =
      some (some (recordMessage padded text),
        { s with state := { s.state with pendingBufferPos := s.state.pendingBufferEnd } }) := by
  have hbytes : s.bytesAt 0 text.length = some text := by
    rw [bytesAt, Nat.zero_add, if_pos (h.length ▸ h.fits), h.text]
  have hlen : ¬text.length = 0 := fun hzero => hne (length_eq_zero_iff.mp hzero)
  cases padded with
  | false =>
    show BufferedKind.wholeFromBuf s = _
    rw [BufferedKind.wholeFromBuf, h.bufferBytes, if_neg hlen, h.pos, takeAll, hbytes]
    rfl
  | true =>
    show BufferedKind.paddedFromBuf addr n s = _
    rw [BufferedKind.paddedFromBuf, h.bufferBytes, if_neg hlen, h.pos,
      LogProtoRecordServer.paddedFetchFromBuf_eq hbytes]
    rfl

end

/-! ## A fetch -/

/-- Between two fetches there is nothing in the buffer, which has not been allocated yet, or is as large
as it was or larger. -/
structure Idle (options : LogProtoServerOptions) (s : ConvertingServer) : Prop where
  status : s.server.status = .success
  leftover : s.rawBufferLeftover = []
  empty : s.server.state.pendingBufferEnd = s.server.state.pendingBufferPos
  small : s.server.state.pendingBufferEnd < 2 ^ 31
  sized : s.server.buffer ≠ [] → s.server.buffer.length = s.server.state.bufferSize ∧
    options.initBufferSize ≤ s.server.state.bufferSize ∧ s.server.state.bufferSize < 2 ^ 31 ∧
    (s.encoding = false → s.server.state.bufferSize = options.initBufferSize)

def sizeOf (options : LogProtoServerOptions) (self : ConvertingServer) : Nat :=
  if self.server.buffer = [] then options.initBufferSize else self.server.state.bufferSize

section

variable {options : LogProtoServerOptions} {self : ConvertingServer} {junk : UInt8}

theorem Idle.reset (h : Idle options self) (hinit : options.initBufferSize < 2 ^ 31) :
    Holds [] (self.server.allocate options junk).resetBuffer ∧
      (self.server.allocate options junk).resetBuffer.state.bufferSize = sizeOf options self ∧
      options.initBufferSize ≤ sizeOf options self ∧
      (self.encoding = false → sizeOf options self = options.initBufferSize) := by
  have hreset : ∀ s : LogProtoTextServer, s.status = .success → s.buffer.length = s.state.bufferSize →
      s.state.bufferSize < 2 ^ 31 → Holds [] s.resetBuffer := by
    intro s hstatus hlen hsmall
    unfold resetBuffer
    split
    · exact ⟨hstatus, hlen, hsmall, rfl, rfl, Nat.zero_le _, rfl⟩
    · exact ⟨hstatus, hlen, hsmall, rfl, rfl, Nat.zero_le _, rfl⟩
  have hsize : ∀ s : LogProtoTextServer, s.resetBuffer.state.bufferSize = s.state.bufferSize := by
    intro s
    unfold resetBuffer
    split
    · rfl
    · rfl
  rw [hsize]
  unfold sizeOf allocate
  by_cases hnil : self.server.buffer = []
  · rw [if_pos (by simp [hnil]), if_pos hnil]
    exact ⟨hreset _ h.status (length_replicate ..) hinit, rfl, Nat.le_refl _, fun _ => rfl⟩
  · obtain ⟨hlen, hle, hsmall, hplain⟩ := h.sized hnil
    rw [if_neg (by simp [hnil]), if_neg hnil]
    exact ⟨hreset _ h.status hlen hsmall, rfl, hle, hplain⟩

theorem Idle.nothing (h : Idle options self) :
    usub32 (self.server.allocate options junk).state.pendingBufferEnd
      (self.server.allocate options junk).state.pendingBufferPos = 0 := by
  have hsmall := h.small
  have hstate : (self.server.allocate options junk).state.pendingBufferEnd =
      self.server.state.pendingBufferEnd ∧
      (self.server.allocate options junk).state.pendingBufferPos =
        self.server.state.pendingBufferPos := by
    unfold allocate
    split
    · exact ⟨rfl, rfl⟩
    · exact ⟨rfl, rfl⟩
  rw [hstate.1, hstate.2, ← h.empty, usub32_of_le (Nat.le_refl _) (by omega), Nat.sub_self]

theorem Holds.idle {text : List UInt8} {s : LogProtoTextServer} (h : Holds text s)
    (hsize : options.initBufferSize ≤ s.state.bufferSize) {encoding : Bool}
    (hplain : encoding = false → s.state.bufferSize = options.initBufferSize) :
    Idle options ⟨{ s with state := { s.state with pendingBufferPos := s.state.pendingBufferEnd } },
      encoding, []⟩ := by
  have hsmall := h.small
  have hfits := h.fits
  refine ⟨h.status, rfl, rfl, ?_, fun _ => ⟨h.length, hsize, h.small, hplain⟩⟩
  show s.state.pendingBufferEnd < 2 ^ 31
  rw [h.pendingEnd]
  omega

theorem Holds.idle_nil {s : LogProtoTextServer} (h : Holds [] s)
    (hsize : options.initBufferSize ≤ s.state.bufferSize) {encoding : Bool}
    (hplain : encoding = false → s.state.bufferSize = options.initBufferSize) :
    Idle options ⟨s, encoding, []⟩ := by
  refine ⟨h.status, rfl, ?_, ?_, fun _ => ⟨h.length, hsize, h.small, hplain⟩⟩
  · show s.state.pendingBufferEnd = s.state.pendingBufferPos
    rw [h.pendingEnd, h.pos, length_nil]
  · show s.state.pendingBufferEnd < 2 ^ 31
    rw [h.pendingEnd]
    decide

end

/-! ## Reads -/

theorem logTransportRead_again {t rest : LogTransport} {n : Nat}
    (h : logTransportRead t n = (.again, rest)) : streamOf t = streamOf rest := by
  cases n with
  | zero => cases h
  | succ n =>
    cases t with
    | nil => cases h
    | cons e t =>
      cases e with
      | again =>
        cases h
        rfl
      | fail => cases h
      | data b bs =>
        rw [logTransportRead] at h
        cases hdrop : bs.drop n with
        | nil =>
          rw [hdrop] at h
          cases h
        | cons c cs =>
          rw [hdrop] at h
          cases h

section

variable {padded : Bool} {n : Nat} {options : LogProtoServerOptions} {s : LogProtoTextServer}

theorem readData_record {len : Nat} (hn : n ≤ len) (t : LogTransport) :
    (recordKind padded n).readData t len = some (match logTransportRead t n with
      | (.bytes bs, rest) => (if bs.length = n then .bytes bs else .error, rest)
      | read => read) := by
  have hsize : (recordKind padded n).recordSize = some n := by cases padded <;> rfl
  rw [BufferedKind.readData, hsize]
  dsimp only
  rw [if_neg (by omega)]
  rcases logTransportRead t n with ⟨result, rest⟩
  cases result <;> rfl

theorem Holds.room_record (h : Holds [] s) (hinit : options.initBufferSize < 2 ^ 31)
    (hn : n ≤ options.initBufferSize) {encoding : Bool}
    (hplain : encoding = false → s.state.bufferSize = options.initBufferSize) :
    n ≤ BufferedKind.room options ⟨s, encoding, []⟩ := by
  unfold BufferedKind.room
  cases encoding with
  | true => exact hn
  | false =>
    dsimp only
    rw [if_neg Bool.false_ne_true, h.room, length_nil, Nat.sub_zero, hplain rfl, if_pos hinit]
    exact hn

theorem Holds.addChunk_plain (h : Holds [] s) {r : List UInt8} (hr : r.length ≤ s.state.bufferSize)
    (kind : BufferedKind) (junk : UInt8) (calls : List IconvCall) :
    ∃ t, BufferedKind.addChunk kind options junk calls r ⟨s, false, []⟩ = some (some [], t) ∧
      Holds r t ∧ t.state.bufferSize = s.state.bufferSize := by
  have hfits : ([] : List UInt8).length + r.length ≤ s.state.bufferSize := by simpa using hr
  obtain ⟨buffer, hstore, hlen, hwindow⟩ := h.store hfits
  refine ⟨{ s with
    state := { s.state with
      pendingRawBufferSize := wrap32 (s.state.pendingRawBufferSize + r.length)
      pendingBufferEnd := s.state.pendingBufferEnd + (([] : List UInt8).length + r.length) }
    buffer := buffer }, ?_, ?_, rfl⟩
  · rw [BufferedKind.addChunk, if_neg Bool.false_ne_true]
    dsimp only
    rw [length_nil, Nat.add_zero, hstore]
    rfl
  · refine ⟨h.status, hlen.trans h.length, h.small, h.pos, ?_, hr, hwindow⟩
    show s.state.pendingBufferEnd + (([] : List UInt8).length + r.length) = r.length
    rw [h.pendingEnd, length_nil, Nat.zero_add, Nat.zero_add]

theorem Holds.addChunk_convert (h : Holds [] s) (hmax : options.maxBufferSize < 2 ^ 31)
    (kind : BufferedKind) (junk : UInt8) {calls : List IconvCall} (r : List UInt8) {text : List UInt8}
    (hcalls : ConvertsTo options s.state.bufferSize 0 calls text) :
    (∃ t, BufferedKind.addChunk kind options junk calls r ⟨s, true, []⟩ = some (some [], t) ∧
      Holds text t ∧ s.state.bufferSize ≤ t.state.bufferSize) ∨
    ∃ t, BufferedKind.addChunk kind options junk calls r ⟨s, true, []⟩ = some (none, t) := by
  have hcounted : Holds [] { s with state := { s.state with
      pendingRawBufferSize := wrap32 (s.state.pendingRawBufferSize + r.length) } } :=
    ⟨h.status, h.length, h.small, h.pos, h.pendingEnd, h.fits, h.text⟩
  rw [BufferedKind.addChunk, if_pos rfl]
  exact hcounted.convert hmax junk kind hcalls

theorem Holds.flushAtEnd (h : Holds [] s) (encoding : Bool) (addr : Nat) (rawSize : List UInt8 → Nat)
    (status : LogProtoStatus) :
    ∃ t, BufferedKind.flushAtEnd (recordKind padded n) addr rawSize ⟨s, encoding, []⟩ status =
      some (status, none, ⟨t, encoding, []⟩) ∧ t.status = status := by
  have hnothing : usub32 { s with status := status }.state.pendingBufferEnd
      { s with status := status }.state.pendingBufferPos = 0 := h.bufferBytes
  refine ⟨{ s with status := status }.resetBuffer, ?_, ?_⟩
  · rw [BufferedKind.flushAtEnd, fetchFromBuf_empty encoding addr rawSize true hnothing]
    rfl
  · unfold resetBuffer
    split
    · rfl
    · rfl

end

def recordText (encoding : Bool) (text : List UInt8 → List UInt8) (r : List UInt8) : List UInt8 :=
  if encoding then text r else r

/-- What a fetch comes back with: nothing so far, the message of the next record, or the end. -/
structure Fetched (padded : Bool) (n : Nat) (options : LogProtoServerOptions)
    (text : List UInt8 → List UInt8) (encoding : Bool) (before after : List UInt8)
    (status : LogProtoStatus) (msg : Option (List UInt8)) (server : ConvertingServer) : Prop where
  converting : server.encoding = encoding
  told : server.server.status = status
  ofSuccess : status = .success → Idle options server ∧
    ((msg = none ∧ after = before) ∨ ∃ r, r.length = n ∧ before = r ++ after ∧
      msg = some (recordMessage padded (recordText encoding text r)))
  ofFailure : status ≠ .success → msg = none

def NextConverts (n : Nat) (options : LogProtoServerOptions) (text : List UInt8 → List UInt8)
    (self : ConvertingServer) (env : TextEnv) : Prop :=
  self.encoding = true → ∀ r rest, logTransportRead env.transport n = (.bytes r, rest) →
    r.length = n → ConvertsTo options (sizeOf options self) 0 (env.iconvs.headD []) (text r)

section

variable {padded : Bool} {n : Nat} {options : LogProtoServerOptions}
  {text : List UInt8 → List UInt8} {self : ConvertingServer} {env : TextEnv}

theorem Idle.fetchRest (h : Idle options self) (hinit : options.initBufferSize < 2 ^ 31)
    (hmax : options.maxBufferSize < 2 ^ 31) (hn : n ≤ options.initBufferSize)
    (hconverts : NextConverts n options text self env)
    (htext : ∀ r rest, logTransportRead env.transport n = (.bytes r, rest) → r.length = n →
      recordText self.encoding text r ≠ []) (junk : UInt8) (addr : Nat) (rawSize : List UInt8 → Nat)
    (mayRead : Bool) :
    ∃ status msg server env', BufferedKind.fetchRest (recordKind padded n) options junk addr rawSize
        self mayRead env = some ((status, msg, server), env') ∧
      Fetched padded n options text self.encoding (streamOf env.transport)
        (streamOf env'.transport) status msg server := by
  obtain ⟨server, encoding, leftover⟩ := self
  obtain rfl : leftover = [] := h.leftover
  obtain ⟨hholds, hsize, hle, hplain⟩ := @Idle.reset options _ junk h hinit
  rw [BufferedKind.fetchRest, if_pos h.status, fetchFromBuf_empty encoding addr rawSize false h.nothing,
    bind_some]
  generalize (allocate options junk server).resetBuffer = s at hholds hsize
  dsimp only
  rw [← hsize] at hle hplain
  rw [BufferedKind.readLoopRest]
  have hidle := hholds.idle_nil hle hplain
  cases mayRead with
  | false =>
    exact ⟨_, _, _, _, rfl, rfl, hidle.status, fun _ => ⟨hidle, .inl ⟨rfl, rfl⟩⟩, fun _ => rfl⟩
  | true =>
    rw [readData_record (hholds.room_record hinit hn hplain)]
    simp only [Bool.not_true, Bool.false_eq_true, if_false, bind_some]
    have hend : ∀ status : LogProtoStatus, status ≠ .success → ∀ rest : LogTransport,
        ∃ status' msg server' env', (BufferedKind.flushAtEnd (recordKind padded n) addr rawSize
            ⟨s, encoding, []⟩ status).map (fun r => (r, TextEnv.mk rest env.iconvs)) =
              some ((status', msg, server'), env') ∧
          Fetched padded n options text encoding (streamOf env.transport)
            (streamOf env'.transport) status' msg server' := by
      intro status hstatus rest
      obtain ⟨t, ht, htstatus⟩ := @Holds.flushAtEnd padded n s hholds encoding addr rawSize status
      rw [ht]
      exact ⟨_, _, _, _, rfl, rfl, htstatus, fun hsuccess => absurd hsuccess hstatus, fun _ => rfl⟩
    cases hread : logTransportRead env.transport n with
    | mk result rest =>
      cases result with
      | again =>
        exact ⟨_, _, _, _, rfl, rfl, hidle.status,
          fun _ => ⟨hidle, .inl ⟨rfl, (logTransportRead_again hread).symm⟩⟩, fun _ => rfl⟩
      | error => exact hend .error (by decide) rest
      | eof => exact hend .eof (by decide) rest
      | bytes r =>
        by_cases hr : r.length = n
        · dsimp only
          rw [if_pos hr]
          dsimp only
          have hnonempty := htext r rest hread hr
          -- the text of the record is in the buffer, or the conversion has failed
          have hchunk : (∃ t, BufferedKind.addChunk (recordKind padded n) options junk
                (env.iconvs.headD []) r ⟨s, encoding, []⟩ = some (some [], t) ∧
                Holds (recordText encoding text r) t ∧ s.state.bufferSize ≤ t.state.bufferSize ∧
                (encoding = false → t.state.bufferSize = s.state.bufferSize)) ∨
              ∃ t, BufferedKind.addChunk (recordKind padded n) options junk
                (env.iconvs.headD []) r ⟨s, encoding, []⟩ = some (none, t) := by
            cases encoding with
            | false =>
              have hfits : r.length ≤ s.state.bufferSize := by
                rw [hplain rfl, hr]
                exact hn
              obtain ⟨t, ht, hrec, heq⟩ := @Holds.addChunk_plain options s hholds r hfits
                (recordKind padded n) junk (env.iconvs.headD [])
              exact .inl ⟨t, ht, hrec, Nat.le_of_eq heq.symm, fun _ => heq⟩
            | true =>
              have hcalls := hconverts rfl r rest hread hr
              rw [← hsize] at hcalls
              rcases hholds.addChunk_convert hmax (recordKind padded n) junk r hcalls with
                ⟨t, ht, hrec, hgrown⟩ | hfailed
              · exact .inl ⟨t, ht, hrec, hgrown, nofun⟩
              · exact .inr hfailed
          rcases hchunk with ⟨t, ht, hrec, hgrown, hsame⟩ | ⟨t, ht⟩
          · rw [ht, bind_some]
            dsimp only
            rw [hrec.fetchFromBuf hnonempty, bind_some]
            have hnext := hrec.idle (hle.trans hgrown) fun hfalse =>
              (hsame hfalse).trans (hplain hfalse)
            exact ⟨_, _, _, _, rfl, rfl, hnext.status,
              fun _ => ⟨hnext, .inr ⟨r, hr, logTransportRead_stream hread, rfl⟩⟩,
              fun hfailed => absurd rfl hfailed⟩
          · rw [ht, bind_some]
            exact ⟨_, _, _, _, rfl, rfl, rfl, nofun, fun _ => rfl⟩
        · dsimp only
          rw [if_neg hr]
          exact hend .error (by decide) rest

theorem Idle.fetchRest_short (h : Idle options self) (hinit : options.initBufferSize < 2 ^ 31)
    (hn : n ≤ options.initBufferSize) {r : List UInt8} {rest : LogTransport}
    (hread : logTransportRead env.transport n = (.bytes r, rest)) (hr : r.length ≠ n) (junk : UInt8)
    (addr : Nat) (rawSize : List UInt8 → Nat) :
    ∃ server, BufferedKind.fetchRest (recordKind padded n) options junk addr rawSize self true env =
      some ((.error, none, server), ⟨rest, env.iconvs⟩) := by
  obtain ⟨server, encoding, leftover⟩ := self
  obtain rfl : leftover = [] := h.leftover
  obtain ⟨hholds, hsize, -, hplain⟩ := @Idle.reset options _ junk h hinit
  rw [BufferedKind.fetchRest, if_pos h.status, fetchFromBuf_empty encoding addr rawSize false h.nothing,
    bind_some]
  generalize (allocate options junk server).resetBuffer = s at hholds hsize
  dsimp only
  rw [← hsize] at hplain
  rw [BufferedKind.readLoopRest, readData_record (hholds.room_record hinit hn hplain)]
  simp only [Bool.not_true, Bool.false_eq_true, if_false, bind_some, hread, if_neg hr]
  obtain ⟨t, ht, -⟩ := @Holds.flushAtEnd padded n s hholds encoding addr rawSize .error
  rw [ht]
  exact ⟨_, rfl⟩

end

/-! ## Every run -/

/-- A server, its input, the messages `fetch` has returned, and its last status. -/
structure RecordWorld where
  server : ConvertingServer
  env : TextEnv
  delivered : List (List UInt8)
  status : LogProtoStatus

inductive RecordOp where
  | fetch (junk : UInt8) (addr : Nat) (rawSize : List UInt8 → Nat) (mayRead : Bool)
  | queued

def recordStart (noMultiRead posTracking encoding : Bool) (env : TextEnv) : RecordWorld :=
  ⟨⟨{ logProtoTextServerNew noMultiRead with posTracking := posTracking }, encoding, []⟩, env, [],
    .success⟩

/-- A step of a reader; `none` is an assertion that fails, or a write outside the buffer. -/
def recordStep (padded : Bool) (n : Nat) (options : LogProtoServerOptions) (w : RecordWorld) :
    RecordOp → Option RecordWorld
  | .fetch junk addr rawSize mayRead =>
    (BufferedKind.fetchRest (recordKind padded n) options junk addr rawSize w.server mayRead
      w.env).map fun ((status, msg, server), env) => ⟨server, env, w.delivered ++ msg.toList, status⟩
  | .queued => some { w with server := w.server.queued }

/-- Every record that a run reads is a complete sequence of characters. -/
def RunConverts (padded : Bool) (n : Nat) (options : LogProtoServerOptions)
    (text : List UInt8 → List UInt8) : RecordWorld → List RecordOp → Prop
  | _, [] => True
  | w, op :: ops => NextConverts n options text w.server w.env ∧
      ∀ t, recordStep padded n options w op = some t → RunConverts padded n options text t ops

/-- The messages of the records of a stream, as many as a server has delivered. -/
structure Framed (padded : Bool) (n : Nat) (encoding : Bool) (text : List UInt8 → List UInt8)
    (stream : List UInt8) (delivered : List (List UInt8)) : Prop where
  records : delivered = (List.range delivered.length).map fun k =>
    recordMessage padded (recordText encoding text (recordAt n stream k))
  whole : delivered.length * n ≤ stream.length

/-- A read that finds less than a record is an error. -/
def ShortReadTold (padded : Bool) (n : Nat) (options : LogProtoServerOptions) (w : RecordWorld) :
    Prop :=
  w.server.server.status = .success → ∀ r rest, logTransportRead w.env.transport n = (.bytes r, rest) →
    r.length ≠ n → ∀ junk addr rawSize,
      ∃ t, recordStep padded n options w (.fetch junk addr rawSize true) = some t ∧
        t.status = .error ∧ t.delivered = w.delivered

/-- Records fit into the buffer as it is at first, and there is text in each of them. -/
structure RecordsFit (n : Nat) (options : LogProtoServerOptions) (encoding : Bool)
    (text : List UInt8 → List UInt8) (stream : List UInt8) : Prop where
  size : n ≤ options.initBufferSize
  text : encoding = true → ∀ k, (k + 1) * n ≤ stream.length → text (recordAt n stream k) ≠ []

structure RecordInv (padded : Bool) (n : Nat) (options : LogProtoServerOptions) (encoding : Bool)
    (text : List UInt8 → List UInt8) (stream : List UInt8) (w : RecordWorld) : Prop where
  converting : w.server.encoding = encoding
  ahead : w.server.server.status = .success → Idle options w.server ∧
    streamOf w.env.transport = stream.drop (w.delivered.length * n)
  framed : Framed padded n encoding text stream w.delivered

section

variable {padded : Bool} {n : Nat} {options : LogProtoServerOptions} {encoding : Bool}
  {text : List UInt8 → List UInt8} {stream : List UInt8} {w t : RecordWorld}

theorem RecordInv.start (options : LogProtoServerOptions) (text : List UInt8 → List UInt8)
    (noMultiRead posTracking : Bool) (env : TextEnv) :
    RecordInv padded n options encoding text (streamOf env.transport)
      (recordStart noMultiRead posTracking encoding env) where
  converting := rfl
  ahead _ := by
    refine ⟨⟨rfl, rfl, rfl, Nat.two_pow_pos 31, fun hne => absurd rfl hne⟩, ?_⟩
    show _ = (streamOf env.transport).drop (0 * n)
    rw [Nat.zero_mul, drop_zero]
    rfl
  framed := ⟨rfl, by
    show 0 * n ≤ _
    omega⟩

theorem Idle.queued {self : ConvertingServer} (h : Idle options self) : Idle options self.queued := by
  have hqueued : self.server.queued.status = self.server.status ∧
      self.server.queued.buffer = self.server.buffer ∧
      self.server.queued.state.bufferSize = self.server.state.bufferSize ∧
      self.server.queued.state.pendingBufferEnd = 0 ∧
      self.server.queued.state.pendingBufferPos = 0 := by
    unfold LogProtoTextServer.queued
    dsimp only
    simp only [if_pos h.empty.symm, true_and]
    split
    · exact ⟨rfl, rfl, rfl⟩
    · exact ⟨rfl, rfl, rfl⟩
  obtain ⟨hstatus, hbuffer, hsize, hend, hpos⟩ := hqueued
  refine ⟨hstatus.trans h.status, h.leftover, hend.trans hpos.symm, ?_, ?_⟩
  · show self.server.queued.state.pendingBufferEnd < _
    rw [hend]
    decide
  · show self.server.queued.buffer ≠ [] → self.server.queued.buffer.length = _ ∧ _
    rw [hbuffer]
    show _ → _ = self.server.queued.state.bufferSize ∧ _ ≤ self.server.queued.state.bufferSize ∧
      self.server.queued.state.bufferSize < _ ∧ (_ → self.server.queued.state.bufferSize = _)
    rw [hsize]
    exact h.sized

theorem recordAt_next {k : Nat} {r after : List UInt8} (hr : r.length = n)
    (h : stream.drop (k * n) = r ++ after) :
    recordAt n stream k = r ∧ after = stream.drop ((k + 1) * n) ∧ (0 < n → (k + 1) * n ≤ stream.length) := by
  have hdrop : stream.drop ((k + 1) * n) = (r ++ after).drop n := by
    rw [← h, drop_drop, Nat.succ_mul]
  refine ⟨?_, ?_, fun hn => ?_⟩
  · rw [recordAt, h, ← hr, take_left]
  · rw [hdrop, ← hr, drop_left]
  · have hlen := congrArg List.length h
    rw [length_drop, length_append, hr] at hlen
    rw [Nat.succ_mul]
    omega

theorem Framed.next {delivered : List (List UInt8)} (h : Framed padded n encoding text stream delivered)
    (hwhole : (delivered.length + 1) * n ≤ stream.length) :
    Framed padded n encoding text stream (delivered ++
      [recordMessage padded (recordText encoding text (recordAt n stream delivered.length))]) := by
  refine ⟨?_, ?_⟩
  · rw [length_append, length_singleton, range_succ, map_append, ← h.records]
    rfl
  · rw [length_append, length_singleton]
    exact hwhole

theorem logTransportRead_zero {transport rest : LogTransport} {r : List UInt8} :
    logTransportRead transport 0 ≠ (.bytes r, rest) := by
  unfold logTransportRead
  nofun

theorem RecordInv.fetched (h : RecordInv padded n options encoding text stream w)
    (hstatus : w.server.server.status = .success) (hinit : options.initBufferSize < 2 ^ 31)
    (hmax : options.maxBufferSize < 2 ^ 31) (hfit : RecordsFit n options encoding text stream)
    (hconverts : NextConverts n options text w.server w.env) (junk : UInt8) (addr : Nat)
    (rawSize : List UInt8 → Nat) (mayRead : Bool) :
    ∃ status msg server env', BufferedKind.fetchRest (recordKind padded n) options junk addr rawSize
        w.server mayRead w.env = some ((status, msg, server), env') ∧
      Fetched padded n options text encoding (stream.drop (w.delivered.length * n))
        (streamOf env'.transport) status msg server := by
  obtain ⟨hidle, hahead⟩ := h.ahead hstatus
  have htext : ∀ r rest, logTransportRead w.env.transport n = (.bytes r, rest) → r.length = n →
      recordText w.server.encoding text r ≠ [] := by
    intro r rest hread hr
    have hpos : 0 < n := by
      rcases Nat.eq_zero_or_pos n with hzero | hpos
      · rw [hzero] at hread
        exact absurd hread logTransportRead_zero
      · exact hpos
    rw [h.converting]
    unfold recordText
    split
    · rename_i hencoding
      obtain ⟨hrecord, -, hwhole⟩ := recordAt_next hr
        (hahead.symm.trans (logTransportRead_stream hread))
      exact hrecord ▸ hfit.text hencoding _ (hwhole hpos)
    · intro hnil
      rw [hnil] at hr
      exact absurd hr (by simp only [length_nil]; omega)
  obtain ⟨status, msg, server, env', hfetch, hfetched⟩ :=
    hidle.fetchRest hinit hmax hfit.size hconverts htext junk addr rawSize mayRead
  rw [h.converting, hahead] at hfetched
  exact ⟨status, msg, server, env', hfetch, hfetched⟩

theorem RecordInv.step (h : RecordInv padded n options encoding text stream w)
    (hinit : options.initBufferSize < 2 ^ 31) (hmax : options.maxBufferSize < 2 ^ 31)
    (hfit : RecordsFit n options encoding text stream)
    (hconverts : NextConverts n options text w.server w.env) (op : RecordOp) :
    ∃ t, recordStep padded n options w op = some t ∧ RecordInv padded n options encoding text stream t := by
  cases op with
  | queued =>
    refine ⟨_, rfl, h.converting, fun hstatus => ?_, h.framed⟩
    obtain ⟨hidle, hahead⟩ := h.ahead hstatus
    exact ⟨hidle.queued, hahead⟩
  | fetch junk addr rawSize mayRead =>
    by_cases hstatus : w.server.server.status = .success
    · obtain ⟨status, msg, server, env', hfetch, hfetched⟩ :=
        h.fetched hstatus hinit hmax hfit hconverts junk addr rawSize mayRead
      refine ⟨⟨server, env', w.delivered ++ msg.toList, status⟩, ?_, ?_⟩
      · rw [recordStep, hfetch]
        rfl
      · by_cases hsuccess : status = .success
        · obtain ⟨hidle, ⟨rfl, hafter⟩ | ⟨r, hr, hbefore, rfl⟩⟩ := hfetched.ofSuccess hsuccess
          · refine ⟨hfetched.converting, fun _ => ⟨hidle, ?_⟩, ?_⟩
            · show streamOf env'.transport = stream.drop ((w.delivered ++ []).length * n)
              rw [append_nil, hafter]
            · show Framed padded n encoding text stream (w.delivered ++ [])
              rw [append_nil]
              exact h.framed
          · obtain ⟨hrecord, hafter, hwhole⟩ := recordAt_next hr hbefore
            have hlen : (w.delivered.length + 1) * n ≤ stream.length := by
              rcases Nat.eq_zero_or_pos n with rfl | hpos
              · exact Nat.zero_le _
              · exact hwhole hpos
            refine ⟨hfetched.converting, fun _ => ⟨hidle, ?_⟩, ?_⟩
            · show streamOf env'.transport = stream.drop ((w.delivered ++ [_]).length * n)
              rw [length_append, length_singleton, hafter]
            · rw [← hrecord]
              exact h.framed.next hlen
        · obtain rfl : msg = none := hfetched.ofFailure hsuccess
          refine ⟨hfetched.converting, fun hserver => ?_, ?_⟩
          · exact absurd (hfetched.told.symm.trans hserver) hsuccess
          · show Framed padded n encoding text stream (w.delivered ++ [])
            rw [append_nil]
            exact h.framed
    · refine ⟨⟨w.server, w.env, w.delivered ++ [], w.server.server.status⟩, ?_, h.converting,
        fun hserver => absurd hserver hstatus, ?_⟩
      · rw [recordStep, BufferedKind.fetchRest, if_neg hstatus]
        rfl
      · rw [append_nil]
        exact h.framed

theorem RecordInv.shortRead (h : RecordInv padded n options encoding text stream w)
    (hinit : options.initBufferSize < 2 ^ 31) (hfits : n ≤ options.initBufferSize) :
    ShortReadTold padded n options w := by
  intro hstatus r rest hread hr junk addr rawSize
  obtain ⟨hidle, -⟩ := h.ahead hstatus
  obtain ⟨server, hserver⟩ := hidle.fetchRest_short hinit hfits hread hr junk addr rawSize
  refine ⟨⟨server, ⟨rest, w.env.iconvs⟩, w.delivered ++ [], .error⟩, ?_, rfl, append_nil _⟩
  rw [recordStep, hserver]
  rfl

theorem RecordInv.run {ops : List RecordOp} (h : RecordInv padded n options encoding text stream w)
    (hinit : options.initBufferSize < 2 ^ 31) (hmax : options.maxBufferSize < 2 ^ 31)
    (hfit : RecordsFit n options encoding text stream)
    (hconverts : RunConverts padded n options text w ops) :
    ∃ t, exec (recordStep padded n options) w ops = some t ∧
      RecordInv padded n options encoding text stream t := by
  induction ops generalizing w with
  | nil => exact ⟨w, rfl, h⟩
  | cons op ops ih =>
    obtain ⟨hnext, hrest⟩ := hconverts
    obtain ⟨u, hu, hinv⟩ := h.step hinit hmax hfit hnext op
    obtain ⟨t, ht, hinv'⟩ := ih hinv (hrest u hu)
    exact ⟨t, by rw [exec, hu, bind_some, ht], hinv'⟩

end

/-- **Where records fit into the first buffer and have a text, the k-th message is the k-th record.** -/
theorem records_framed (padded : Bool) (n : Nat) (options : LogProtoServerOptions)
    (noMultiRead posTracking encoding : Bool) (text : List UInt8 → List UInt8) (env : TextEnv)
    (ops : List RecordOp) (hinit : options.initBufferSize < 2 ^ 31)
    (hmax : options.maxBufferSize < 2 ^ 31)
    (hconverts : RunConverts padded n options text (recordStart noMultiRead posTracking encoding env) ops)
    (hfit : RecordsFit n options encoding text (streamOf env.transport)) :
    ∃ w, exec (recordStep padded n options) (recordStart noMultiRead posTracking encoding env) ops =
        some w ∧
      Framed padded n encoding text (streamOf env.transport) w.delivered ∧
      ShortReadTold padded n options w := by
  have hstart := @RecordInv.start padded n encoding options text noMultiRead posTracking env
  obtain ⟨w, hrun, hinv⟩ := hstart.run hinit hmax hfit hconverts
  exact ⟨w, hrun, hinv.framed, hinv.shortRead hinit hfit.size⟩

/-- Two records that come in one chunk. -/
def twoRecords : TextEnv :=
  ⟨[.data 97 [0, 98, 99]], [[⟨[97, 0], [], .ok⟩], [⟨[98, 99], [], .ok⟩]]⟩

def recordBuffers : LogProtoServerOptions := ⟨4, 24, 4⟩

/-- A fetch of a reader. -/
def fetchRecord : RecordOp := .fetch 0 0 List.length true

theorem twoRecords_convert :
    RunConverts true 2 recordBuffers id
    (recordStart false false true twoRecords) [fetchRecord, fetchRecord] := by
  refine ⟨fun _ r rest hread _ => ?_, fun t ht => ⟨fun _ r rest hread _ => ?_, fun _ _ => trivial⟩⟩
  · cases hread
    exact ⟨by decide, .inl ⟨rfl, rfl, rfl⟩⟩
  · obtain rfl := Option.some.inj ht
    cases hread
    exact ⟨by decide, .inl ⟨rfl, rfl, rfl⟩⟩

theorem records_framed_two :
    ∃ w, exec (recordStep true 2 recordBuffers) (recordStart false false true twoRecords)
        [fetchRecord, fetchRecord] = some w ∧
      Framed true 2 true id (streamOf twoRecords.transport) w.delivered ∧
      ShortReadTold true 2 recordBuffers w := by
  refine records_framed true 2 recordBuffers false false true id twoRecords [fetchRecord, fetchRecord]
    (by decide) (by decide) twoRecords_convert ⟨by decide, fun _ k hk hnil => ?_⟩
  have hlen := congrArg List.length hnil
  have hstream : (streamOf twoRecords.transport).length = 4 := rfl
  rw [hstream] at hk
  rw [id, recordAt, length_take, length_drop, hstream, length_nil] at hlen
  omega

/-- A record that the largest buffer has room for. -/
def largeRecord : TextEnv :=
  ⟨[.data 97 [98, 99, 100, 101]], [[⟨[97, 98, 99, 100], [101], .full⟩, ⟨[101], [], .ok⟩]]⟩

/-- **The options are taken, the record is complete, and the assertion fails.** -/
theorem large_record_asserts :
    validateOptions recordBuffers 5 = true ∧
      RunConverts false 5 recordBuffers id (recordStart false false true largeRecord)
        [fetchRecord] ∧
      exec (recordStep false 5 recordBuffers) (recordStart false false true largeRecord)
        [fetchRecord] = none := by
  refine ⟨rfl, ⟨fun _ r rest hread _ => ?_, fun _ _ => trivial⟩, rfl⟩
  cases hread
  exact ⟨by decide, .inr ⟨rfl, by decide, [101], rfl, fun _ =>
    ⟨by decide, .inl ⟨rfl, rfl, rfl⟩⟩⟩⟩

end SyslogNg.LogProto
