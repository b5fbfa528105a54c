import SyslogNg.LogProto.FramedDelivery

/-!
# The framed client (`lib/logproto-framed-client.c`, `lib/logproto-text-client.c`)

`log_proto_framed_client_post` sends a frame as two writes, the header and the payload. What the
transport does not take at once is kept in `partial` and written by later calls of
`log_proto_text_client_flush`; `next_state` is the state once it is out. `frame_hdr_buf` is only
written while nothing is kept, so `partialBuf` holds the bytes `partial` points to.

In every run the bytes on the wire and those kept make up the frames of the messages consumed so
far and, from the header on, of the message being sent (`Sending`).
-/

namespace SyslogNg.LogProto

open Lib List Option

/-- `LPFCS_FRAME_SEND` and `LPFCS_MESSAGE_SEND`. -/
inductive FramedClientState where
  | frameSend
  | messageSend
  deriving DecidableEq

/-- `LogProtoTextClient`; a `next_state` of -1 is `none`. -/
structure LogProtoTextClient where
  state : FramedClientState
  nextState : Option FramedClientState
  partialBuf : Option (List UInt8)
  partialLen : Nat
  partialPos : Nat
  deriving DecidableEq

def logProtoFramedClientNew : LogProtoTextClient where
  state := .frameSend
  nextState := none
  partialBuf := none
  partialLen := 0
  partialPos := 0

namespace LogProtoTextClient

/-- `log_proto_text_client_flush`. -/
def flush (self : LogProtoTextClient) (transport : WriteTransport) :
    Option (LogProtoStatus × LogProtoTextClient × WriteTransport) :=
  match self.partialBuf with
  | none => some (.success, self, transport)
  | some buf =>
    let len := self.partialLen - self.partialPos
    if self.partialLen ≤ buf.length then
      match logTransportWrite transport (window buf self.partialPos self.partialLen) with
      | (.error, transport) => some (.error, self, transport)
      | (.again, transport) => some (.success, self, transport)
      | (.wrote rc, transport) =>
        if rc ≠ len then
          some (.success, { self with partialPos := self.partialPos + rc }, transport)
        else
          match self.nextState with
          | some state =>
            some (.success, { self with partialBuf := none, state := state, nextState := none },
              transport)
          | none => some (.success, { self with partialBuf := none }, transport)
    else none

/-- `log_proto_text_client_submit_write`; `none` is the failed assertion. -/
def submitWrite (self : LogProtoTextClient) (transport : WriteTransport) (msg : List UInt8)
    (msgLen : Nat) (nextState : Option FramedClientState) :
    Option (LogProtoStatus × LogProtoTextClient × WriteTransport) :=
  if self.partialBuf.isSome then none
  else flush { self with
    partialBuf := some msg
    partialLen := msgLen
    partialPos := 0
    nextState := nextState } transport

/-- What `g_snprintf` leaves in the nine bytes of `frame_hdr_buf`, without the final NUL. -/
def frameHdrBuf (msgLen : Nat) : List UInt8 := (decimal msgLen ++ [32]).take 8

/-- What `g_snprintf` returns. -/
def frameHdrLen (msgLen : Nat) : Nat := (decimal msgLen ++ [32]).length

/-- The loop of `log_proto_framed_client_post`. Three rounds are always enough
(`framedClientPost_spec`). -/
def postLoop (msg : List UInt8) (msgLen : Nat) : Nat → LogProtoStatus → Bool →
    LogProtoTextClient → WriteTransport →
    Option (LogProtoStatus × Bool × LogProtoTextClient × WriteTransport)
  | 0, _, _, _, _ => none
  | rounds + 1, rc, consumed, self, transport =>
    if rc = .success && !consumed && self.partialBuf.isNone then
      match self.state with
      | .frameSend =>
        (self.submitWrite transport (frameHdrBuf msgLen) (frameHdrLen msgLen)
            (some .messageSend)).bind fun (rc, self, transport) =>
          postLoop msg msgLen rounds rc consumed self transport
      | .messageSend =>
        (self.submitWrite transport msg msgLen (some .frameSend)).bind
          fun (rc, self, transport) => postLoop msg msgLen rounds rc true self transport
    else some (rc, consumed, self, transport)

/-- `log_proto_framed_client_post`, called with `*consumed` false: the status, `*consumed` and the
new state. -/
def framedClientPost (self : LogProtoTextClient) (transport : WriteTransport) (msg : List UInt8) :
    Option (LogProtoStatus × Bool × LogProtoTextClient × WriteTransport) :=
  let msgLen := if msg.length > 9999999 then 9999999 else msg.length
  postLoop msg msgLen 3 .success false self transport

variable {self : LogProtoTextClient} {transport : WriteTransport}

/-- `buf` is kept, with `partial_pos` bytes of it written. -/
structure Kept (c : LogProtoTextClient) (buf : List UInt8) : Prop where
  kept : c.partialBuf = some buf
  len : c.partialLen = buf.length
  pos : c.partialPos ≤ buf.length

theorem flush_kept {buf : List UInt8} (h : self.Kept buf) (hnf : .fail ∉ transport.script) :
    ∃ self' transport', self.flush transport = some (.success, self', transport') ∧
      .fail ∉ transport'.script ∧
      ((self'.partialBuf = none ∧ self'.state = self.nextState.getD self.state ∧
          transport'.wire = transport.wire ++ buf.drop self.partialPos) ∨
        (self'.Kept buf ∧ self'.nextState = self.nextState ∧
          transport'.wire ++ buf.drop self'.partialPos = transport.wire ++ buf.drop self.partialPos)) := by
  obtain ⟨hbuf, hlen, hpos⟩ := h
  have hwin : window buf self.partialPos buf.length = buf.drop self.partialPos := by
    rw [window, take_length]
  unfold flush
  simp only [hbuf, hwin, hlen, Nat.le_refl, if_true]
  rcases hscript : transport.script with _ | ⟨e, rest⟩
  · -- no write left
    simp only [logTransportWrite, hscript]
    exact ⟨_, _, rfl, by simp [hscript], .inr ⟨⟨hbuf, hlen, hpos⟩, rfl, rfl⟩⟩
  have hrest : .fail ∉ rest := fun hm => hnf (by rw [hscript]; exact mem_cons_of_mem _ hm)
  cases e with
  | fail => exact absurd (by rw [hscript]; exact mem_cons_self) hnf
  | again =>
    simp only [logTransportWrite, hscript]
    exact ⟨_, _, rfl, hrest, .inr ⟨⟨hbuf, hlen, hpos⟩, rfl, rfl⟩⟩
  | accept n =>
    simp only [logTransportWrite, hscript, length_take, length_drop]
    split
    · -- a short write
      refine ⟨_, _, rfl, hrest, .inr ⟨⟨rfl, rfl, ?_⟩, rfl, ?_⟩⟩
      · show self.partialPos + min n (buf.length - self.partialPos) ≤ buf.length
        omega
      · show transport.wire ++ List.take n _ ++
          List.drop (self.partialPos + min n (buf.length - self.partialPos)) buf = _
        rw [append_assoc, ← drop_drop, ← length_drop]
        congr 1
        rcases Nat.le_total n (buf.drop self.partialPos).length with hn | hn
        · rw [Nat.min_eq_left hn, take_append_drop]
        · rw [Nat.min_eq_right hn, take_of_length_le hn, drop_length, append_nil]
    · next hall =>
      have hn : (buf.drop self.partialPos).length ≤ n := by
        rw [length_drop]
        omega
      rw [take_of_length_le hn]
      cases self.nextState with
      | none => exact ⟨_, _, rfl, hrest, .inl ⟨rfl, rfl, rfl⟩⟩
      | some state => exact ⟨_, _, rfl, hrest, .inl ⟨rfl, rfl, rfl⟩⟩

/-- How far a client has come, with the messages `done` consumed and the first of `todo` being
posted: nothing is kept (before or after the header), or the header or the payload is. -/
inductive Sending (self : LogProtoTextClient) (wire : List UInt8) (done todo : List (List UInt8)) :
    Prop where
  | idle : self.partialBuf = none → self.state = .frameSend → wire = frames done →
      Sending self wire done todo
  | headerSent {msg : List UInt8} {rest : List (List UInt8)} : self.partialBuf = none →
      self.state = .messageSend → todo = msg :: rest →
      wire = frames done ++ (decimal msg.length ++ [32]) → Sending self wire done todo
  | headerKept {buf msg : List UInt8} {rest : List (List UInt8)} : self.Kept buf →
      self.nextState = some .messageSend → todo = msg :: rest →
      wire ++ buf.drop self.partialPos = frames done ++ (decimal msg.length ++ [32]) →
      Sending self wire done todo
  | payloadKept {buf : List UInt8} : self.Kept buf → self.nextState = some .frameSend →
      wire ++ buf.drop self.partialPos = frames done → Sending self wire done todo

theorem flush_sending {done todo : List (List UInt8)} (h : Sending self transport.wire done todo)
    (hnf : .fail ∉ transport.script) :
    ∃ self' transport', self.flush transport = some (.success, self', transport') ∧
      .fail ∉ transport'.script ∧ Sending self' transport'.wire done todo := by
  cases h with
  | idle hnone hstate hwire =>
    refine ⟨self, transport, ?_, hnf, .idle hnone hstate hwire⟩
    simp [flush, hnone]
  | headerSent hnone hstate htodo hwire =>
    refine ⟨self, transport, ?_, hnf, .headerSent hnone hstate htodo hwire⟩
    simp [flush, hnone]
  | headerKept hk hnext htodo hwire =>
    obtain ⟨self', transport', hf, hnf', ⟨hnone, hstate, hw⟩ | ⟨hk', hnext', hw⟩⟩ :=
      flush_kept hk hnf
    · rw [hnext] at hstate
      exact ⟨_, _, hf, hnf', .headerSent hnone hstate htodo (hw.trans hwire)⟩
    · exact ⟨_, _, hf, hnf', .headerKept hk' (hnext'.trans hnext) htodo (hw.trans hwire)⟩
  | payloadKept hk hnext hwire =>
    obtain ⟨self', transport', hf, hnf', ⟨hnone, hstate, hw⟩ | ⟨hk', hnext', hw⟩⟩ :=
      flush_kept hk hnf
    · rw [hnext] at hstate
      exact ⟨_, _, hf, hnf', .idle hnone hstate (hw.trans hwire)⟩
    · exact ⟨_, _, hf, hnf', .payloadKept hk' (hnext'.trans hnext) (hw.trans hwire)⟩

theorem submitWrite_eq_flush (hnone : self.partialBuf = none) (transport : WriteTransport)
    (msg : List UInt8) (nextState : Option FramedClientState) :
    ∃ kept : LogProtoTextClient,
      self.submitWrite transport msg msg.length nextState = kept.flush transport ∧
      kept.Kept msg ∧ kept.nextState = nextState ∧ kept.partialPos = 0 := by
  refine ⟨{ self with
    partialBuf := some msg
    partialLen := msg.length
    partialPos := 0
    nextState := nextState }, ?_, ⟨rfl, rfl, Nat.zero_le _⟩, rfl, rfl⟩
  simp [submitWrite, hnone]

theorem frames_append_singleton (done : List (List UInt8)) (msg : List UInt8) :
    frames (done ++ [msg]) = frames done ++ (decimal msg.length ++ [32]) ++ msg := by
  simp [frames, frame]

theorem postLoop_payload {done : List (List UInt8)} {msg : List UInt8} (rest : List (List UInt8))
    (rounds : Nat) (hnone : self.partialBuf = none) (hstate : self.state = .messageSend)
    (hwire : transport.wire = frames done ++ (decimal msg.length ++ [32]))
    (hnf : .fail ∉ transport.script) :
    ∃ self' transport', postLoop msg msg.length (rounds + 2) .success false self transport =
        some (.success, true, self', transport') ∧
      .fail ∉ transport'.script ∧ Sending self' transport'.wire (done ++ [msg]) rest := by
  obtain ⟨kept, hsub, hk, hnext, hpos⟩ :=
    submitWrite_eq_flush hnone transport msg (some .frameSend)
  have hsending : Sending kept transport.wire (done ++ [msg]) rest := by
    refine .payloadKept hk hnext ?_
    rw [hpos, drop_zero, hwire, frames_append_singleton]
  obtain ⟨self', transport', hf, hnf', hs'⟩ := flush_sending hsending hnf
  refine ⟨self', transport', ?_, hnf', hs'⟩
  rw [postLoop]
  simp only [hnone, hstate, hsub, hf, bind_some]
  rw [postLoop]
  simp

/-- **One post** leaves the message to be posted again, or consumes it with its frame on the wire
or kept. -/
theorem framedClientPost_spec {done rest : List (List UInt8)} {msg : List UInt8}
    (hlen : msg.length ≤ 9999999) (h : Sending self transport.wire done (msg :: rest))
    (hnf : .fail ∉ transport.script) :
    ∃ consumed self' transport',
      self.framedClientPost transport msg = some (.success, consumed, self', transport') ∧
      .fail ∉ transport'.script ∧
      if consumed then Sending self' transport'.wire (done ++ [msg]) rest
      else Sending self' transport'.wire done (msg :: rest) := by
  unfold framedClientPost
  rw [if_neg (show ¬ msg.length > 9999999 by omega)]
  cases h with
  | headerSent hnone hstate htodo hwire =>
    obtain ⟨rfl, rfl⟩ := List.cons.inj htodo
    obtain ⟨self', transport', hp, hnf', hs'⟩ :=
      postLoop_payload rest 1 hnone hstate hwire hnf
    exact ⟨true, _, _, hp, hnf', hs'⟩
  | headerKept hk hnext htodo hwire =>
    refine ⟨false, self, transport, ?_, hnf, .headerKept hk hnext htodo hwire⟩
    simp [postLoop, hk.kept]
  | payloadKept hk hnext hwire =>
    refine ⟨false, self, transport, ?_, hnf, .payloadKept hk hnext hwire⟩
    simp [postLoop, hk.kept]
  | idle hnone hstate hwire =>
    -- the first round submits the header, the second one the payload
    have hhdr : (decimal msg.length ++ [32]).length ≤ 8 := by
      have h7 : (decimal msg.length).length ≤ 7 := decimal_length_le (by decide) (by omega)
      rw [length_append, length_singleton]
      omega
    have hbuf : frameHdrBuf msg.length = decimal msg.length ++ [32] :=
      take_of_length_le hhdr
    obtain ⟨kept, hsub, hk, hnext, hpos⟩ :=
      submitWrite_eq_flush hnone transport (decimal msg.length ++ [32]) (some .messageSend)
    have hsending : Sending kept transport.wire done (msg :: rest) := by
      refine .headerKept hk hnext rfl ?_
      rw [hpos, drop_zero, hwire]
    obtain ⟨self', transport', hf, hnf', ⟨hnone', hstate', hw⟩ | ⟨hk', hnext', hw⟩⟩ :=
      flush_kept hk hnf
    · rw [hnext] at hstate'
      rw [hpos, drop_zero, hwire] at hw
      obtain ⟨self'', transport'', hp, hnf'', hs''⟩ :=
        postLoop_payload rest 0 hnone' hstate' hw hnf'
      refine ⟨true, self'', transport'', ?_, hnf'', hs''⟩
      rw [postLoop]
      simp only [hnone, hstate, hbuf, frameHdrLen, hsub, hf, bind_some]
      exact hp
    · rw [hpos, drop_zero, hwire] at hw
      refine ⟨false, self', transport', ?_, hnf', .headerKept hk' (hnext'.trans hnext) rfl hw⟩
      rw [postLoop]
      simp only [hnone, hstate, hbuf, frameHdrLen, hsub, hf, bind_some]
      rw [postLoop]
      simp [hk'.kept]

end LogProtoTextClient

/-! ## From the client to the server -/

structure ClientWorld where
  client : LogProtoTextClient
  transport : WriteTransport
  todo : List (List UInt8)

inductive ClientOp where
  | post
  | flush

def clientStart (msgs : List (List UInt8)) (script : List WriteEvent) : ClientWorld :=
  ⟨logProtoFramedClientNew, ⟨script, []⟩, msgs⟩

/-- The caller flushes, or posts the message at hand and goes on to the next one when it was
consumed. -/
def clientStep (w : ClientWorld) : ClientOp → Option ClientWorld
  | .flush => (w.client.flush w.transport).map fun (_, client, transport) =>
      ⟨client, transport, w.todo⟩
  | .post =>
    match w.todo with
    | [] => some w
    | msg :: rest =>
      (w.client.framedClientPost w.transport msg).map fun (_, consumed, client, transport) =>
        ⟨client, transport, if consumed then rest else msg :: rest⟩

structure ClientInv (msgs done : List (List UInt8)) (w : ClientWorld) : Prop where
  split : msgs = done ++ w.todo
  sending : w.client.Sending w.transport.wire done w.todo
  noFail : .fail ∉ w.transport.script

variable {msgs : List (List UInt8)}

theorem clientStep_inv {done : List (List UInt8)} {w : ClientWorld}
    (hmsgs : ∀ msg ∈ msgs, msg.length ≤ 9999999) (h : ClientInv msgs done w) (op : ClientOp) :
    ∃ w' done', clientStep w op = some w' ∧ ClientInv msgs done' w' := by
  obtain ⟨hsplit, hsend, hnf⟩ := h
  cases op with
  | flush =>
    obtain ⟨client, transport, hf, hnf', hsend'⟩ := LogProtoTextClient.flush_sending hsend hnf
    have hstep : clientStep w .flush = some ⟨client, transport, w.todo⟩ := by
      simp only [clientStep, hf, map_some]
    exact ⟨_, done, hstep, hsplit, hsend', hnf'⟩
  | post =>
    rcases htodo : w.todo with _ | ⟨msg, rest⟩
    · exact ⟨w, done, by simp only [clientStep, htodo], hsplit, hsend, hnf⟩
    have hlen : msg.length ≤ 9999999 := hmsgs msg (by rw [hsplit, htodo]; simp)
    rw [htodo] at hsend
    obtain ⟨consumed, client, transport, hp, hnf', hif⟩ :=
      LogProtoTextClient.framedClientPost_spec hlen hsend hnf
    have hstep : clientStep w .post =
        some ⟨client, transport, if consumed then rest else msg :: rest⟩ := by
      simp only [clientStep, htodo, hp, map_some]
    cases consumed with
    | true => exact ⟨_, done ++ [msg], hstep, by simp [hsplit, htodo], hif, hnf'⟩
    | false => exact ⟨_, done, hstep, by simp [hsplit, htodo], hif, hnf'⟩

theorem clientRun_inv (hmsgs : ∀ msg ∈ msgs, msg.length ≤ 9999999) (ops : List ClientOp)
    {done : List (List UInt8)} {w : ClientWorld} (h : ClientInv msgs done w) :
    ∃ w' done', exec clientStep w ops = some w' ∧ ClientInv msgs done' w' := by
  induction ops generalizing w done with
  | nil => exact ⟨w, done, rfl, h⟩
  | cons op ops ih =>
    obtain ⟨w1, done1, hstep, h1⟩ := clientStep_inv hmsgs h op
    obtain ⟨w', done', hex, h'⟩ := ih h1
    refine ⟨w', done', ?_, h'⟩
    rw [exec, hstep]
    exact hex

theorem ClientInv.wire {done : List (List UInt8)} {w : ClientWorld} (h : ClientInv msgs done w)
    (htodo : w.todo = []) (hnone : w.client.partialBuf = none) : w.transport.wire = frames msgs := by
  have hd := h.split
  rw [htodo, append_nil] at hd
  rw [hd]
  cases h.sending with
  | idle _ _ hwire => exact hwire
  | headerSent _ _ ht _ => rw [htodo] at ht; cases ht
  | headerKept _ _ ht _ => rw [htodo] at ht; cases ht
  | payloadKept hk _ _ => exact absurd (hnone.symm.trans hk.kept) (by simp)

/-- **Posted messages arrive**: whatever the transport does with the writes, once every message is
consumed and nothing is kept, the wire carries the frames in posting order; a server that takes
messages of that length returns exactly them, in every run in which no resize cuts off pending
bytes. -/
theorem framed_client_to_server (msgs : List (List UInt8))
    (hmsgs : ∀ msg ∈ msgs, 1 ≤ msg.length ∧ msg.length ≤ 9999999) (script : List WriteEvent)
    (hnf : .fail ∉ script) (ops : List ClientOp) :
    ∃ w, exec clientStep (clientStart msgs script) ops = some w ∧
      (w.todo = [] → w.client.partialBuf = none → w.transport.wire = frames msgs ∧
        ∀ options junk, ServerTakes options msgs →
          ∀ transport, Splits transport w.transport.wire →
          ∀ calls, RunKeeps options junk (framedStart transport) calls →
          ∃ v, exec (framedFetch options junk) (framedStart transport) calls = some v ∧
            v.Sound msgs ∧ (readsLeft transport + msgs.length ≤ calls.count true →
              v.delivered = msgs)) := by
  have hstart : ClientInv msgs [] (clientStart msgs script) := ⟨rfl, .idle rfl rfl rfl, hnf⟩
  obtain ⟨w, done, hex, hinv⟩ := clientRun_inv (fun msg hm => (hmsgs msg hm).2) ops hstart
  refine ⟨w, hex, ?_⟩
  intro htodo hnone
  have hwire := hinv.wire htodo hnone
  refine ⟨hwire, ?_⟩
  intro options junk hopt transport hs calls hkeep
  rw [hwire] at hs
  exact framedRun_delivers junk hopt hs hkeep

/-- Three messages through short writes: the header of the first one needs a flush, its payload
two. -/
theorem framed_client_to_server_three :
    ∃ w, exec clientStep
        (clientStart [[104, 105], [33], List.replicate 22 46]
          [.accept 1, .again, .accept 5, .accept 1, .accept 1, .accept 9, .accept 9, .accept 9, .accept 30])
        [.post, .flush, .flush, .post, .post, .flush, .post, .post] = some w ∧
      w.transport.wire = frames [[104, 105], [33], List.replicate 22 46] ∧
      ∃ v, exec (framedFetch ⟨40, 600, 16⟩ 0) (framedStart threeFrames) (List.replicate 42 true) =
        some v ∧ v.delivered = [[104, 105], [33], List.replicate 22 46] := by
  obtain ⟨w, hex, h⟩ := framed_client_to_server [[104, 105], [33], List.replicate 22 46] (by decide)
    [.accept 1, .again, .accept 5, .accept 1, .accept 1, .accept 9, .accept 9, .accept 9,
      .accept 30] (by decide) [.post, .flush, .flush, .post, .post, .flush, .post, .post]
  have hdone : ∀ w ∈ exec clientStep
      (clientStart [[104, 105], [33], List.replicate 22 46]
        [.accept 1, .again, .accept 5, .accept 1, .accept 1, .accept 9, .accept 9, .accept 9, .accept 30])
      [.post, .flush, .flush, .post, .post, .flush, .post, .post],
      w.todo = [] ∧ w.client.partialBuf = none := by
    decide +kernel
  obtain ⟨hwire, hserver⟩ := h (hdone w hex).1 (hdone w hex).2
  obtain ⟨v, hv, -, hd⟩ := hserver ⟨40, 600, 16⟩ 0
    ⟨by decide, by decide, by decide, by decide, by decide, by decide⟩ threeFrames
    (by rw [hwire]; exact ⟨by decide, by decide⟩) (List.replicate 42 true) (by decide +kernel)
  exact ⟨w, hex, hwire, v, hv, hd (by decide)⟩

/-- The frames of two posted messages make the server resize its full buffer of 256 bytes to 192
bytes, and the move that follows reads behind its end. -/
theorem posted_frames_shrink_buffer :
    (∃ w, exec clientStep (clientStart [List.replicate 249 46, [97, 98]] (.replicate 4 (.accept 300)))
        [.post, .post] = some w ∧ w.todo = [] ∧ w.client.partialBuf = none ∧
      Splits shrinkFrames w.transport.wire) ∧
    exec (framedFetch ⟨256, 1024, 256⟩ 0) (framedStart shrinkFrames) [true, true] = none := by
  have hrun : (exec clientStep (clientStart [List.replicate 249 46, [97, 98]] (.replicate 4 (.accept 300)))
      [.post, .post]).isSome := by
    decide +kernel
  have hend : ∀ w ∈ exec clientStep
      (clientStart [List.replicate 249 46, [97, 98]] (.replicate 4 (.accept 300))) [.post, .post],
      w.todo = [] ∧ w.client.partialBuf = none ∧ streamOf shrinkFrames = w.transport.wire := by
    decide +kernel
  obtain ⟨w, hw⟩ := isSome_iff_exists.1 hrun
  obtain ⟨htodo, hnone, hstream⟩ := hend w hw
  refine ⟨⟨w, hw, htodo, hnone, by decide +kernel, hstream⟩, ?_⟩
  have hnone : (exec (framedFetch ⟨256, 1024, 256⟩ 0) (framedStart shrinkFrames) [true, true]).isNone := by
    decide +kernel
  exact isNone_iff_eq_none.1 hnone

end SyslogNg.LogProto
