import SyslogNg.Lib.Decimal
import SyslogNg.Lib.Run
import SyslogNg.LogProto.FramedServer

/-!
# What the framed server delivers

The bytes not yet delivered are what is between `buffer_pos` and `buffer_end`, followed by what
the transport still holds. Every function of the server keeps that sequence, up to the header
or the payload it consumes; this is all the delivery proof needs. The one place where bytes get
lost is a resize to less than `buffer_end`: `ResizeKeeps` says that a resize is not of that kind.
-/

namespace SyslogNg.LogProto

open Lib List
open Option (bind_some map_some)

/-- The frame of one message: `LEN SP PAYLOAD`. -/
def frame (msg : List UInt8) : List UInt8 := decimal msg.length ++ 32 :: msg

/-- The stream that carries `msgs`. -/
def frames (msgs : List (List UInt8)) : List UInt8 := msgs.flatMap frame

theorem frames_cons (msg : List UInt8) (msgs : List (List UInt8)) :
    frames (msg :: msgs) = decimal msg.length ++ 32 :: (msg ++ frames msgs) := by
  simp [frames, frame]

namespace LogProtoFramedServer

variable {self : LogProtoFramedServer} {transport : LogTransport} {stream : List UInt8}

/-- `buffer_pos <= buffer_end <= buffer_size`, and `buffer_size` bytes are allocated. -/
structure Bounds (s : LogProtoFramedServer) : Prop where
  pos_le : s.bufferPos ≤ s.bufferEnd
  end_le : s.bufferEnd ≤ s.bufferSize
  length : s.buffer.length = s.bufferSize
  small : s.bufferSize < 2 ^ 31

/-- The bytes that are read but not yet delivered. -/
def pending (self : LogProtoFramedServer) : List UInt8 :=
  window self.buffer self.bufferPos self.bufferEnd

theorem Bounds.pending_length (hb : self.Bounds) :
    self.pending.length = self.bufferEnd - self.bufferPos := by
  have h1 := hb.end_le
  have h2 := hb.length
  rw [pending, window_length]
  omega

theorem Bounds.usub_end_pos (hb : self.Bounds) :
    usub32 self.bufferEnd self.bufferPos = self.bufferEnd - self.bufferPos := by
  have h1 := hb.end_le
  have h2 := hb.small
  exact usub32_of_le hb.pos_le (by omega)

/-- What `shift`, `fetch_data` and `extract_frame_length` leave alone. -/
structure SameFrame (s t : LogProtoFramedServer) : Prop where
  state : t.state = s.state
  frameLen : t.frameLen = s.frameLen
  bufferSize : t.bufferSize = s.bufferSize

theorem SameFrame.refl (self : LogProtoFramedServer) : self.SameFrame self := ⟨rfl, rfl, rfl⟩

/-- A shift moves what is pending to the start of the buffer. It needs what is pending to lie
inside the block, or nothing to be pending. -/
theorem shift_spec (hpos : self.bufferPos ≤ self.bufferEnd) (hend : self.bufferEnd < 2 ^ 31)
    (hblock : self.bufferEnd ≤ self.buffer.length ∨ self.bufferPos = self.bufferEnd)
    (hlen : self.buffer.length = self.bufferSize) (hsmall : self.bufferSize < 2 ^ 31) :
    ∃ self', self.shift = some self' ∧ self'.Bounds ∧ self'.pending = self.pending ∧
      self'.bufferPos = 0 ∧ self.SameFrame self' := by
  have hsub : usub32 self.bufferEnd self.bufferPos = self.bufferEnd - self.bufferPos :=
    usub32_of_le hpos (by omega)
  have hsome : (moveToStart self.buffer self.bufferPos (self.bufferEnd - self.bufferPos)).isSome := by
    rcases hblock with h | h
    · exact moveToStart_isSome (by omega)
    · simp [h, moveToStart]
  obtain ⟨buffer, hbuf⟩ := Option.isSome_iff_exists.1 hsome
  have hwin := window_moveToStart hbuf
  have hl := moveToStart_length hbuf
  unfold shift
  rw [hsub, hbuf]
  refine ⟨_, rfl, ⟨Nat.zero_le _, ?_, hl.trans hlen, hsmall⟩, ?_, rfl, ⟨rfl, rfl, rfl⟩⟩
  · show self.bufferEnd - self.bufferPos ≤ self.bufferSize
    rcases hblock with h | h <;> omega
  · show window buffer 0 (self.bufferEnd - self.bufferPos) = _
    rw [hwin, pending, Nat.add_sub_cancel' hpos]

theorem makeSpace_spec (hb : self.Bounds) :
    ∃ self', self.makeSpace = some self' ∧ self'.Bounds ∧ self'.pending = self.pending ∧
      self'.bufferPos ≤ self.bufferPos ∧
      (self.pending.length < self.bufferSize → self'.bufferEnd < self'.bufferSize) ∧ self.SameFrame self' := by
  obtain ⟨h1, h2, h3, h4⟩ := hb
  have hpl := Bounds.pending_length ⟨h1, h2, h3, h4⟩
  unfold makeSpace
  by_cases he : self.bufferPos = self.bufferEnd
  · -- nothing is pending: both offsets go back to the start
    have hp : self.pending = [] := window_of_le _ (Nat.le_of_eq he.symm)
    simp only [he, if_true]
    split
    · next hz =>
      obtain ⟨self', hs, hb', hp', hpos, hsame⟩ :=
        @shift_spec { self with bufferPos := 0, bufferEnd := 0 } (Nat.le_refl _)
          (Nat.two_pow_pos 31) (.inr rfl) h3 h4
      refine ⟨self', hs, hb', ?_, by omega, ?_, ⟨hsame.1, hsame.2, hsame.3⟩⟩
      · rw [hp', hp]
        simp [pending]
      · intro hlt
        omega
    · next hz =>
      refine ⟨_, rfl, ⟨Nat.le_refl _, Nat.zero_le _, h3, h4⟩, ?_, Nat.zero_le _, ?_, ⟨rfl, rfl, rfl⟩⟩
      · rw [hp]
        simp [pending]
      · intro _
        show 0 < self.bufferSize
        omega
  · simp only [he, if_false]
    split
    · next hfull =>
      obtain ⟨self', hs, hb', hp', hpos, hsame⟩ := shift_spec h1 (by omega) (.inl (by omega)) h3 h4
      refine ⟨self', hs, hb', hp', by omega, ?_, hsame⟩
      intro hlt
      have hpl' := hb'.pending_length
      rw [hp'] at hpl'
      have hsz := hsame.bufferSize
      omega
    · next hfull =>
      exact ⟨self, rfl, ⟨h1, h2, h3, h4⟩, rfl, Nat.le_refl _, fun _ => by omega, .refl _⟩

/-- **What `fetch_data` does** when there is room in the buffer: the undelivered bytes stay the
same, the end of the file is only reported when the transport has nothing left, and every read
makes progress. -/
theorem fetchData_spec (hb : self.Bounds) (hs : Splits transport stream)
    (hroom : self.pending.length < self.bufferSize) (mayRead : Bool) :
    ∃ status self' transport' stream',
      self.fetchData transport mayRead = some (status, self', transport') ∧
      status ≠ .error ∧ (status = .eof → transport = []) ∧ self'.Bounds ∧ Splits transport' stream' ∧
      self'.pending ++ stream' = self.pending ++ stream ∧
      self'.bufferPos ≤ self.bufferPos ∧ self.SameFrame self' ∧
      readsLeft transport' ≤ readsLeft transport ∧
      (mayRead → status = .success → readsLeft transport' < readsLeft transport) := by
  obtain ⟨sp, hsp, hb', hp', hpos', hfree, hsame⟩ := makeSpace_spec hb
  have hfree := hfree hroom
  have hsub : usub32 sp.bufferSize sp.bufferEnd = sp.bufferSize - sp.bufferEnd :=
    usub32_of_le hb'.end_le (by have := hb'.small; omega)
  unfold fetchData
  rw [hsp, bind_some, hsub]
  cases mayRead with
  | false =>
    exact ⟨_, _, _, stream, rfl, by simp, by simp, hb', hs, by rw [hp'], hpos', hsame,
      Nat.le_refl _, by simp⟩
  | true =>
    have hread := logTransportRead_step hs (show 0 < sp.bufferSize - sp.bufferEnd by omega)
    revert hread
    generalize logTransportRead transport (sp.bufferSize - sp.bufferEnd) = r
    obtain ⟨result, rest⟩ := r
    intro hread
    cases hread with
    | eof hstream htr =>
      subst hstream htr
      exact ⟨_, _, _, [], rfl, by simp, by simp, hb', hs, by rw [hp'], hpos', hsame,
        Nat.le_refl _, by simp⟩
    | again hs' hlt =>
      exact ⟨_, _, _, stream, rfl, by simp, by simp,
        ⟨hb'.pos_le, hb'.end_le, hb'.length, hb'.small⟩, hs', by rw [← hp']; rfl, hpos',
        ⟨hsame.1, hsame.2, hsame.3⟩, Nat.le_of_lt hlt, fun _ _ => hlt⟩
    | bytes hne hle hstream hs' hlt =>
      next bs stream' =>
      have hbs := hb'.end_le
      have hbl := hb'.length
      have hsm := hb'.small
      have hst : store sp.buffer sp.bufferEnd bs = _ := store_isSome (by omega)
      have hend : (sp.bufferEnd + bs.length) % 2 ^ 32 = sp.bufferEnd + bs.length := by omega
      simp only [hst, map_some, hend]
      refine ⟨_, _, _, stream', rfl, by simp, by simp,
        ⟨?_, ?_, (store_length hst).trans hbl, hsm⟩, hs', ?_, hpos', ⟨hsame.1, hsame.2, hsame.3⟩,
        Nat.le_of_lt hlt, fun _ _ => hlt⟩
      · show sp.bufferPos ≤ sp.bufferEnd + bs.length
        have := hb'.pos_le
        omega
      · show sp.bufferEnd + bs.length ≤ sp.bufferSize
        omega
      · have hwin := window_store hb'.pos_le hst
        rw [← hp', hstream, ← append_assoc]
        exact congrArg (· ++ stream') hwin

/-! ## The frame header -/

theorem isdigit_iff {c : UInt8} : isdigit c = true ↔ 48 ≤ c.toNat ∧ c.toNat ≤ 57 := by
  simp [isdigit, UInt8.le_iff_toNat_le]

/-- The digits of a frame header. -/
structure HeaderDigits (digits : List UInt8) : Prop where
  short : digits.length ≤ 10
  digit : ∀ c ∈ digits, isdigit c

theorem HeaderDigits.of_decimal {n : Nat} (hn : n < 2 ^ 32) : HeaderDigits (decimal n) :=
  ⟨decimal_length_le (by decide) (by omega), fun _ hc => isdigit_iff.2 (decimal_digit hc)⟩

theorem HeaderDigits.of_append {ds es : List UInt8} (h : HeaderDigits (ds ++ es)) : HeaderDigits ds := by
  refine ⟨?_, fun c hc => h.digit c (mem_append_left _ hc)⟩
  have hlen := h.short
  rw [length_append] at hlen
  omega

theorem scanHeader_digits {buffer : List UInt8} {bufferPos : Nat} {ds more : List UInt8} {n i acc : Nat}
    (hdrop : buffer.drop i = ds ++ more) (hds : ∀ c ∈ ds, isdigit c) (hi : bufferPos ≤ i)
    (hsmall : i + ds.length < 2 ^ 32) (hlen : i - bufferPos + ds.length ≤ 10) :
    scanHeader buffer bufferPos (ds.length + n) i (acc % 2 ^ 32) =
      scanHeader buffer bufferPos n (i + ds.length) (readDecimal acc ds % 2 ^ 32) := by
  induction ds generalizing i acc with
  | nil => simp [readDecimal]
  | cons c ds ih =>
    have hc : buffer[i]? = some c := by
      have h : (buffer.drop i)[0]? = buffer[i + 0]? := getElem?_drop
      rw [hdrop] at h
      simpa using h.symm
    have hnext : buffer.drop (i + 1) = ds ++ more := by
      rw [← drop_drop, hdrop]
      rfl
    simp only [length_cons] at hlen hsmall
    have hmod : (acc % 2 ^ 32 * 10 + (c.toNat - 48)) % 2 ^ 32 =
        (acc * 10 + (c.toNat - 48)) % 2 ^ 32 := by
      omega
    have hsub : usub32 i bufferPos < 10 := by
      rw [usub32_of_le hi (by omega)]
      omega
    rw [readDecimal_cons, length_cons, Nat.add_right_comm, scanHeader, hc, bind_some,
      hds c mem_cons_self, decide_eq_true hsub, Bool.and_self, if_pos rfl, hmod,
      ih hnext (fun d hd => hds d (mem_cons_of_mem _ hd)) (by omega) (by omega) (by omega)]
    congr 1
    omega

theorem scanHeader_pending (hb : self.Bounds) {digits more : List UInt8} (hdigits : HeaderDigits digits)
    (h : self.pending = digits ++ more) :
    scanHeader self.buffer self.bufferPos (self.bufferEnd - self.bufferPos) self.bufferPos 0 =
      scanHeader self.buffer self.bufferPos more.length (self.bufferPos + digits.length)
        (readDecimal 0 digits % 2 ^ 32) := by
  have hpl := hb.pending_length
  have hp := hb.pos_le
  have he := hb.end_le
  have hsm := hb.small
  rw [h, length_append] at hpl
  have hdrop := drop_eq_window self.buffer hp
  rw [← pending, h, append_assoc] at hdrop
  have hscan : scanHeader self.buffer self.bufferPos (digits.length + more.length) self.bufferPos
      (0 % 2 ^ 32) = _ :=
    scanHeader_digits hdrop hdigits.digit (Nat.le_refl self.bufferPos) (by omega)
      (by rw [Nat.sub_self, Nat.zero_add]; exact hdigits.short)
  rwa [Nat.zero_mod, hpl] at hscan

theorem Bounds.pending_byte (hb : self.Bounds) {xs ys : List UInt8} {c : UInt8}
    (h : self.pending = xs ++ c :: ys) : self.buffer[self.bufferPos + xs.length]? = some c := by
  have hdrop := drop_eq_window self.buffer hb.pos_le
  rw [← pending, h, append_assoc] at hdrop
  rw [← getElem?_drop, hdrop, getElem?_append_right (Nat.le_refl _), Nat.sub_self]
  rfl

theorem extractFrameLength_found (hb : self.Bounds) {digits more : List UInt8}
    (hdigits : HeaderDigits digits) (h : self.pending = digits ++ 32 :: more) :
    self.extractFrameLength = some (.found (self.bufferPos + digits.length + 1), { self with
        frameLen := readDecimal 0 digits % 2 ^ 32
        bufferPos := self.bufferPos + digits.length + 1 }) := by
  unfold extractFrameLength
  rw [scanHeader_pending hb hdigits h, length_cons, scanHeader, hb.pending_byte h]
  rfl

theorem extractFrameLength_needMoreData (hb : self.Bounds) (hdigits : HeaderDigits self.pending) :
    self.extractFrameLength =
      some (.needMoreData, { self with frameLen := readDecimal 0 self.pending % 2 ^ 32 }) := by
  unfold extractFrameLength
  rw [scanHeader_pending hb hdigits (append_nil _).symm]
  rfl

theorem header_or_part {pend stream : List UInt8} {rest : List (List UInt8)}
    (h : pend ++ stream = frames rest) :
    (∃ msg rest' more, rest = msg :: rest' ∧ pend = decimal msg.length ++ 32 :: more ∧
      more ++ stream = msg ++ frames rest') ∨ ((stream = [] → rest = []) ∧
      ∃ n more, (n = 0 ∨ ∃ msg ∈ rest, n = msg.length) ∧ decimal n = pend ++ more) := by
  cases rest with
  | nil =>
    obtain ⟨rfl, rfl⟩ := append_eq_nil_iff.1 h
    exact .inr ⟨fun _ => rfl, 0, decimal 0, .inl rfl, rfl⟩
  | cons msg rest =>
    rw [frames_cons] at h
    rcases append_eq_append_iff.1 h with ⟨part, hd, hs⟩ | ⟨more, hp, hs⟩
    · refine .inr ⟨?_, msg.length, part, .inr ⟨msg, mem_cons_self, rfl⟩, hd⟩
      rintro rfl
      simp at hs
    · cases more with
      | nil =>
        rw [append_nil] at hp
        refine .inr ⟨?_, msg.length, [], .inr ⟨msg, mem_cons_self, rfl⟩, by simp [hp]⟩
        rintro rfl
        simp at hs
      | cons c more =>
        obtain ⟨rfl, htail⟩ := List.cons.inj hs
        exact .inl ⟨msg, rest, more, rfl, hp, htail.symm⟩

/-- `room` bytes are enough for a header of the messages `rest`. -/
structure HeaderRoom (room : Nat) (rest : List (List UInt8)) : Prop where
  two_le : 2 ≤ room
  header : ∀ msg ∈ rest, msg.length < 2 ^ 31 ∧ (decimal msg.length).length < room

/-- A scan of the frames `rest` that are ahead: the header of the first one is extracted, or
there is none yet and the buffer has room for more. -/
theorem extractFrameLength_spec {room : Nat} {rest : List (List UInt8)} (hb : self.Bounds)
    (hroom : HeaderRoom room rest) (h : self.pending ++ stream = frames rest) :
    (∃ bufferPos self' msg rest', self.extractFrameLength = some (.found bufferPos, self') ∧
      self'.Bounds ∧ rest = msg :: rest' ∧ self'.frameLen = msg.length ∧
      self'.pending ++ stream = msg ++ frames rest' ∧ self'.state = self.state ∧
      self'.bufferSize = self.bufferSize) ∨
    (∃ frameLen, self.extractFrameLength = some (.needMoreData, { self with frameLen := frameLen }) ∧
      self.pending.length < room ∧ (stream = [] → rest = [])) := by
  rcases header_or_part h with ⟨msg, rest', more, rfl, hp, hm⟩ | ⟨hnil, n, more, hn, hd⟩
  · have hlen := (hroom.header msg mem_cons_self).1
    have hpl := hb.pending_length
    rw [hp, length_append, length_cons] at hpl
    have hpos := hb.pos_le
    have hn32 : readDecimal 0 (decimal msg.length) % 2 ^ 32 = msg.length := by
      rw [readDecimal_decimal]
      omega
    refine .inl ⟨_, _, msg, rest', extractFrameLength_found hb (.of_decimal (by omega)) hp,
      ⟨?_, hb.end_le, hb.length, hb.small⟩, rfl, hn32, ?_, rfl, rfl⟩
    · show self.bufferPos + (decimal msg.length).length + 1 ≤ self.bufferEnd
      omega
    · have hdrop : self.pending = (decimal msg.length ++ [32]) ++ more := by simp [hp]
      have hw := window_drop hdrop
      rw [length_append, length_singleton, ← Nat.add_assoc] at hw
      rw [← hm]
      exact congrArg (· ++ stream) hw
  · obtain ⟨hn32, hlen⟩ : n < 2 ^ 32 ∧ (decimal n).length < room := by
      rcases hn with rfl | ⟨msg, hmem, rfl⟩
      · exact ⟨by decide, hroom.two_le⟩
      · have := hroom.header msg hmem
        omega
    have hdigits := HeaderDigits.of_decimal hn32
    rw [hd] at hdigits
    rw [hd, length_append] at hlen
    exact .inr ⟨_, extractFrameLength_needMoreData hb hdigits.of_append, by omega, hnil⟩

/-! ## One call of `fetch` -/

/-- What is ahead of the server: the messages `rest`, as frames, or the payload of the first one
and the frames of the others. In the message-read state the payload fits into the buffer. -/
def Ahead (self : LogProtoFramedServer) (stream : List UInt8) (rest : List (List UInt8)) : Prop :=
  match self.state with
  | .frameRead => self.pending ++ stream = frames rest
  | .messageRead => ∃ msg rest', rest = msg :: rest' ∧ self.frameLen = msg.length ∧
      self.pending ++ stream = msg ++ frames rest' ∧
      self.bufferPos + self.frameLen ≤ self.bufferSize

theorem ahead_frameRead {rest : List (List UInt8)} (hstate : self.state = .frameRead) :
    self.Ahead stream rest ↔ self.pending ++ stream = frames rest := by
  unfold Ahead
  rw [hstate]

theorem ahead_messageRead {rest : List (List UInt8)} (hstate : self.state = .messageRead) :
    self.Ahead stream rest ↔ ∃ msg rest', rest = msg :: rest' ∧ self.frameLen = msg.length ∧
      self.pending ++ stream = msg ++ frames rest' ∧ self.bufferPos + self.frameLen ≤ self.bufferSize := by
  unfold Ahead
  rw [hstate]

/-- What a call that met the transport `transport` and the messages `rest` left behind. -/
structure Fetched (room : Nat) (rest : List (List UInt8)) (transport : LogTransport) (mayRead : Bool)
    (status : LogProtoStatus) (msg : Option (List UInt8)) (s : LogProtoFramedServer)
    (transport' : LogTransport) : Prop where
  noError : status ≠ .error
  bounds : s.Bounds
  size : room ≤ s.bufferSize
  readsLeft_le : readsLeft transport' ≤ readsLeft transport
  ahead : ∃ stream' rest', Splits transport' stream' ∧ s.Ahead stream' rest' ∧
    rest = msg.toList ++ rest'
  eof : status = .eof → rest = []
  progress : mayRead → status = .success → msg = none → readsLeft transport' < readsLeft transport

theorem takeMessage_spec {msg : List UInt8} {rest : List (List UInt8)} (hb : self.Bounds)
    (hlen : self.frameLen = msg.length) (h : self.pending ++ stream = msg ++ frames rest)
    (hfit : self.bufferPos + self.frameLen ≤ self.bufferSize) :
    (∃ self', self.takeMessage = some (some msg, self') ∧ self'.Bounds ∧
      self'.state = .frameRead ∧ self'.pending ++ stream = frames rest ∧
      self'.bufferSize = self.bufferSize) ∨
    (self.takeMessage = some (none, self) ∧ self.pending.length < self.frameLen) := by
  obtain ⟨h1, h2, h3, h4⟩ := hb
  have hb : self.Bounds := ⟨h1, h2, h3, h4⟩
  have hpl := hb.pending_length
  unfold takeMessage
  rw [hb.usub_end_pos]
  by_cases hge : self.bufferEnd - self.bufferPos ≥ self.frameLen
  · rw [if_pos hge, if_pos (by omega)]
    have hmod : (self.bufferPos + self.frameLen) % 2 ^ 32 = self.bufferPos + self.frameLen := by
      omega
    obtain ⟨more, hp, hm⟩ : ∃ more, self.pending = msg ++ more ∧ more ++ stream = frames rest := by
      rcases append_eq_append_iff.1 h with ⟨part, hd, hs⟩ | ⟨more, hp, hs⟩
      · have hz := congrArg List.length hd
        rw [length_append] at hz
        obtain rfl : part = [] := eq_nil_of_length_eq_zero (by omega)
        exact ⟨[], by simpa using hd.symm, by simpa using hs⟩
      · exact ⟨more, hp, hs.symm⟩
    have htaken : window self.buffer self.bufferPos (self.bufferPos + self.frameLen) = msg := by
      rw [hlen]
      exact window_take hp
    rw [htaken]
    refine .inl ⟨_, rfl, ⟨?_, h2, h3, h4⟩, rfl, ?_, rfl⟩
    · show (self.bufferPos + self.frameLen) % 2 ^ 32 ≤ self.bufferEnd
      omega
    · have hw := window_drop hp
      rw [← hlen] at hw
      rw [← hm]
      refine congrArg (· ++ stream) ?_
      show window self.buffer ((self.bufferPos + self.frameLen) % 2 ^ 32) self.bufferEnd = more
      rw [hmod]
      exact hw
  · rw [if_neg hge]
    exact .inr ⟨rfl, by omega⟩

theorem readMessage_spec {room : Nat} {msg : List UInt8} {rest : List (List UInt8)} (hb : self.Bounds)
    (hsize : room ≤ self.bufferSize) (hs : Splits transport stream) (hstate : self.state = .messageRead)
    (hlen : self.frameLen = msg.length) (h : self.pending ++ stream = msg ++ frames rest)
    (hfit : self.bufferPos + self.frameLen ≤ self.bufferSize) (mayRead tryRead : Bool)
    (transport0 : LogTransport) (hle : readsLeft transport ≤ readsLeft transport0)
    (htry : mayRead → tryRead = false → readsLeft transport < readsLeft transport0) :
    ∃ status omsg self' transport',
      self.readMessage transport mayRead tryRead = some (status, omsg, self', transport') ∧
      Fetched room (msg :: rest) transport0 mayRead status omsg self' transport' := by
  unfold readMessage
  rcases takeMessage_spec hb hlen h hfit with ⟨self', htake, hb', hst', hp', hsz'⟩ | ⟨htake, hlt⟩
  · rw [htake]
    exact ⟨_, _, _, _, rfl, by simp, hb', by omega, hle,
      ⟨stream, rest, hs, (ahead_frameRead hst').2 hp', rfl⟩, by simp, by simp⟩
  rw [htake, bind_some]
  cases tryRead with
  | false =>
    exact ⟨_, _, _, _, rfl, by simp, hb, hsize, hle,
      ⟨stream, msg :: rest, hs, (ahead_messageRead hstate).2 ⟨msg, rest, rfl, hlen, h, hfit⟩, rfl⟩,
      by simp, fun hm _ _ => htry hm rfl⟩
  | true =>
    obtain ⟨status, sf, trf, streamf, hfd, hne, heof, hbf, hsf, hpf, hposf, hsame, hlef, hltf⟩ :=
      fetchData_spec hb hs (by omega) mayRead
    obtain ⟨hst, hfl, hsz⟩ := hsame
    have hfitf : sf.bufferPos + sf.frameLen ≤ sf.bufferSize := by omega
    simp only [if_true, hfd, bind_some]
    cases status with
    | error => exact absurd rfl hne
    | eof =>
      -- the transport is at its end, so the message would be complete
      have htr := heof rfl
      rw [htr] at hs
      rw [← hs.stream, streamOf, append_nil] at h
      rw [h, length_append] at hlt
      omega
    | success =>
      rcases takeMessage_spec hbf (hfl.trans hlen) (hpf.trans h) hfitf with
        ⟨self', htake', hb', hst', hp', hsz'⟩ | ⟨htake', _⟩
      · simp only [htake', map_some]
        exact ⟨_, _, _, _, rfl, by simp, hb', by omega, by omega,
          ⟨streamf, rest, hsf, (ahead_frameRead hst').2 hp', rfl⟩, by simp, by simp⟩
      · simp only [htake', map_some]
        refine ⟨_, _, _, _, rfl, by simp, hbf, by omega, by omega,
          ⟨streamf, msg :: rest, hsf, (ahead_messageRead (hst.trans hstate)).2
            ⟨msg, rest, rfl, hfl.trans hlen, hpf.trans h, hfitf⟩, rfl⟩, by simp, ?_⟩
        intro hm _ _
        have := hltf hm rfl
        omega

theorem readFrame_spec {room : Nat} {rest : List (List UInt8)} (hb : self.Bounds)
    (hsize : room ≤ self.bufferSize) (hs : Splits transport stream) (hstate : self.state = .frameRead)
    (hroom : HeaderRoom room rest) (h : self.pending ++ stream = frames rest) (mayRead : Bool) :
    (∃ status self' transport', self.readFrame transport mayRead = some (.done status, self', transport') ∧
      Fetched room rest transport mayRead status none self' transport') ∨
    (∃ tryRead self' transport' stream' msg rest', self.readFrame transport mayRead =
        some (.header tryRead, self', transport') ∧ rest = msg :: rest' ∧ self'.Bounds ∧
      self'.bufferSize = self.bufferSize ∧ Splits transport' stream' ∧
      self'.frameLen = msg.length ∧ self'.pending ++ stream' = msg ++ frames rest' ∧
      readsLeft transport' ≤ readsLeft transport ∧
      (mayRead → tryRead = false → readsLeft transport' < readsLeft transport)) := by
  unfold readFrame
  rcases extractFrameLength_spec hb hroom h with
    ⟨pos, sh, msg, rest', hex, hbh, hrest, hlen, hp, -, hsz⟩ | ⟨frameLen, hex, hle, hnil⟩
  · rw [hex]
    exact .inr ⟨_, _, _, stream, msg, rest', rfl, hrest, hbh, hsz, hs, hlen, hp, Nat.le_refl _, by simp⟩
  -- no header in the buffer: read once and look again
  have hbn : ({ self with frameLen := frameLen } : LogProtoFramedServer).Bounds :=
    ⟨hb.pos_le, hb.end_le, hb.length, hb.small⟩
  obtain ⟨status, sf, trf, streamf, hfd, hne, heof, hbf, hsf, hpf, -, hsame, hlef, hltf⟩ :=
    fetchData_spec hbn hs (show self.pending.length < self.bufferSize by omega) mayRead
  have hszf : sf.bufferSize = self.bufferSize := hsame.bufferSize
  have hstf : sf.state = .frameRead := hsame.state.trans hstate
  have hpf : sf.pending ++ streamf = frames rest := hpf.trans h
  simp only [hex, bind_some, hfd]
  cases status with
  | error => exact absurd rfl hne
  | eof =>
    have hrest : rest = [] := hnil (by rw [← hs.stream, heof rfl]; rfl)
    exact .inl ⟨_, _, _, rfl, by simp, hbf, by omega, hlef,
      ⟨streamf, rest, hsf, (ahead_frameRead hstf).2 hpf, rfl⟩, fun _ => hrest, by simp⟩
  | success =>
    rcases extractFrameLength_spec hbf hroom hpf with
      ⟨pos, sh, msg, rest', hex', hbh, hrest, hlen, hp, -, hsz⟩ | ⟨frameLen', hex', -, -⟩
    · simp only [hex', map_some]
      exact .inr ⟨_, _, _, streamf, msg, rest', rfl, hrest, hbh, by omega, hsf, hlen, hp, hlef,
        fun hm _ => hltf hm rfl⟩
    · simp only [hex', map_some]
      refine .inl ⟨_, _, _, rfl, by simp, ⟨hbf.pos_le, hbf.end_le, hbf.length, hbf.small⟩,
        show room ≤ sf.bufferSize by omega, hlef,
        ⟨streamf, rest, hsf, (ahead_frameRead ?_).2 hpf, rfl⟩, by simp, fun hm _ _ => hltf hm rfl⟩
      exact hstf

/-- The resize, if there is one, keeps what is pending and makes room for the message. -/
def ResizeKeeps (options : LogProtoServerOptions) (self : LogProtoFramedServer) : Prop :=
  self.Resizes options → self.frameLen ≤ grownSize options self.frameLen ∧
    (self.bufferEnd ≤ grownSize options self.frameLen ∨ self.bufferPos = self.bufferEnd)

theorem grownSize_le (options : LogProtoServerOptions) (frameLen : Nat) :
    grownSize options frameLen ≤ options.maxBufferSize := by
  simp only [grownSize]
  split <;> omega

theorem le_grownSize {options : LogProtoServerOptions} {room frameLen : Nat} (hroom : room ≤ 16)
    (hmax : room ≤ options.maxBufferSize) (hpos : 0 < frameLen)
    (h : frameLen ≤ grownSize options frameLen) : room ≤ grownSize options frameLen := by
  simp only [grownSize] at h ⊢
  split at h <;> rename_i hc
  · rw [if_pos hc]
    exact hmax
  · rw [if_neg hc]
    omega

theorem resize_spec {options : LogProtoServerOptions} {room : Nat} (junk : UInt8) (hb : self.Bounds)
    (hsize : room ≤ self.bufferSize) (hroom : room ≤ 16) (hmax16 : room ≤ options.maxBufferSize)
    (hmax31 : options.maxBufferSize < 2 ^ 31) (hlen : self.frameLen ≤ options.maxBufferSize)
    (hkeep : self.ResizeKeeps options) :
    ∃ size buffer,
      self.resize options junk = { self with bufferSize := size, buffer := buffer } ∧
      buffer.length = size ∧ room ≤ size ∧ size < 2 ^ 31 ∧ self.frameLen ≤ size ∧
      (self.bufferEnd ≤ size ∨ self.bufferPos = self.bufferEnd) ∧
      window buffer self.bufferPos self.bufferEnd = self.pending := by
  obtain ⟨h1, h2, h3, h4⟩ := hb
  have hsub : usub32 self.bufferSize self.bufferPos = self.bufferSize - self.bufferPos :=
    usub32_of_le (by omega) (by omega)
  unfold resize
  split
  · next hr =>
    obtain ⟨hS, hend⟩ := hkeep hr
    have hgt := hr.2
    have hSmax := grownSize_le options self.frameLen
    refine ⟨_, _, rfl, by simp, le_grownSize hroom hmax16 (by omega) hS, by omega, hS, hend, ?_⟩
    rcases hend with hend | hend
    · exact window_realloc junk hend (by omega)
    · rw [pending, hend, window_self, window_self]
  · next hr =>
    -- the buffer is as large as allowed, or the message fits behind its header
    unfold Resizes at hr
    exact ⟨_, _, rfl, h3, hsize, h4, by omega, .inl h2, rfl⟩

theorem makeRoom_spec {options : LogProtoServerOptions} {room : Nat} (junk : UInt8) (hb : self.Bounds)
    (hsize : room ≤ self.bufferSize) (hroom : room ≤ 16) (hmax16 : room ≤ options.maxBufferSize)
    (hmax31 : options.maxBufferSize < 2 ^ 31) (hlen : self.frameLen ≤ options.maxBufferSize)
    (hkeep : self.ResizeKeeps options) :
    ∃ self', self.makeRoom options junk = some self' ∧ self'.Bounds ∧ room ≤ self'.bufferSize ∧
      self'.pending = self.pending ∧ self'.state = self.state ∧ self'.frameLen = self.frameLen ∧
      self'.bufferPos + self'.frameLen ≤ self'.bufferSize := by
  obtain ⟨size, buffer, hr, hl, h16, h31, hfl, hend, hpend⟩ :=
    resize_spec junk hb hsize hroom hmax16 hmax31 hlen hkeep
  obtain ⟨h1, h2, -, h4⟩ := hb
  simp only [makeRoom, hr]
  split
  · obtain ⟨self', hsh, hb', hp', hpos', hst, hfl', hsz⟩ :=
      @shift_spec { self with bufferSize := size, buffer := buffer } h1
        (show self.bufferEnd < 2 ^ 31 by omega) (by rw [hl]; exact hend) hl h31
    have hsz : self'.bufferSize = size := hsz
    have hfl' : self'.frameLen = self.frameLen := hfl'
    exact ⟨self', hsh, hb', by omega, hp'.trans hpend, hst, hfl', by omega⟩
  · next hover =>
    refine ⟨_, rfl, ⟨h1, ?_, hl, h31⟩, h16, hpend, rfl, rfl, ?_⟩
    · show self.bufferEnd ≤ size
      omega
    · show self.bufferPos + self.frameLen ≤ size
      omega

end LogProtoFramedServer

/-- The messages are within the limits of the options, and the buffer sizes are in order. -/
structure ServerTakes (options : LogProtoServerOptions) (msgs : List (List UInt8)) : Prop where
  two_le : 2 ≤ options.initBufferSize
  init_le : options.initBufferSize ≤ options.maxBufferSize
  max_lt : options.maxBufferSize < 2 ^ 31
  msg_le : ∀ msg ∈ msgs, msg.length ≤ options.maxMsgSize
  buffer_le : ∀ msg ∈ msgs, msg.length ≤ options.maxBufferSize
  header_lt : ∀ msg ∈ msgs, (decimal msg.length).length < options.initBufferSize

def headerRoom (options : LogProtoServerOptions) : Nat := min 16 options.initBufferSize

theorem ServerTakes.headerRoom {options : LogProtoServerOptions} {msgs : List (List UInt8)}
    (h : ServerTakes options msgs) :
    LogProtoFramedServer.HeaderRoom (headerRoom options) msgs where
  two_le := by
    have := h.two_le
    unfold LogProto.headerRoom
    omega
  header msg hmsg := by
    have h1 := h.buffer_le msg hmsg
    have h2 := h.max_lt
    have h3 := h.header_lt msg hmsg
    have h4 : (decimal msg.length).length ≤ 10 := decimal_length_le (by decide) (by omega)
    unfold LogProto.headerRoom
    omega

variable {msgs : List (List UInt8)}

theorem ServerTakes.suffix {options : LogProtoServerOptions} {msgs done rest : List (List UInt8)}
    (h : ServerTakes options msgs) (hm : msgs = done ++ rest) : ServerTakes options rest where
  two_le := h.two_le
  init_le := h.init_le
  max_lt := h.max_lt
  msg_le msg hmsg := h.msg_le msg (by rw [hm]; exact mem_append_right _ hmsg)
  buffer_le msg hmsg := h.buffer_le msg (by rw [hm]; exact mem_append_right _ hmsg)
  header_lt msg hmsg := h.header_lt msg (by rw [hm]; exact mem_append_right _ hmsg)

namespace LogProtoFramedServer

variable {self : LogProtoFramedServer} {transport : LogTransport} {stream : List UInt8}
  {options : LogProtoServerOptions} {rest : List (List UInt8)}

def Ready (options : LogProtoServerOptions) (self : LogProtoFramedServer) : Prop :=
  self = logProtoFramedServerNew ∨ headerRoom options ≤ self.bufferSize

theorem allocate_spec (junk : UInt8) (hopt : ServerTakes options rest) (hb : self.Bounds)
    (hr : self.Ready options) (stream : List UInt8) :
    (self.allocate options junk).Bounds ∧ headerRoom options ≤ (self.allocate options junk).bufferSize ∧
      (self.allocate options junk).state = self.state ∧
      ((self.allocate options junk).Ahead stream rest ↔ self.Ahead stream rest) := by
  have h1 := hopt.two_le
  have h2 := hopt.init_le
  have h3 := hopt.max_lt
  rcases hr with rfl | hsize
  · refine ⟨⟨Nat.le_refl _, Nat.zero_le _, by simp [allocate, logProtoFramedServerNew], ?_⟩,
      Nat.min_le_right _ _, rfl, ?_⟩
    · show options.initBufferSize < 2 ^ 31
      omega
    · rw [ahead_frameRead rfl, ahead_frameRead rfl, pending, pending]
      simp [allocate, logProtoFramedServerNew]
  · have hne : self.buffer.isEmpty = false := by
      rw [isEmpty_eq_false_iff, ← length_pos_iff, hb.length]
      unfold headerRoom at hsize
      omega
    simp only [allocate, hne, Bool.false_eq_true, if_false]
    exact ⟨hb, hsize, trivial, trivial⟩

/-- The resize that this call of `fetch` comes to, if any, keeps the pending bytes. -/
def FetchKeeps (options : LogProtoServerOptions) (junk : UInt8) (self : LogProtoFramedServer)
    (transport : LogTransport) (mayRead : Bool) : Prop :=
  self.state = .frameRead → ∀ r ∈ (self.allocate options junk).readFrame transport mayRead,
    r.1.isHeader → r.2.1.ResizeKeeps options

instance (options : LogProtoServerOptions) (self : LogProtoFramedServer) :
    Decidable (self.ResizeKeeps options) :=
  inferInstanceAs (Decidable (_ → _))

instance (options : LogProtoServerOptions) (junk : UInt8) (self : LogProtoFramedServer)
    (transport : LogTransport) (mayRead : Bool) :
    Decidable (self.FetchKeeps options junk transport mayRead) :=
  inferInstanceAs (Decidable (_ → ∀ r ∈ _, _))

/-- **One call of `fetch`** returns the next message ahead or leaves all of them ahead. -/
theorem fetch_spec (junk : UInt8) (hopt : ServerTakes options rest) (hb : self.Bounds)
    (hr : self.Ready options) (hs : Splits transport stream) (h : self.Ahead stream rest) (mayRead : Bool)
    (hkeep : self.FetchKeeps options junk transport mayRead) :
    ∃ status msg self' transport',
      self.fetch options junk transport mayRead = some (status, msg, self', transport') ∧
      Fetched (headerRoom options) rest transport mayRead status msg self' transport' := by
  have ho := hopt.init_le
  unfold FetchKeeps at hkeep
  obtain ⟨hba, hsize, hstate, hahead⟩ := allocate_spec junk hopt hb hr stream
  have h := hahead.2 h
  unfold fetch
  rw [← hstate] at hkeep
  generalize self.allocate options junk = sa at *
  cases hst : sa.state with
  | messageRead =>
    obtain ⟨msg, rest', rfl, hlen, hp, hfit⟩ := (ahead_messageRead hst).1 h
    simp only [hst]
    exact readMessage_spec hba hsize hs hst hlen hp hfit mayRead true transport (Nat.le_refl _)
      (by simp)
  | frameRead =>
    have hp := (ahead_frameRead hst).1 h
    simp only [hst]
    rcases readFrame_spec hba hsize hs hst hopt.headerRoom hp mayRead with
      ⟨status, sf, trf, hrf, hfetched⟩ |
      ⟨tryRead, sh, trh, streamh, msg, rest', hrf, rfl, hbh, hszh, hsh, hlen, hph, hle, htry⟩
    · rw [hrf]
      exact ⟨_, _, _, _, rfl, hfetched⟩
    · have hmsg := hopt.msg_le msg mem_cons_self
      have hbuf := hopt.buffer_le msg mem_cons_self
      have hk := hkeep hst _ hrf rfl
      obtain ⟨sr, hmr, hbr, h16, hpr, hstr, hflr, hfitr⟩ :=
        @makeRoom_spec { sh with state := .messageRead } options (headerRoom options) junk
          ⟨hbh.pos_le, hbh.end_le, hbh.length, hbh.small⟩
          (show headerRoom options ≤ sh.bufferSize by omega) (Nat.min_le_left _ _)
          ((Nat.min_le_right _ _).trans ho) hopt.max_lt
          (show sh.frameLen ≤ options.maxBufferSize by omega) hk
      have hng : ¬ sh.frameLen > options.maxMsgSize := by omega
      simp only [hrf, bind_some, hng, if_false, hmr]
      exact readMessage_spec hbr h16 hsh hstr (hflr.trans hlen) (by rw [hpr]; exact hph) hfitr
        mayRead tryRead transport hle htry

end LogProtoFramedServer

/-! ## Every run -/

/-- A server, its transport, the messages `fetch` has returned, and its last status. -/
structure FramedWorld where
  server : LogProtoFramedServer
  transport : LogTransport
  delivered : List (List UInt8)
  status : LogProtoStatus

/-- A fresh server on a transport. -/
def framedStart (transport : LogTransport) : FramedWorld :=
  ⟨logProtoFramedServerNew, transport, [], .success⟩

/-- One call of `log_proto_framed_server_fetch`, with its `may_read` argument. -/
def framedFetch (options : LogProtoServerOptions) (junk : UInt8) (w : FramedWorld)
    (mayRead : Bool) : Option FramedWorld :=
  (w.server.fetch options junk w.transport mayRead).map fun (status, msg, server, transport) =>
    ⟨server, transport, w.delivered ++ msg.toList, status⟩

/-- No call in the run resizes the buffer below what it holds. -/
def RunKeeps (options : LogProtoServerOptions) (junk : UInt8) : FramedWorld → List Bool → Prop
  | _, [] => True
  | w, mayRead :: calls => w.server.FetchKeeps options junk w.transport mayRead ∧
      ∀ w' ∈ framedFetch options junk w mayRead, RunKeeps options junk w' calls

instance RunKeeps.decidable (options : LogProtoServerOptions) (junk : UInt8) :
    ∀ w calls, Decidable (RunKeeps options junk w calls)
  | _, [] => .isTrue trivial
  | w, mayRead :: calls =>
    have : DecidablePred fun w' => RunKeeps options junk w' calls := fun w' =>
      RunKeeps.decidable options junk w' calls
    inferInstanceAs (Decidable (w.server.FetchKeeps options junk w.transport mayRead ∧ ∀ w' ∈ _, _))

/-- What holds of a server in every state it reaches on a stream of `msgs`. -/
structure FramedWorld.Sound (w : FramedWorld) (msgs : List (List UInt8)) : Prop where
  delivered : w.delivered <+: msgs
  noError : w.status ≠ .error
  eof : w.status = .eof → w.delivered = msgs
  pos_le : w.server.bufferPos ≤ w.server.bufferEnd
  end_le : w.server.bufferEnd ≤ w.server.bufferSize
  fits : w.server.state = .messageRead →
    w.server.bufferPos + w.server.frameLen ≤ w.server.bufferSize

/-- The invariant of a run: the messages are the delivered ones and those ahead. -/
structure FramedInv (options : LogProtoServerOptions) (msgs rest : List (List UInt8))
    (w : FramedWorld) : Prop where
  bounds : w.server.Bounds
  ready : w.server.Ready options
  ahead : ∃ stream, Splits w.transport stream ∧ w.server.Ahead stream rest
  delivered : msgs = w.delivered ++ rest
  noError : w.status ≠ .error
  eof : w.status = .eof → rest = []

theorem FramedInv.start (options : LogProtoServerOptions) {msgs : List (List UInt8)} {transport : LogTransport}
    (hs : Splits transport (frames msgs)) :
    FramedInv options msgs msgs (framedStart transport) where
  bounds := ⟨Nat.le_refl _, Nat.le_refl _, rfl, Nat.two_pow_pos 31⟩
  ready := .inl rfl
  ahead := ⟨_, hs, (LogProtoFramedServer.ahead_frameRead rfl).2 rfl⟩
  delivered := rfl
  noError := by simp [framedStart]
  eof := by simp [framedStart]

theorem FramedInv.sound {options : LogProtoServerOptions} {msgs rest : List (List UInt8)}
    {w : FramedWorld} (h : FramedInv options msgs rest w) : w.Sound msgs where
  delivered := ⟨rest, h.delivered.symm⟩
  noError := h.noError
  eof he := by
    have hd := h.delivered
    rw [h.eof he, append_nil] at hd
    exact hd.symm
  pos_le := h.bounds.pos_le
  end_le := h.bounds.end_le
  fits hst := by
    obtain ⟨stream, -, ha⟩ := h.ahead
    obtain ⟨_, _, _, _, _, hfit⟩ := (LogProtoFramedServer.ahead_messageRead hst).1 ha
    exact hfit

def fetchesLeft (w : FramedWorld) (rest : List (List UInt8)) : Nat :=
  readsLeft w.transport + rest.length

theorem framedFetch_inv {options : LogProtoServerOptions} {junk : UInt8} {rest : List (List UInt8)}
    {w : FramedWorld} (hopt : ServerTakes options msgs) (h : FramedInv options msgs rest w)
    (mayRead : Bool) (hkeep : w.server.FetchKeeps options junk w.transport mayRead) :
    ∃ w' rest', framedFetch options junk w mayRead = some w' ∧ FramedInv options msgs rest' w' ∧
      fetchesLeft w' rest' ≤ fetchesLeft w rest ∧ (rest = [] → rest' = []) ∧
      (mayRead → rest' = [] ∨ fetchesLeft w' rest' < fetchesLeft w rest) := by
  obtain ⟨stream, hs, ha⟩ := h.ahead
  obtain ⟨status, msg, server, transport, hf, hfetched⟩ :=
    LogProtoFramedServer.fetch_spec junk (hopt.suffix h.delivered) h.bounds h.ready hs ha mayRead
      hkeep
  obtain ⟨stream', rest', hs', ha', hsplit⟩ := hfetched.ahead
  have hle := hfetched.readsLeft_le
  have hlen := congrArg List.length hsplit
  rw [length_append] at hlen
  refine ⟨⟨server, transport, w.delivered ++ msg.toList, status⟩, rest', ?_,
    ⟨hfetched.bounds, .inr hfetched.size, ⟨stream', hs', ha'⟩, ?_, hfetched.noError, ?_⟩, ?_, ?_,
    ?_⟩
  · rw [framedFetch, hf]
    rfl
  · rw [h.delivered, hsplit, append_assoc]
  · intro he
    have hn := hfetched.eof he
    rw [hsplit] at hn
    exact (append_eq_nil_iff.1 hn).2
  · unfold fetchesLeft
    show readsLeft transport + _ ≤ _
    omega
  · rintro rfl
    exact (append_eq_nil_iff.1 hsplit.symm).2
  · intro hm
    cases msg with
    | some m =>
      right
      unfold fetchesLeft
      show readsLeft transport + _ < _
      simp at hlen
      omega
    | none =>
      cases hst : status with
      | error => exact absurd hst hfetched.noError
      | eof =>
        left
        have hn := hfetched.eof hst
        rw [hsplit] at hn
        exact (append_eq_nil_iff.1 hn).2
      | success =>
        right
        have hlt := hfetched.progress hm hst rfl
        unfold fetchesLeft
        show readsLeft transport + _ < _
        omega

theorem framedRun_inv {options : LogProtoServerOptions} {junk : UInt8} (hopt : ServerTakes options msgs)
    (calls : List Bool) {rest : List (List UInt8)} {w : FramedWorld} (h : FramedInv options msgs rest w)
    (hkeep : RunKeeps options junk w calls) :
    ∃ w' rest', exec (framedFetch options junk) w calls = some w' ∧ FramedInv options msgs rest' w' ∧
      (rest = [] → rest' = []) ∧
      (rest' = [] ∨ fetchesLeft w' rest' + calls.count true ≤ fetchesLeft w rest) := by
  induction calls generalizing w rest with
  | nil => exact ⟨w, rest, rfl, h, id, .inr (Nat.le_refl _)⟩
  | cons mayRead calls ih =>
    obtain ⟨hk, hks⟩ := hkeep
    obtain ⟨w1, rest1, hf, h1, hle, hnil, hprog⟩ := framedFetch_inv hopt h mayRead hk
    obtain ⟨w', rest', hex, h', hnil', hcount⟩ := ih h1 (hks w1 hf)
    refine ⟨w', rest', ?_, h', fun hr => hnil' (hnil hr), ?_⟩
    · rw [exec, hf]
      exact hex
    rcases hcount with hz | hc
    · exact .inl hz
    cases mayRead with
    | false =>
      right
      rw [count_cons_of_ne (by decide)]
      omega
    | true =>
      rw [count_cons_self]
      rcases hprog rfl with hz | hlt
      · exact .inl (hnil' hz)
      · right
        omega

/-- What a run of fetches returns: the state stays sound, and once there were as many fetches as
the stream has reads and messages, all messages are delivered. -/
theorem framedRun_delivers {options : LogProtoServerOptions} (junk : UInt8)
    (hopt : ServerTakes options msgs) {transport : LogTransport} (hs : Splits transport (frames msgs))
    {calls : List Bool} (hkeep : RunKeeps options junk (framedStart transport) calls) :
    ∃ w, exec (framedFetch options junk) (framedStart transport) calls = some w ∧
      w.Sound msgs ∧ (readsLeft transport + msgs.length ≤ calls.count true → w.delivered = msgs) := by
  obtain ⟨w, rest, hex, hinv, -, hcount⟩ := framedRun_inv hopt calls (.start options hs) hkeep
  refine ⟨w, hex, hinv.sound, ?_⟩
  intro hle
  have hd := hinv.delivered
  have hnil : rest = [] := by
    rcases hcount with hz | hc
    · exact hz
    · unfold fetchesLeft at hc
      have hstart : readsLeft (framedStart transport).transport = readsLeft transport := rfl
      exact eq_nil_of_length_eq_zero (by omega)
  rw [hnil, append_nil] at hd
  exact hd.symm

/-- **The framed server delivers the frames of the stream**: in every run of fetches on a split
of the frames of `msgs` in which no resize cuts off pending bytes. -/
theorem framed_server_delivers (options : LogProtoServerOptions) (junk : UInt8)
    (hinit : 16 ≤ options.initBufferSize)
    (hmax : max options.initBufferSize options.maxMsgSize ≤ options.maxBufferSize)
    (hint : options.maxBufferSize < 2 ^ 31)
    (msgs : List (List UInt8)) (hmsgs : ∀ msg ∈ msgs, msg.length ≤ options.maxMsgSize)
    (transport : LogTransport) (hs : Splits transport (frames msgs)) (calls : List Bool)
    (hkeep : RunKeeps options junk (framedStart transport) calls) :
    ∃ w, exec (framedFetch options junk) (framedStart transport) calls = some w ∧
      w.Sound msgs ∧ (readsLeft transport + msgs.length ≤ calls.count true → w.delivered = msgs) := by
  have hbuf : ∀ msg ∈ msgs, msg.length ≤ options.maxBufferSize := fun msg hm =>
    (hmsgs msg hm).trans ((Nat.le_max_right _ _).trans hmax)
  refine framedRun_delivers junk
    ⟨by omega, (Nat.le_max_left _ _).trans hmax, hint, hmsgs, hbuf, ?_⟩ hs hkeep
  intro msg hm
  have h1 := hbuf msg hm
  have h2 : (decimal msg.length).length ≤ 10 := decimal_length_le (by decide) (by omega)
  omega

/-- Three messages in four reads; the last one makes the buffer grow from 16 to 512 bytes. -/
def threeFrames : LogTransport :=
  [.data 50 [32, 104], .again, .data 105 [49], .data 32 (33 :: 50 :: 50 :: 32 :: List.replicate 22 46)]

theorem framed_server_delivers_three :
    RunKeeps ⟨40, 600, 16⟩ 0 (framedStart threeFrames) (List.replicate 42 true) ∧
    ∃ w, exec (framedFetch ⟨40, 600, 16⟩ 0) (framedStart threeFrames) (List.replicate 42 true) =
        some w ∧ w.delivered = [[104, 105], [33], List.replicate 22 46] := by
  have hkeep : RunKeeps ⟨40, 600, 16⟩ 0 (framedStart threeFrames) (List.replicate 42 true) := by
    decide +kernel
  obtain ⟨w, hex, -, hd⟩ := framed_server_delivers
    ⟨40, 600, 16⟩ 0 (by decide) (by decide) (by decide)
    [[104, 105], [33], List.replicate 22 46] (by decide) threeFrames
    ⟨by decide, by decide⟩ (List.replicate 42 true) hkeep
  exact ⟨hkeep, w, hex, hd (by decide)⟩

/-- A message of 249 bytes and one of two, in one chunk. -/
def shrinkFrames : LogTransport :=
  [.data 50 (52 :: 57 :: 32 :: List.replicate 249 46 ++ [50, 32, 97, 98])]

/-- The buffer of 256 bytes is full when the second header is read, with one byte of the payload
in it. The resize makes it 192 bytes long, and the move that follows reads behind its end. -/
theorem framed_server_shrinks_buffer :
    Splits shrinkFrames (frames [List.replicate 249 46, [97, 98]]) ∧
    (exec (framedFetch ⟨256, 1024, 256⟩ 0) (framedStart shrinkFrames) [true]).isSome ∧
    exec (framedFetch ⟨256, 1024, 256⟩ 0) (framedStart shrinkFrames) [true, true] = none := by
  refine ⟨⟨by decide +kernel, by decide +kernel⟩, by decide +kernel, ?_⟩
  have h : (exec (framedFetch ⟨256, 1024, 256⟩ 0) (framedStart shrinkFrames) [true, true]).isNone := by
    decide +kernel
  exact Option.isNone_iff_eq_none.1 h

end SyslogNg.LogProto
