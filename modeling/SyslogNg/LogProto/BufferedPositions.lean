import SyslogNg.LogProto.BufferedFetch

/-!
# The positions of a buffered server

`Kept` says of the members what the code relies on. Taking a message keeps it, and so does a chunk that
is added, with a conversion or without; hence `fetch_kept` and `queued_kept`. The counts of raw bytes
are `gint32`, so that `Fits` bounds what a fetch may read.
-/

namespace SyslogNg.LogProto

open Lib List
open Option (bind_eq_some_iff map_eq_some_iff)

structure BufferInOrder (s : LogProtoTextServer) : Prop where
  size_pos : 0 < s.state.bufferSize
  length : s.buffer.length = s.state.bufferSize
  pos_le : s.state.pendingBufferPos ≤ s.state.pendingBufferEnd
  end_le : s.state.pendingBufferEnd ≤ s.state.bufferSize
  eol : s.state.bufferCachedEol = 0 ∨ (s.state.pendingBufferPos ≤ s.state.bufferCachedEol ∧
    s.state.bufferCachedEol < s.state.pendingBufferEnd)
  raw : 0 ≤ s.state.rawBufferSize
  pendingRaw : 0 ≤ s.state.pendingRawBufferSize

/-- Once the buffer is allocated, its members are in order. -/
def Bookkept (self : LogProtoTextServer) : Prop := self.buffer ≠ [] → BufferInOrder self

/-- The positions in a buffer with room for `room` bytes, and the sizes of the raw data. Only the text
server caches the end of a line. -/
structure Tidy (kind : BufferedKind) (room : Nat) (state : LogProtoBufferedServerState) : Prop where
  pos_le : state.pendingBufferPos ≤ state.pendingBufferEnd
  end_le : state.pendingBufferEnd ≤ room
  eol : state.bufferCachedEol = 0 ∨ (kind = .text ∧
    state.pendingBufferPos ≤ state.bufferCachedEol ∧
      state.bufferCachedEol < state.pendingBufferEnd)
  raw : 0 ≤ state.rawBufferSize ∧ state.rawBufferSize < 2 ^ 31
  pendingRaw : 0 ≤ state.pendingRawBufferSize ∧ state.pendingRawBufferSize < 2 ^ 31

/-- A server with a buffer of `buffer_size` bytes. -/
structure Working (kind : BufferedKind) (s : LogProtoTextServer) : Prop where
  length : s.buffer.length = s.state.bufferSize
  small : s.state.bufferSize < 2 ^ 32
  tidy : Tidy kind s.state.bufferSize s.state

/-- A server that has its buffer, or will allocate it at the next fetch. -/
def Kept (kind : BufferedKind) (options : LogProtoServerOptions) (self : LogProtoTextServer) : Prop :=
  Working kind self ∨ self.buffer = [] ∧ Tidy kind options.initBufferSize self.state

theorem Working.bookkept {kind : BufferedKind} {self : LogProtoTextServer} (h : Working kind self) :
    Bookkept self := by
  intro hne
  have hpos := length_pos_iff.mpr hne
  exact ⟨h.length ▸ hpos, h.length, h.tidy.pos_le, h.tidy.end_le, h.tidy.eol.imp_right And.right,
    h.tidy.raw.1, h.tidy.pendingRaw.1⟩

/-! ## Taking a message from the buffer -/

/-- What that leaves as it was: `raw_buffer_size`, and `pending_raw_buffer_size` but for the size of
what is left in the buffer. -/
structure SameRaw (split : List UInt8 → Nat) (s t : LogProtoTextServer) : Prop where
  bufferSize : t.state.bufferSize = s.state.bufferSize
  posTracking : t.posTracking = s.posTracking
  raw : t.state.rawBufferSize = s.state.rawBufferSize
  pendingRaw : t.state.pendingRawBufferSize = s.state.pendingRawBufferSize ∨
    s.posTracking = true ∧ (t.state.pendingRawBufferSize = 0 ∨
      ∃ bs, bs.length ≤ s.state.bufferSize ∧ t.state.pendingRawBufferSize = split bs)

/-- The sizes that the unfinished data in a buffer of `n` bytes may have are a `gint32`. -/
def SplitFits (split : List UInt8 → Nat) (n : Nat) (self : LogProtoTextServer) : Prop :=
  self.posTracking = true → ∀ bs, bs.length ≤ n → split bs < 2 ^ 31

structure Took (kind : BufferedKind) (split : List UInt8 → Nat) (s t : LogProtoTextServer)
    (msg : Option (List UInt8)) : Prop where
  working : Working kind t
  same : SameRaw split s t
  eol : msg = none → t.state.bufferCachedEol = 0
  taken : msg ≠ none → t.state.pendingRawBufferSize = s.state.pendingRawBufferSize

namespace LogProtoTextServer

variable {kind : BufferedKind} {self t : LogProtoTextServer} {msg : Option (List UInt8)}
  {split : List UInt8 → Nat}

theorem working_usub (h : Working kind self) :
    usub32 self.state.pendingBufferEnd self.state.pendingBufferPos =
      self.state.pendingBufferEnd - self.state.pendingBufferPos := by
  have hend := h.tidy.end_le
  have hsmall := h.small
  exact usub32_of_le h.tidy.pos_le (by omega)

theorem eol_of_nothing (h : Working kind self)
    (hnil : self.state.pendingBufferEnd = self.state.pendingBufferPos) :
    self.state.bufferCachedEol = 0 := by
  rcases h.tidy.eol with hz | ⟨-, hle, hlt⟩
  · exact hz
  · omega

theorem resetBuffer_took (h : Working kind self)
    (hnil : self.state.pendingBufferEnd = self.state.pendingBufferPos) :
    Took kind split self self.resetBuffer none := by
  have heol := eol_of_nothing h hnil
  have hzero : (0 : Int) ≤ 0 ∧ (0 : Int) < 2 ^ 31 := by decide
  unfold resetBuffer
  by_cases ht : self.posTracking = true
  · rw [if_pos ht]
    exact ⟨⟨h.length, h.small, ⟨Nat.le_refl _, Nat.zero_le _, .inl heol, h.tidy.raw,
      hzero⟩⟩, ⟨rfl, rfl, rfl, .inr ⟨ht, .inl rfl⟩⟩, fun _ => heol, fun hne => absurd rfl hne⟩
  · rw [if_neg ht]
    exact ⟨⟨h.length, h.small, ⟨Nat.le_refl _, Nat.zero_le _, .inl heol, h.tidy.raw,
      h.tidy.pendingRaw⟩⟩, ⟨rfl, rfl, rfl, .inl rfl⟩, fun _ => heol, fun _ => rfl⟩

theorem takeAll_took (h : Working kind self) (heol : self.state.bufferCachedEol = 0) {start n : Nat}
    (ht : self.takeAll start n = some (msg, t)) : Took kind split self t msg := by
  obtain ⟨bs, -, heq⟩ := map_eq_some_iff.mp ht
  cases heq
  exact ⟨⟨h.length, h.small, ⟨Nat.le_refl _, h.tidy.end_le, .inl heol, h.tidy.raw,
    h.tidy.pendingRaw⟩⟩, ⟨rfl, rfl, rfl, .inl rfl⟩, fun _ => heol, fun _ => rfl⟩

theorem working_clearEol (h : Working kind self) : Working kind self.clearEol :=
  ⟨h.length, h.small, ⟨h.tidy.pos_le, h.tidy.end_le, .inl rfl, h.tidy.raw, h.tidy.pendingRaw⟩⟩

theorem lookupEol_took (h : Working kind self) {addr : Nat} {eol : Option Nat}
    (ht : self.lookupEol addr self.state.pendingBufferPos
      (self.state.pendingBufferEnd - self.state.pendingBufferPos) = some (eol, t)) :
    t = self.clearEol ∧
      ∀ e, eol = some e → self.state.pendingBufferPos ≤ e ∧ e < self.state.pendingBufferEnd := by
  unfold lookupEol at ht
  by_cases hcached : self.state.bufferCachedEol ≠ 0
  · rw [if_pos hcached] at ht
    cases ht
    refine ⟨rfl, fun e he => ?_⟩
    cases he
    rcases h.tidy.eol with hz | ⟨-, hle, hlt⟩
    · exact absurd hz hcached
    · exact ⟨hle, hlt⟩
  · rw [if_neg hcached] at ht
    obtain ⟨bs, hbs, heq⟩ := map_eq_some_iff.mp ht
    cases heq
    refine ⟨?_, fun e he => ?_⟩
    · unfold clearEol
      rw [← Classical.not_not.mp hcached]
    have hlen := LogProtoRecordServer.bytesAt_length hbs
    rw [findEom_eq_findIdx?] at he
    obtain ⟨k, hk, rfl⟩ := map_eq_some_iff.mp he
    have hlt := (findIdx?_eq_some_iff_findIdx_eq.mp hk).1
    omega

theorem takeLine_took (h : Working .text self) (hcached : self.state.bufferCachedEol = 0)
    {addr start eol : Nat} (hle : self.state.pendingBufferPos ≤ eol)
    (hlt : eol < self.state.pendingBufferEnd) (ht : self.takeLine addr start eol = some (msg, t)) :
    Took .text split self t msg := by
  have hend := h.tidy.end_le
  have hsmall := h.small
  unfold takeLine at ht
  split at ht
  case isTrue => cases ht
  case isFalse =>
    obtain ⟨line, -, ht⟩ := bind_eq_some_iff.mp ht
    dsimp only at ht
    split at ht
    case isTrue =>
      obtain ⟨rest, hrest, heq⟩ := map_eq_some_iff.mp ht
      cases heq
      have hlen := LogProtoRecordServer.bytesAt_length hrest
      rw [usub32_of_le (by omega) (by omega)] at hlen
      refine ⟨⟨h.length, h.small, ⟨hlt, h.tidy.end_le, ?_, h.tidy.raw, h.tidy.pendingRaw⟩⟩,
        ⟨rfl, rfl, rfl, .inl rfl⟩, by simp, fun _ => rfl⟩
      show ((findEom (addr + (eol + 1)) rest).map (eol + 1 + ·)).getD 0 = 0 ∨ _
      rw [findEom_eq_findIdx?]
      cases hfind : rest.findIdx? isEom with
      | none => exact .inl rfl
      | some k =>
        have hk := (findIdx?_eq_some_iff_findIdx_eq.mp hfind).1
        refine .inr ⟨rfl, Nat.le_add_right _ _, ?_⟩
        show eol + 1 + k < self.state.pendingBufferEnd
        omega
    case isFalse =>
      cases ht
      exact ⟨⟨h.length, h.small, ⟨Nat.le_refl _, h.tidy.end_le, .inl hcached, h.tidy.raw,
        h.tidy.pendingRaw⟩⟩, ⟨rfl, rfl, rfl, .inl rfl⟩, by simp, fun _ => rfl⟩

theorem splitBuffer_took (h : Working kind self) (hcached : self.state.bufferCachedEol = 0)
    {start n : Nat} (hn : n ≤ self.state.bufferSize) (hsplit : self.posTracking = true → n < 2 ^ 31)
    (ht : self.splitBuffer start n = some (msg, t)) : Took kind List.length self t msg := by
  obtain ⟨buffer, hmove, heq⟩ := map_eq_some_iff.mp ht
  have hlen := (moveToStart_length hmove).trans h.length
  dsimp only at heq
  split at heq
  case isTrue htracking =>
    cases heq
    have hfits := hsplit htracking
    refine ⟨⟨hlen, h.small, ⟨Nat.zero_le _, hn, .inl hcached, h.tidy.raw, ?_⟩⟩,
      ⟨rfl, rfl, rfl, .inr ⟨htracking, .inr ⟨List.replicate n 0, ?_, ?_⟩⟩⟩, fun _ => hcached, fun hne => absurd rfl hne⟩
    · show (0 : Int) ≤ n ∧ (n : Int) < 2 ^ 31
      omega
    · rw [length_replicate]
      exact hn
    · show (n : Int) = (List.replicate n (0 : UInt8)).length
      rw [length_replicate]
  case isFalse =>
    cases heq
    exact ⟨⟨hlen, h.small, ⟨Nat.zero_le _, hn, .inl hcached, h.tidy.raw, h.tidy.pendingRaw⟩⟩,
      ⟨rfl, rfl, rfl, .inl rfl⟩, fun _ => hcached, fun _ => rfl⟩

/-- **`log_proto_text_server_fetch_from_buf`** behind its wrapper, without an encoding. -/
theorem fetchFromBuf_took (h : Working .text self) {addr : Nat} {flushTheRest : Bool}
    (hcached : flushTheRest = true → self.state.bufferCachedEol = 0)
    (hsplit : SplitFits List.length self.state.bufferSize self)
    (ht : self.fetchFromBuf addr flushTheRest = some (msg, t)) : Took .text List.length self t msg := by
  have hlen := working_usub h
  have hpos := h.tidy.pos_le
  have hend := h.tidy.end_le
  unfold fetchFromBuf at ht
  dsimp only at ht
  rw [hlen] at ht
  split at ht
  case isTrue hnil =>
    cases ht
    exact resetBuffer_took h (by omega)
  case isFalse =>
    unfold textFetchFromBuf at ht
    split at ht
    case isTrue hflush => exact takeAll_took h (hcached hflush) ht
    case isFalse =>
      obtain ⟨⟨eol, u⟩, hlookup, ht⟩ := bind_eq_some_iff.mp ht
      obtain ⟨rfl, heol⟩ := lookupEol_took h hlookup
      have hu := working_clearEol h
      have hback : Took .text List.length self.clearEol t msg →
          Took .text List.length self t msg := fun htook =>
        ⟨htook.working, ⟨htook.same.bufferSize, htook.same.posTracking, htook.same.raw,
          htook.same.pendingRaw⟩, htook.eol, htook.taken⟩
      cases eol with
      | none =>
        dsimp only at ht
        split at ht
        case isTrue => exact hback (takeAll_took hu rfl ht)
        case isFalse =>
          refine hback (splitBuffer_took hu rfl (show _ ≤ self.state.bufferSize by omega) ?_ ht)
          intro htracking
          have hfits := hsplit htracking
            (List.replicate (self.state.pendingBufferEnd - self.state.pendingBufferPos) 0)
          rw [length_replicate] at hfits
          exact hfits (by omega)
      | some e =>
        obtain ⟨hle, hlt⟩ := heol e rfl
        exact hback (takeLine_took hu rfl hle hlt ht)

theorem took_pending_length (h : Took kind split self t msg) :
    t.pending.length ≤ self.state.bufferSize := by
  have hend := h.working.tidy.end_le
  have hsize := h.same.bufferSize
  unfold pending
  rw [window_length]
  omega

theorem converting_took (h : Working .text self) {addr : Nat} {rawSize : List UInt8 → Nat}
    (hsplit : SplitFits List.length self.state.bufferSize self)
    (hraw : SplitFits rawSize self.state.bufferSize self)
    (ht : ConvertingServer.fetchFromBuf addr rawSize self = some (msg, t)) :
    Took .text rawSize self t msg := by
  obtain ⟨⟨msg', next⟩, hnext, heq⟩ := map_eq_some_iff.mp ht
  have htook := fetchFromBuf_took h (by simp) hsplit hnext
  have hpending := took_pending_length htook
  have hlen := working_usub h
  cases msg' with
  | some m =>
    cases heq
    have hsame := htook.taken (by simp)
    exact ⟨htook.working, ⟨htook.same.bufferSize, htook.same.posTracking, htook.same.raw,
      .inl hsame⟩, by simp, fun _ => hsame⟩
  | none =>
    dsimp only at heq
    split at heq
    case isTrue htracking =>
      cases heq
      have ht : self.posTracking = true := by
        rw [Bool.and_eq_true] at htracking
        exact htracking.1
      have hfits := hraw ht next.pending hpending
      refine ⟨⟨htook.working.length, htook.working.small, ⟨htook.working.tidy.pos_le,
        htook.working.tidy.end_le, .inl (htook.eol rfl), htook.working.tidy.raw, ?_⟩⟩,
        ⟨htook.same.bufferSize, htook.same.posTracking, htook.same.raw,
          .inr ⟨ht, .inr ⟨next.pending, hpending, rfl⟩⟩⟩, fun _ => htook.eol rfl,
        fun hne => absurd rfl hne⟩
      show (0 : Int) ≤ rawSize next.pending ∧ (rawSize next.pending : Int) < 2 ^ 31
      omega
    case isFalse hnot =>
      cases heq
      by_cases ht : self.posTracking = true
      · -- the buffer was empty
        rw [ht, Bool.true_and, decide_eq_true_eq, Classical.not_not] at hnot
        have hnil : self.state.pendingBufferEnd = self.state.pendingBufferPos := by
          have hpos := h.tidy.pos_le
          omega
        unfold LogProtoTextServer.fetchFromBuf at hnext
        dsimp only at hnext
        rw [if_pos hnot] at hnext
        cases hnext
        exact resetBuffer_took h hnil
      · refine ⟨htook.working, ⟨htook.same.bufferSize, htook.same.posTracking, htook.same.raw, ?_⟩,
          htook.eol, htook.taken⟩
        exact .inl (htook.same.pendingRaw.resolve_right fun hp => ht hp.1)

theorem flush_took (h : Working kind self) (heol : self.state.bufferCachedEol = 0) {addr : Nat}
    (ht : self.fetchFromBuf addr true = some (msg, t)) : Took kind split self t msg := by
  have hlen := working_usub h
  have hpos := h.tidy.pos_le
  unfold fetchFromBuf at ht
  dsimp only at ht
  split at ht
  case isTrue hnil =>
    cases ht
    exact resetBuffer_took h (by omega)
  case isFalse => exact takeAll_took h heol ht

theorem whole_took (h : Working kind self) (heol : self.state.bufferCachedEol = 0)
    (ht : BufferedKind.wholeFromBuf self = some (msg, t)) : Took kind split self t msg := by
  have hlen := working_usub h
  have hpos := h.tidy.pos_le
  unfold BufferedKind.wholeFromBuf at ht
  dsimp only at ht
  split at ht
  case isTrue hnil =>
    cases ht
    exact resetBuffer_took h (by omega)
  case isFalse => exact takeAll_took h heol ht

theorem padded_took (h : Working kind self) (heol : self.state.bufferCachedEol = 0) {addr n : Nat}
    (ht : BufferedKind.paddedFromBuf addr n self = some (msg, t)) : Took kind split self t msg := by
  have hlen := working_usub h
  have hpos := h.tidy.pos_le
  unfold BufferedKind.paddedFromBuf at ht
  dsimp only at ht
  split at ht
  case isTrue hnil =>
    cases ht
    exact resetBuffer_took h (by omega)
  case isFalse =>
    obtain ⟨⟨line, record⟩, hrecord, heq⟩ := map_eq_some_iff.mp ht
    obtain ⟨bs, -, heq'⟩ := map_eq_some_iff.mp hrecord
    cases heq'
    cases heq
    exact ⟨⟨h.length, h.small, ⟨Nat.le_refl _, h.tidy.end_le, .inl heol, h.tidy.raw,
      h.tidy.pendingRaw⟩⟩, ⟨rfl, rfl, rfl, .inl rfl⟩, fun _ => heol, fun _ => rfl⟩

end LogProtoTextServer

def splitOf (encoding : Bool) (rawSize : List UInt8 → Nat) : List UInt8 → Nat :=
  if encoding then rawSize else List.length

namespace BufferedKind

open LogProtoTextServer

variable {kind : BufferedKind} {options : LogProtoServerOptions} {junk : UInt8} {addr : Nat}
  {rawSize : List UInt8 → Nat} {encoding : Bool}

/-- **`log_proto_buffered_server_fetch_from_buf`** keeps the positions. -/
theorem fetchFromBuf_took {self t : LogProtoTextServer} {msg : Option (List UInt8)} {flushTheRest : Bool}
    (h : Working kind self) (hcached : flushTheRest = true → self.state.bufferCachedEol = 0)
    (hsplit : SplitFits List.length self.state.bufferSize self)
    (hraw : SplitFits (splitOf encoding rawSize) self.state.bufferSize self)
    (ht : kind.fetchFromBuf encoding addr rawSize self flushTheRest = some (msg, t)) :
    Took kind (splitOf encoding rawSize) self t msg := by
  have heol : kind ≠ .text → self.state.bufferCachedEol = 0 := fun hkind =>
    h.tidy.eol.resolve_right fun htext => hkind htext.1
  cases kind with
  | text =>
    unfold fetchFromBuf at ht
    dsimp only at ht
    cases flushTheRest with
    | true =>
      rw [if_neg (by simp)] at ht
      exact flush_took h (hcached rfl) ht
    | false =>
      cases encoding with
      | true =>
        rw [if_pos (by simp)] at ht
        exact converting_took h hsplit hraw ht
      | false =>
        rw [if_neg (by simp)] at ht
        exact LogProtoTextServer.fetchFromBuf_took h hcached hsplit ht
  | dgram => exact whole_took h (heol nofun) ht
  | binaryRecord n => exact whole_took h (heol nofun) ht
  | paddedRecord n => exact padded_took h (heol nofun) ht

end BufferedKind

/-! ## Conversions -/

/-- Is a call of `g_iconv` the last one for its chunk? -/
def IconvCall.ends (call : IconvCall) : Bool :=
  call.status = .incomplete || call.status = .illegal || call.rest.isEmpty

/-- The bytes that a conversion leaves over for the next chunk. -/
def leftoverOf : List IconvCall → Nat
  | [] => 0
  | call :: calls =>
    if call.status = .incomplete then
      if call.rest.length ≤ ConvertingServer.leftoverSize then call.rest.length else 0
    else if call.ends then 0 else leftoverOf calls

/-- The length of the text that a chunk is converted to. -/
def convertedLength : List IconvCall → Nat
  | [] => 0
  | call :: calls => call.out.length + if call.ends then 0 else convertedLength calls

/-- The buffer, and the end of what is in it. -/
structure Room (s : LogProtoTextServer) : Prop where
  length : s.buffer.length = s.state.bufferSize
  small : s.state.bufferSize < 2 ^ 32
  end_le : s.state.pendingBufferEnd ≤ s.state.bufferSize

/-- What a conversion changes: the buffer, its size, and the end of what is in it; and the bytes left
over are taken off `raw_buffer_size`. -/
structure Converted (options : LogProtoServerOptions) (calls : List IconvCall)
    (s t : LogProtoTextServer) (leftover : Option (List UInt8)) : Prop where
  room : Room t
  end_le_end : s.state.pendingBufferEnd ≤ t.state.pendingBufferEnd
  bufferSize : t.state.bufferSize ≤ max s.state.bufferSize options.maxBufferSize
  raw : s.state.rawBufferSize - leftoverOf calls ≤ t.state.rawBufferSize ∧
    t.state.rawBufferSize ≤ s.state.rawBufferSize
  length : leftover ≠ none →
    t.state.pendingBufferEnd = s.state.pendingBufferEnd + convertedLength calls
  state : t.state = { s.state with
    bufferSize := t.state.bufferSize
    pendingBufferEnd := t.state.pendingBufferEnd
    rawBufferSize := t.state.rawBufferSize }
  posTracking : t.posTracking = s.posTracking

namespace ConvertingServer

variable {kind : BufferedKind} {options : LogProtoServerOptions} {junk : UInt8}
  {s t : LogProtoTextServer}

theorem advance_room (h : Room s) {out buffer : List UInt8}
    (hroom : ¬usub32 s.state.bufferSize s.state.pendingBufferEnd < out.length)
    (hst : store s.buffer s.state.pendingBufferEnd out = some buffer) :
    Room (advance out.length { s with buffer := buffer }) := by
  have hend := h.end_le
  have hsmall := h.small
  rw [usub32_of_le hend (by omega)] at hroom
  refine ⟨(store_length hst).trans h.length, h.small, ?_⟩
  show s.state.pendingBufferEnd + out.length ≤ s.state.bufferSize
  omega

theorem doubled_le (options : LogProtoServerOptions) (size : Nat) :
    doubled options size ≤ options.maxBufferSize := by
  unfold doubled
  split <;> omega

theorem grow_room (junk : UInt8) (h : Room s) (hmax : options.maxBufferSize < 2 ^ 31)
    (hsize : s.state.bufferSize < options.maxBufferSize) : Room (grow options junk s) := by
  have hle := doubled_le options s.state.bufferSize
  refine ⟨realloc_length _ _ _, Nat.lt_of_le_of_lt hle (by omega), ?_⟩
  have hend := h.end_le
  show s.state.pendingBufferEnd ≤ doubled options s.state.bufferSize
  unfold doubled
  split <;> omega

structure Wrote (options : LogProtoServerOptions) (call : IconvCall) (s u : LogProtoTextServer) :
    Prop where
  room : Room u
  bufferSize : u.state.bufferSize ≤ max s.state.bufferSize options.maxBufferSize
  state : u.state = { s.state with
    bufferSize := u.state.bufferSize
    pendingBufferEnd := s.state.pendingBufferEnd + call.out.length }
  posTracking : u.posTracking = s.posTracking

variable {call : IconvCall}

theorem leftoverOf_cons (calls : List IconvCall) (h : call.ends = false) :
    leftoverOf (call :: calls) = leftoverOf calls := by
  have hstatus : call.status ≠ .incomplete := by
    intro hs
    rw [IconvCall.ends, hs] at h
    simp at h
  rw [leftoverOf, if_neg hstatus, h, if_neg (by decide)]

variable {leftover : Option (List UInt8)}

theorem Wrote.done {u : LogProtoTextServer} (calls : List IconvCall)
    (h : Wrote options call s u) (hends : leftover ≠ none → call.ends = true) :
    Converted options (call :: calls) s u leftover := by
  have hend : u.state.pendingBufferEnd = s.state.pendingBufferEnd + call.out.length := by
    rw [h.state]
  have hraw : u.state.rawBufferSize = s.state.rawBufferSize := by rw [h.state]
  refine ⟨h.room, by omega, h.bufferSize, by omega, fun hne => ?_, ?_, h.posTracking⟩
  · rw [hend, convertedLength, if_pos (hends hne)]
    rfl
  · rw [hend, hraw]
    exact h.state

theorem Wrote.goOn {u : LogProtoTextServer} {calls : List IconvCall}
    (h : Wrote options call s u) (hends : call.ends = false) (hc : Converted options calls u t leftover) :
    Converted options (call :: calls) s t leftover := by
  have hend : u.state.pendingBufferEnd = s.state.pendingBufferEnd + call.out.length := by
    rw [h.state]
  have hraw : u.state.rawBufferSize = s.state.rawBufferSize := by rw [h.state]
  have hsize := h.bufferSize
  have hsize' := hc.bufferSize
  have hle := hc.end_le_end
  refine ⟨hc.room, by omega, by omega, ?_, fun hne => ?_, ?_, hc.posTracking.trans h.posTracking⟩
  · rw [leftoverOf_cons calls hends, ← hraw]
    exact hc.raw
  · rw [hc.length hne, hend, convertedLength, hends, if_neg (by decide), Nat.add_assoc]
  · rw [hc.state, h.state]

/-- **A conversion** stays inside the buffer. -/
theorem convertFromRaw_converted (hmax : options.maxBufferSize < 2 ^ 31) {calls : List IconvCall}
    (h : Room s) (hraw : s.state.rawBufferSize < 2 ^ 31)
    (hleft : leftoverOf calls ≤ s.state.rawBufferSize)
    (ht : convertFromRaw options junk calls s = some (leftover, t)) :
    Converted options calls s t leftover := by
  induction calls generalizing s with
  | nil => cases ht
  | cons call calls ih =>
    unfold convertFromRaw at ht
    split at ht
    case isTrue => cases ht
    case isFalse hroom =>
    obtain ⟨buffer, hst, ht⟩ := bind_eq_some_iff.mp ht
    have hadv := advance_room h hroom hst
    have hwrote : Wrote options call s (advance call.out.length { s with buffer := buffer }) :=
      ⟨hadv, Nat.le_max_left _ _, rfl, rfl⟩
    have hnext : ∀ {u : LogProtoTextServer}, Wrote options call s u → call.ends = false →
        convertFromRaw options junk calls u = some (leftover, t) →
        Converted options (call :: calls) s t leftover := by
      intro u hu hends hconv
      have hsame : u.state.rawBufferSize = s.state.rawBufferSize := by rw [hu.state]
      rw [leftoverOf_cons calls hends] at hleft
      exact hu.goOn hends (ih hu.room (by rw [hsame]; exact hraw) (by rw [hsame]; exact hleft) hconv)
    dsimp only at ht
    split at ht
    case h_1 hstatus =>
      cases ht
      refine ⟨⟨(store_length hst).trans h.length, h.small, h.end_le⟩, Nat.le_refl _,
        Nat.le_max_left _ _, ⟨?_, Int.le_refl _⟩, fun hne => absurd rfl hne, rfl, rfl⟩
      show s.state.rawBufferSize - _ ≤ s.state.rawBufferSize
      omega
    case h_2 hstatus =>
      split at ht
      case isTrue hempty =>
        cases ht
        exact hwrote.done calls fun _ => by simp [IconvCall.ends, hempty]
      case isFalse hrest =>
        exact hnext hwrote (by simp [IconvCall.ends, hstatus, hrest]) ht
    case h_3 hstatus =>
      have hends : call.ends = true := by simp [IconvCall.ends, hstatus]
      split at ht
      case isTrue =>
        cases ht
        exact hwrote.done calls fun _ => hends
      case isFalse =>
        split at ht
        case isTrue =>
          cases ht
          exact hwrote.done calls fun _ => hends
        case isFalse hshort =>
          cases ht
          have hof : leftoverOf (call :: calls) = call.rest.length := by
            rw [leftoverOf, if_pos hstatus, if_pos (by omega)]
          have hwrap : wrap32 (s.state.rawBufferSize - call.rest.length) =
              s.state.rawBufferSize - call.rest.length := wrap32_eq_self (by omega)
          have hdone : Converted options (call :: calls) s _ (some call.rest) :=
            hwrote.done calls fun _ => hends
          refine ⟨⟨hadv.length, hadv.small, hadv.end_le⟩, hdone.end_le_end, hdone.bufferSize, ?_,
            hdone.length, rfl, rfl⟩
          show _ ≤ wrap32 (s.state.rawBufferSize - call.rest.length) ∧
            wrap32 (s.state.rawBufferSize - call.rest.length) ≤ _
          rw [hwrap, hof]
          omega
    case h_4 hstatus =>
      split at ht
      case isTrue hsize =>
        have hgrow := grow_room junk hadv hmax hsize
        have hwrote' : Wrote options call s
            (grow options junk (advance call.out.length { s with buffer := buffer })) :=
          ⟨hgrow, (doubled_le options _).trans (Nat.le_max_right _ _), rfl, rfl⟩
        split at ht
        case isTrue hempty =>
          cases ht
          exact hwrote'.done calls fun _ => by simp [IconvCall.ends, hempty]
        case isFalse hrest =>
          exact hnext hwrote' (by simp [IconvCall.ends, hstatus, hrest]) ht
      case isFalse =>
        cases ht
        exact hwrote.done calls fun hne => absurd rfl hne

end ConvertingServer

/-! ## A fetch -/

theorem store_fits {b bs b' : List UInt8} {i : Nat} (h : store b i bs = some b') :
    i + bs.length ≤ b.length := by
  unfold store at h
  split at h
  case isTrue hle => exact hle
  case isFalse => cases h

variable {transport transport' : LogTransport} {bs : List UInt8}

theorem logTransportRead_bytes {count : Nat}
    (h : logTransportRead transport count = (.bytes bs, transport')) :
    (streamOf transport).length = bs.length + (streamOf transport').length := by
  rw [logTransportRead_stream h, length_append]

theorem BufferedKind.readData_bytes {kind : BufferedKind}
    {len : Nat} (h : kind.readData transport len = some (.bytes bs, transport')) :
    (streamOf transport).length = bs.length + (streamOf transport').length := by
  unfold readData at h
  split at h
  case h_1 => exact logTransportRead_bytes (Option.some.inj h)
  case h_2 n _ =>
    split at h
    case isTrue => cases h
    case isFalse =>
      split at h
      case h_1 chunk rest hread =>
        split at h
        case isTrue =>
          cases h
          exact logTransportRead_bytes hread
        case isFalse => cases h
      case h_2 => exact logTransportRead_bytes (Option.some.inj h)

/-- The counts of raw bytes stay a `gint32` while `stream` more bytes are read into a buffer of at
most `size` bytes, and `left` bytes are left over from conversions. -/
structure Fits (size : Nat) (split : List UInt8 → Nat) (stream left : Nat) (s : LogProtoTextServer) :
    Prop where
  pending : s.state.pendingRawBufferSize + stream < 2 ^ 31
  split : s.posTracking = true → ∀ bs, bs.length ≤ size →
    bs.length + stream < 2 ^ 31 ∧ split bs + stream < 2 ^ 31
  left : left ≤ s.state.rawBufferSize

section

variable {kind : BufferedKind} {options : LogProtoServerOptions} {size stream left : Nat}
  {split : List UInt8 → Nat} {s t : LogProtoTextServer} {msg : Option (List UInt8)}

theorem Fits.splitFits (h : Fits size split stream left s) (hsize : s.state.bufferSize ≤ size) :
    SplitFits List.length s.state.bufferSize s ∧ SplitFits split s.state.bufferSize s := by
  refine ⟨fun ht bs hbs => ?_, fun ht bs hbs => ?_⟩ <;>
    · have hfits := h.split ht bs (hbs.trans hsize)
      omega

theorem Fits.took (h : Fits size split stream left s) (hsize : s.state.bufferSize ≤ size)
    (ht : Took kind split s t msg) : Fits size split stream left t := by
  refine ⟨?_, fun htracking => h.split (ht.same.posTracking ▸ htracking), ht.same.raw ▸ h.left⟩
  have hpending := h.pending
  rcases ht.same.pendingRaw with hraw | ⟨htracking, hraw | ⟨bs, hbs, hraw⟩⟩
  · rw [hraw]
    exact hpending
  · have hfits := (h.split htracking [] (Nat.zero_le _)).1
    rw [length_nil] at hfits
    omega
  · have hfits := (h.split htracking bs (hbs.trans hsize)).2
    omega

end

namespace BufferedKind

open LogProtoTextServer

variable {kind : BufferedKind} {options : LogProtoServerOptions} {junk : UInt8} {addr : Nat}
  {rawSize : List UInt8 → Nat} {size : Nat} {self next : ConvertingServer}

def chunkLeft (kind : BufferedKind) (encoding : Bool) (calls : List IconvCall) : Nat :=
  if encoding then leftoverOf (kind.iconvs calls) else 0

theorem converted_working {calls : List IconvCall} {s t : LogProtoTextServer}
    {leftover : Option (List UInt8)} (h : Working kind s) (heol : s.state.bufferCachedEol = 0)
    (hleft : leftoverOf calls ≤ s.state.rawBufferSize) (hc : Converted options calls s t leftover) :
    Working kind t ∧ t.state.bufferCachedEol = 0 ∧
      t.state.pendingRawBufferSize = s.state.pendingRawBufferSize := by
  have heol' : t.state.bufferCachedEol = 0 := by rw [hc.state]; exact heol
  have hposEq : t.state.pendingBufferPos = s.state.pendingBufferPos := by rw [hc.state]
  have hpendingEq : t.state.pendingRawBufferSize = s.state.pendingRawBufferSize := by rw [hc.state]
  have hpos := h.tidy.pos_le
  have hle := hc.end_le_end
  have hraw := h.tidy.raw
  have hraw' := hc.raw
  refine ⟨⟨hc.room.length, hc.room.small, ⟨by omega, hc.room.end_le, .inl heol', by omega, ?_⟩⟩, heol',
    hpendingEq⟩
  rw [hpendingEq]
  exact h.tidy.pendingRaw

/-- **A chunk** goes into the buffer. -/
theorem addChunk_working (hmax : options.maxBufferSize < 2 ^ 31) (hmaxSize : options.maxBufferSize ≤ size)
    {split : List UInt8 → Nat} {calls : List IconvCall} {stream left : Nat}
    (h : Working kind self.server) (heol : self.server.state.bufferCachedEol = 0)
    (hsize : self.server.state.bufferSize ≤ size)
    (hfits : Fits size split (bs.length + stream) (kind.chunkLeft self.encoding calls + left) self.server)
    {leftover : Option (List UInt8)} {t : LogProtoTextServer}
    (ht : addChunk kind options junk calls bs self = some (leftover, t)) :
    Working kind t ∧ t.state.bufferCachedEol = 0 ∧ t.state.bufferSize ≤ size ∧
      Fits size split stream left t := by
  obtain ⟨hpending, hsplit, hleft⟩ := hfits
  have hpendingRaw := h.tidy.pendingRaw
  have hwrap : wrap32 (self.server.state.pendingRawBufferSize + bs.length) =
      self.server.state.pendingRawBufferSize + bs.length := wrap32_eq_self (by omega)
  have hsplit' : self.server.posTracking = true → ∀ b, b.length ≤ size →
      b.length + stream < 2 ^ 31 ∧ split b + stream < 2 ^ 31 := by
    intro htracking b hb
    have hfits := hsplit htracking b hb
    omega
  -- the bytes are counted first
  have hread : Working kind { self.server with state := { self.server.state with
      pendingRawBufferSize := self.server.state.pendingRawBufferSize + bs.length } } := by
    refine ⟨h.length, h.small, ⟨h.tidy.pos_le, h.tidy.end_le, h.tidy.eol, h.tidy.raw, ?_⟩⟩
    show (0 : Int) ≤ self.server.state.pendingRawBufferSize + bs.length ∧
      self.server.state.pendingRawBufferSize + bs.length < 2 ^ 31
    omega
  unfold addChunk at ht
  dsimp only at ht
  rw [hwrap] at ht
  split at ht
  case isTrue hencoding =>
    rw [chunkLeft, if_pos hencoding] at hleft
    have hc := ConvertingServer.convertFromRaw_converted hmax
      ⟨hread.length, hread.small, hread.tidy.end_le⟩ hread.tidy.raw.2
      (show (leftoverOf (kind.iconvs calls) : Int) ≤ self.server.state.rawBufferSize by omega) ht
    obtain ⟨hworking, heol', hpendingEq⟩ := converted_working hread heol
      (show (leftoverOf (kind.iconvs calls) : Int) ≤ self.server.state.rawBufferSize by omega) hc
    have hbuf : t.state.bufferSize ≤ max self.server.state.bufferSize options.maxBufferSize :=
      hc.bufferSize
    have hraw : self.server.state.rawBufferSize - leftoverOf (kind.iconvs calls) ≤
      t.state.rawBufferSize := hc.raw.1
    dsimp only at hpendingEq
    refine ⟨hworking, heol', by omega, ⟨by omega, fun htracking => ?_, by omega⟩⟩
    exact hsplit' (hc.posTracking ▸ htracking)
  case isFalse hencoding =>
    obtain ⟨buffer, hst, heq⟩ := map_eq_some_iff.mp ht
    cases heq
    rw [chunkLeft, if_neg hencoding] at hleft
    have hfit := store_fits hst
    have hlen : buffer.length = self.server.state.bufferSize := (store_length hst).trans h.length
    have hpos := h.tidy.pos_le
    refine ⟨⟨hlen, h.small, ⟨?_, ?_, .inl heol, h.tidy.raw, hread.tidy.pendingRaw⟩⟩, heol, hsize,
      ⟨?_, hsplit', ?_⟩⟩
    · show self.server.state.pendingBufferPos ≤ self.server.state.pendingBufferEnd + _
      omega
    · show self.server.state.pendingBufferEnd + (self.rawBufferLeftover.length + bs.length) ≤
        self.server.state.bufferSize
      rw [← h.length]
      omega
    · show self.server.state.pendingRawBufferSize + bs.length + stream < 2 ^ 31
      omega
    · show (left : Int) ≤ self.server.state.rawBufferSize
      omega

def leftovers (kind : BufferedKind) (encoding : Bool) (iconvs : List (List IconvCall)) : Nat :=
  (iconvs.map (kind.chunkLeft encoding)).sum

theorem leftovers_next (kind : BufferedKind) (encoding : Bool) (iconvs : List (List IconvCall)) :
    kind.leftovers encoding iconvs =
      kind.chunkLeft encoding (iconvs.headD []) + kind.leftovers encoding iconvs.tail := by
  cases iconvs with
  | nil =>
    have hnil : kind.iconvs [] = [] := by
      unfold BufferedKind.iconvs
      split <;> rfl
    unfold leftovers chunkLeft
    rw [headD_nil, hnil]
    split <;> rfl
  | cons calls iconvs => rfl

/-- What the rounds of a fetch keep: nothing is cached while there is no message. -/
structure Reading (kind : BufferedKind) (size : Nat) (rawSize : List UInt8 → Nat) (stream left : Nat)
    (r : ConvertingServer) : Prop where
  working : Working kind r.server
  eol : r.server.state.bufferCachedEol = 0
  size_le : r.server.state.bufferSize ≤ size
  fits : Fits size (splitOf r.encoding rawSize) stream left r.server

theorem working_withStatus {s : LogProtoTextServer} (h : Working kind s) (status : LogProtoStatus) :
    Working kind { s with status := status } :=
  ⟨h.length, h.small, h.tidy⟩

theorem flushAtEnd_working {stream left : Nat} (h : Reading kind size rawSize stream left self)
    {status result : LogProtoStatus} {msg : Option (List UInt8)}
    (ht : flushAtEnd kind addr rawSize self status = some (result, msg, next)) :
    Working kind next.server := by
  obtain ⟨⟨msg', server⟩, hfetch, heq⟩ := map_eq_some_iff.mp ht
  obtain ⟨hsplit, hraw⟩ := h.fits.splitFits h.size_le
  have htook := fetchFromBuf_took (working_withStatus h.working status) (fun _ => h.eol) hsplit hraw
    hfetch
  cases msg' with
  | none =>
    cases heq
    exact htook.working
  | some m =>
    cases heq
    exact htook.working

/-- **`while (*may_read)`** keeps the positions, round after round. -/
theorem readLoop_working (hmax : options.maxBufferSize < 2 ^ 31) (hmaxSize : options.maxBufferSize ≤ size)
    {iconvs : List (List IconvCall)} {rounds : Nat} {transport : LogTransport} {mayRead : Bool}
    {result : LogProtoStatus} {msg : Option (List UInt8)}
    (h : Reading kind size rawSize (streamOf transport).length (kind.leftovers self.encoding iconvs) self)
    (ht : readLoop kind options junk addr rawSize iconvs rounds self transport mayRead =
      some (result, msg, next)) : Working kind next.server := by
  induction rounds generalizing iconvs self transport mayRead with
  | zero => cases ht
  | succ rounds ih =>
    unfold readLoop at ht
    split at ht
    case isTrue =>
      cases ht
      exact h.working
    case isFalse =>
      obtain ⟨⟨read, transport'⟩, hread, ht⟩ := bind_eq_some_iff.mp ht
      cases read with
      | again =>
        cases ht
        exact h.working
      | error => exact flushAtEnd_working h ht
      | eof =>
        dsimp only at ht
        split at ht
        case isTrue => exact flushAtEnd_working h ht
        case isFalse =>
          cases ht
          exact working_withStatus h.working .eof
      | bytes bs =>
        obtain ⟨⟨leftover, server⟩, hadd, ht⟩ := bind_eq_some_iff.mp ht
        have hfits := h.fits
        rw [readData_bytes hread, leftovers_next kind self.encoding iconvs] at hfits
        obtain ⟨hworking, heol, hsize, hfits⟩ :=
          addChunk_working hmax hmaxSize h.working h.eol h.size_le hfits hadd
        cases leftover with
        | none =>
          cases ht
          exact working_withStatus hworking .error
        | some leftover =>
          obtain ⟨⟨msg', server'⟩, hfetch, ht⟩ := bind_eq_some_iff.mp ht
          obtain ⟨hsplit, hraw⟩ := hfits.splitFits hsize
          have htook := fetchFromBuf_took hworking (fun _ => heol) hsplit hraw hfetch
          cases msg' with
          | some m =>
            cases ht
            exact htook.working
          | none =>
            have hsize' : server'.state.bufferSize ≤ size := by
              rw [htook.same.bufferSize]
              exact hsize
            dsimp only at ht
            refine ih ?_ ht
            exact ⟨htook.working, htook.eol rfl, hsize', hfits.took hsize htook⟩

/-- The bound on the size of the buffer during a fetch. -/
def sizeBound (options : LogProtoServerOptions) (self : ConvertingServer) : Nat :=
  max (max self.server.state.bufferSize options.initBufferSize) options.maxBufferSize

theorem Kept.tidy {s : LogProtoTextServer} (h : Kept kind options s) (hnil : s.buffer = []) :
    Tidy kind options.initBufferSize s.state := by
  rcases h with hw | ⟨-, htidy⟩
  · have hlen := hw.length
    rw [hnil, length_nil] at hlen
    have hend := hw.tidy.end_le
    exact ⟨hw.tidy.pos_le, by omega, hw.tidy.eol, hw.tidy.raw, hw.tidy.pendingRaw⟩
  · exact htidy

theorem allocate_working (hinit : options.initBufferSize < 2 ^ 31) {s : LogProtoTextServer}
    (h : Kept kind options s) : Working kind (s.allocate options junk) := by
  unfold LogProtoTextServer.allocate
  by_cases hempty : s.buffer.isEmpty = true
  · rw [if_pos hempty]
    obtain ⟨hpos, hend, heol, hraw, hpending⟩ := Kept.tidy h (List.isEmpty_iff.mp hempty)
    exact ⟨length_replicate, Nat.lt_trans hinit (by decide), ⟨hpos, hend, heol, hraw, hpending⟩⟩
  · rw [if_neg hempty]
    exact h.resolve_right fun hnil => hempty (List.isEmpty_iff.mpr hnil.1)

theorem allocate_same (options : LogProtoServerOptions) (junk : UInt8) (s : LogProtoTextServer) :
    (s.allocate options junk).posTracking = s.posTracking ∧
      (s.allocate options junk).state.rawBufferSize = s.state.rawBufferSize ∧
      (s.allocate options junk).state.pendingRawBufferSize = s.state.pendingRawBufferSize ∧
      (s.allocate options junk).state.bufferSize ≤ max s.state.bufferSize options.initBufferSize := by
  unfold LogProtoTextServer.allocate
  split
  · exact ⟨rfl, rfl, rfl, Nat.le_max_right _ _⟩
  · exact ⟨rfl, rfl, rfl, Nat.le_max_left _ _⟩

/-- The counts of raw bytes stay a `gint32` during a fetch. -/
def FetchFits (kind : BufferedKind) (options : LogProtoServerOptions) (rawSize : List UInt8 → Nat)
    (env : TextEnv) (self : ConvertingServer) : Prop :=
  Fits (sizeBound options self) (splitOf self.encoding rawSize) (streamOf env.transport).length
    (kind.leftovers self.encoding env.iconvs) self.server

/-- **`log_proto_server_fetch`** keeps the positions. -/
theorem fetch_kept (hinit : options.initBufferSize < 2 ^ 31) (hmax : options.maxBufferSize < 2 ^ 31)
    {mayRead : Bool} {env : TextEnv} {result : LogProtoStatus} {msg : Option (List UInt8)}
    (h : Kept kind options self.server) (hfits : FetchFits kind options rawSize env self)
    (ht : fetch kind options junk addr rawSize self mayRead env = some (result, msg, next)) :
    Kept kind options next.server := by
  unfold fetch at ht
  split at ht
  case isFalse =>
    cases ht
    exact h
  case isTrue =>
    obtain ⟨⟨msg', server⟩, hfetch, ht⟩ := bind_eq_some_iff.mp ht
    have hworking : Working kind (self.server.allocate options junk) := allocate_working hinit h
    obtain ⟨htracking, hraw, hpending, hsize⟩ := allocate_same options junk self.server
    have hbound : (self.server.allocate options junk).state.bufferSize ≤ sizeBound options self :=
      hsize.trans (Nat.le_max_left _ _)
    have hfits' : Fits (sizeBound options self) (splitOf self.encoding rawSize)
        (streamOf env.transport).length (kind.leftovers self.encoding env.iconvs)
        (self.server.allocate options junk) :=
      ⟨hpending ▸ hfits.pending, fun htr => hfits.split (htracking ▸ htr), hraw ▸ hfits.left⟩
    obtain ⟨hsplit, hrawSplit⟩ := hfits'.splitFits hbound
    have htook := fetchFromBuf_took hworking (by simp) hsplit hrawSplit
      hfetch
    cases msg' with
    | some m =>
      cases ht
      exact .inl htook.working
    | none =>
      have hsize' : server.state.bufferSize ≤ sizeBound options self := by
        rw [htook.same.bufferSize]
        exact hbound
      have hmaxSize : options.maxBufferSize ≤ sizeBound options self := Nat.le_max_right _ _
      dsimp only at ht
      refine .inl (readLoop_working hmax hmaxSize ?_ ht)
      exact ⟨htook.working, htook.eol rfl, hsize', hfits'.took hbound htook⟩

theorem queued_tidy {s : LogProtoTextServer} {n : Nat} (h : Tidy kind n s.state) :
    Tidy kind n s.queued.state := by
  obtain ⟨hpos, hend, heol, hraw, hpending⟩ := h
  have hzero : (0 : Int) ≤ 0 ∧ (0 : Int) < 2 ^ 31 := by decide
  unfold LogProtoTextServer.queued
  dsimp only
  by_cases hnil : s.state.pendingBufferPos = s.state.pendingBufferEnd
  · have hcached : s.state.bufferCachedEol = 0 := heol.resolve_right fun hline => by
      have hle := hline.2.1
      have hlt := hline.2.2
      omega
    rw [if_pos hnil]
    split
    · exact ⟨Nat.le_refl _, Nat.zero_le _, .inl hcached, hzero, hpending⟩
    · exact ⟨Nat.le_refl _, Nat.zero_le _, .inl hcached, hpending, hpending⟩
  · rw [if_neg hnil]
    split
    · exact ⟨hpos, hend, heol, hzero, hpending⟩
    · exact ⟨hpos, hend, heol, hpending, hpending⟩

theorem queued_sized (s : LogProtoTextServer) :
    s.queued.buffer = s.buffer ∧ s.queued.state.bufferSize = s.state.bufferSize := by
  unfold LogProtoTextServer.queued
  dsimp only
  split <;> split <;> exact ⟨rfl, rfl⟩

/-- **`log_proto_buffered_server_queued`** keeps the positions. -/
theorem queued_kept {s : LogProtoTextServer} (h : Kept kind options s) : Kept kind options s.queued := by
  obtain ⟨hbuffer, hsize⟩ := queued_sized s
  rcases h with hw | ⟨hnil, htidy⟩
  · refine .inl ⟨?_, hsize ▸ hw.small, ?_⟩
    · rw [hbuffer, hsize]
      exact hw.length
    · rw [hsize]
      exact queued_tidy hw.tidy
  · exact .inr ⟨hbuffer.trans hnil, queued_tidy htidy⟩

end BufferedKind

end SyslogNg.LogProto
