import SyslogNg.LogProto.BufferedServer

/-!
# Lines, and the buffer as a view of them

`scanLines n [] s` says what a text server with a buffer of `n` bytes is for: the complete lines
of the stream `s`, and what is left of it. The server never sees the whole stream. What is
between `pending_buffer_pos` and `pending_buffer_end` stands for its own lines and those of the
bytes still to be read, and `fetchFromBuf_spec` says that taking a message from the buffer takes
the first of these lines.
-/

namespace SyslogNg.LogProto

open Lib List Option

/-- The messages of a stream, and the unfinished line behind them; `line` is the line so far. A
line ends at an NL or NUL, or without one after `n` bytes. -/
def scanLines (n : Nat) : List UInt8 → List UInt8 → List (List UInt8) × List UInt8
  | line, [] => ([], line)
  | line, c :: cs =>
    if isEom c then
      (stripLine line :: (scanLines n [] cs).1, (scanLines n [] cs).2)
    else if line.length + 1 = n then
      ((line ++ [c]) :: (scanLines n [] cs).1, (scanLines n [] cs).2)
    else scanLines n (line ++ [c]) cs

/-- The complete lines of a stream. -/
def completeLines (n : Nat) (s : List UInt8) : List (List UInt8) := (scanLines n [] s).1

/-- What is behind the last complete line. -/
def unfinishedLine (n : Nat) (s : List UInt8) : List UInt8 := (scanLines n [] s).2

/-- The messages of a stream that ends: the unfinished line, if there is one, is the last. -/
def textMessages (n : Nat) (s : List UInt8) : List (List UInt8) :=
  completeLines n s ++ if unfinishedLine n s = [] then [] else [unfinishedLine n s]

section

variable {n : Nat} {line bs s : List UInt8}

theorem scanLines_continue (hbs : ∀ c ∈ bs, isEom c = false) (hlen : line.length + bs.length < n) :
    scanLines n line (bs ++ s) = scanLines n (line ++ bs) s := by
  induction bs generalizing line with
  | nil => simp
  | cons c cs ih =>
    simp only [length_cons] at hlen
    have hc : isEom c = false := hbs c mem_cons_self
    rw [cons_append, scanLines, hc, if_neg Bool.false_ne_true, if_neg (show ¬ line.length + 1 = n by omega),
      ih (fun d hd => hbs d (mem_cons_of_mem _ hd)) (by simp; omega), append_assoc]
    rfl

theorem scanLines_append (n : Nat) (line s t : List UInt8) :
    scanLines n line (s ++ t) = ((scanLines n line s).1 ++ (scanLines n (scanLines n line s).2 t).1,
        (scanLines n (scanLines n line s).2 t).2) := by
  induction s generalizing line with
  | nil => rfl
  | cons c s ih =>
    rw [cons_append, scanLines, scanLines, ih, ih]
    split
    · rfl
    split
    · rfl
    · rfl

theorem scanLines_whole {lines : List (List UInt8)} (h : scanLines n [] bs = (lines, [])) (s : List UInt8) :
    scanLines n [] (bs ++ s) = (lines ++ completeLines n s, unfinishedLine n s) := by
  rw [scanLines_append, h]
  rfl

theorem scanLines_eol {c : UInt8} (hline : ∀ d ∈ line, isEom d = false) (hlen : line.length < n)
    (hc : isEom c = true) : scanLines n [] (line ++ [c]) = ([stripLine line], []) := by
  rw [scanLines_continue hline (by simpa using hlen), nil_append, scanLines, hc, if_pos rfl]
  rfl

theorem scanLines_full (hline : ∀ d ∈ line, isEom d = false) (hlen : line.length = n) (hpos : 0 < n) :
    scanLines n [] line = ([line], []) := by
  obtain ⟨bs, c, rfl⟩ : ∃ bs c, line = bs ++ [c] :=
    ⟨_, _, (dropLast_append_getLast (length_pos_iff.1 (by omega))).symm⟩
  rw [length_append, length_singleton] at hlen
  have hc : isEom c = false := hline c (by simp)
  rw [scanLines_continue (fun d hd => hline d (mem_append_left _ hd)) (by simp; omega),
    nil_append, scanLines, hc, if_neg Bool.false_ne_true, if_pos hlen]
  rfl

theorem scanLines_unfinished (hline : ∀ d ∈ line, isEom d = false) (hlen : line.length < n) :
    scanLines n [] line = ([], line) := by
  have h := scanLines_continue (s := []) hline (show ([] : List UInt8).length + line.length < n by simpa using hlen)
  rw [append_nil, nil_append] at h
  rw [h, scanLines]

end

theorem findIdx?_isEom {bs : List UInt8} {k : Nat} (h : bs.findIdx? isEom = some k) :
    ∃ line c rest, bs = line ++ c :: rest ∧ line.length = k ∧ (∀ d ∈ line, isEom d = false) ∧
      isEom c = true := by
  induction bs generalizing k with
  | nil => cases h
  | cons b bs ih =>
    rw [findIdx?_cons] at h
    cases hb : isEom b with
    | true =>
      rw [hb, if_pos rfl] at h
      cases h
      exact ⟨[], b, bs, rfl, rfl, by simp, hb⟩
    | false =>
      rw [hb, if_neg Bool.false_ne_true] at h
      obtain ⟨j, hj, rfl⟩ := map_eq_some_iff.1 h
      obtain ⟨line, c, rest, rfl, hlen, hline, hc⟩ := ih hj
      refine ⟨b :: line, c, rest, rfl, by simp [hlen], ?_, hc⟩
      intro d hd
      rcases mem_cons.1 hd with rfl | hd
      · exact hb
      · exact hline d hd

namespace LogProtoTextServer

variable {self : LogProtoTextServer}

/-- The bytes that are read but not yet part of a message. -/
def pending (self : LogProtoTextServer) : List UInt8 :=
  window self.buffer self.state.pendingBufferPos self.state.pendingBufferEnd

/-- The offsets are in order, `buffer_size` bytes are allocated, and a cached end of line is the
first one. -/
structure Bounds (s : LogProtoTextServer) : Prop where
  pos_le : s.state.pendingBufferPos ≤ s.state.pendingBufferEnd
  end_le : s.state.pendingBufferEnd ≤ s.state.bufferSize
  length : s.buffer.length = s.state.bufferSize
  small : s.state.bufferSize < 2 ^ 31
  cached : s.state.bufferCachedEol = 0 ∨ (s.state.pendingBufferPos ≤ s.state.bufferCachedEol ∧
    s.pending.findIdx? isEom = some (s.state.bufferCachedEol - s.state.pendingBufferPos))

/-- The members of the record that only `queued` and a restart write. -/
def confirmed (self : LogProtoTextServer) : Nat × Int × Int × Int × Int :=
  (self.state.bufferPos, self.state.rawStreamPos, self.state.rawBufferSize, self.state.fileSize,
    self.state.fileInode)

/-- What the functions on the buffer leave alone. -/
structure SameSetup (s t : LogProtoTextServer) : Prop where
  status : t.status = s.status
  posTracking : t.posTracking = s.posTracking
  noMultiRead : t.noMultiRead = s.noMultiRead
  bufferSize : t.state.bufferSize = s.state.bufferSize
  confirmed : t.confirmed = s.confirmed

theorem SameSetup.trans {s t u : LogProtoTextServer} (h1 : s.SameSetup t) (h2 : t.SameSetup u) :
    s.SameSetup u :=
  ⟨h2.status.trans h1.status, h2.posTracking.trans h1.posTracking,
    h2.noMultiRead.trans h1.noMultiRead, h2.bufferSize.trans h1.bufferSize,
    h2.confirmed.trans h1.confirmed⟩

/-- The offset in the stream behind the bytes of the buffer. -/
def rawEnd (self : LogProtoTextServer) : Int :=
  self.state.pendingRawStreamPos + self.state.pendingRawBufferSize

theorem Bounds.pending_length (hb : self.Bounds) :
    self.pending.length = self.state.pendingBufferEnd - self.state.pendingBufferPos := by
  have h1 := hb.end_le
  have h2 := hb.length
  rw [pending, window_length]
  omega

theorem Bounds.usub_end_pos (hb : self.Bounds) :
    usub32 self.state.pendingBufferEnd self.state.pendingBufferPos = self.pending.length := by
  have h1 := hb.end_le
  have h2 := hb.small
  rw [hb.pending_length]
  exact usub32_of_le hb.pos_le (by omega)

theorem Bounds.bytesAt_pending (hb : self.Bounds) :
    self.bytesAt self.state.pendingBufferPos self.pending.length = some self.pending := by
  have h1 := hb.pos_le
  have h2 := hb.end_le
  have h3 := hb.length
  have hend : self.state.pendingBufferPos + self.pending.length = self.state.pendingBufferEnd := by
    rw [hb.pending_length]
    omega
  unfold bytesAt
  rw [hend, if_pos (by omega)]
  rfl

/-- The server with the cached end of line used up. -/
def clearEol (self : LogProtoTextServer) : LogProtoTextServer :=
  { self with state := { self.state with bufferCachedEol := 0 } }

theorem Bounds.clearEol (hb : self.Bounds) : self.clearEol.Bounds :=
  ⟨hb.pos_le, hb.end_le, hb.length, hb.small, .inl rfl⟩

theorem lookupEol_eq (hb : self.Bounds) (addr : Nat) :
    self.lookupEol addr self.state.pendingBufferPos self.pending.length =
      some ((self.pending.findIdx? isEom).map (self.state.pendingBufferPos + ·), self.clearEol) := by
  unfold lookupEol
  split
  · next hne =>
    rcases hb.cached with hz | ⟨hle, hfind⟩
    · exact absurd hz hne
    · rw [hfind, map_some, Nat.add_sub_cancel' hle]
      rfl
  · next hz =>
    rw [hb.bytesAt_pending, map_some, findEom_eq_findIdx?]
    rw [Classical.not_not] at hz
    unfold LogProtoTextServer.clearEol
    rw [← hz]

/-- A message was taken: it is the line that the bytes `used` make up. -/
structure TookLine (s : LogProtoTextServer) (msg : List UInt8) (t : LogProtoTextServer) :
    Prop where
  bounds : t.Bounds
  same : s.SameSetup t
  used : ∃ used, s.pending = used ++ t.pending ∧
    scanLines s.state.bufferSize [] used = ([msg], [])
  rawPos : t.state.pendingRawStreamPos = s.state.pendingRawStreamPos
  rawSize : t.state.pendingRawBufferSize = s.state.pendingRawBufferSize
  bufferEnd : t.state.pendingBufferEnd = s.state.pendingBufferEnd

/-- No message in the buffer: the unfinished line stands at its start, and there is room. -/
structure NoLine (s t : LogProtoTextServer) : Prop where
  bounds : t.Bounds
  same : s.SameSetup t
  pending : t.pending = s.pending
  unfinished : ∀ c ∈ t.pending, isEom c = false
  pos : t.state.pendingBufferPos = 0
  room : t.state.pendingBufferEnd < t.state.bufferSize
  cached : t.state.bufferCachedEol = 0
  raw : s.posTracking → t.rawEnd = s.rawEnd ∧
    t.state.pendingRawBufferSize = t.state.pendingBufferEnd

theorem TookLine.of_clearEol {msg : List UInt8} {t : LogProtoTextServer}
    (h : TookLine self.clearEol msg t) : TookLine self msg t :=
  ⟨h.bounds, ⟨h.same.status, h.same.posTracking, h.same.noMultiRead, h.same.bufferSize,
    h.same.confirmed⟩, h.used, h.rawPos, h.rawSize, h.bufferEnd⟩

theorem NoLine.of_clearEol {t : LogProtoTextServer} (h : NoLine self.clearEol t) : NoLine self t :=
  ⟨h.bounds, ⟨h.same.status, h.same.posTracking, h.same.noMultiRead, h.same.bufferSize,
    h.same.confirmed⟩, h.pending, h.unfinished, h.pos, h.room, h.cached, h.raw⟩

theorem takeAll_eq (hb : self.Bounds) :
    self.takeAll self.state.pendingBufferPos self.pending.length =
      some (some self.pending, { self with state := { self.state with
          pendingBufferPos := self.state.pendingBufferEnd } }) := by
  unfold takeAll
  rw [hb.bytesAt_pending]
  rfl

theorem takeAll_full (hb : self.Bounds) (hcached : self.state.bufferCachedEol = 0)
    (hfull : self.pending.length = self.state.bufferSize) (hpos : 0 < self.state.bufferSize)
    (hno : ∀ c ∈ self.pending, isEom c = false) :
    TookLine self self.pending
      { self with state := { self.state with pendingBufferPos := self.state.pendingBufferEnd } } where
  bounds := ⟨Nat.le_refl _, hb.end_le, hb.length, hb.small, .inl hcached⟩
  same := ⟨rfl, rfl, rfl, rfl, rfl⟩
  rawPos := rfl
  rawSize := rfl
  bufferEnd := rfl
  used := by
    have hnil : pending { self with state := { self.state with
        pendingBufferPos := self.state.pendingBufferEnd } } = [] := window_self _ _
    exact ⟨self.pending, by rw [hnil, append_nil], scanLines_full hno hfull hpos⟩

theorem splitBuffer_spec (hb : self.Bounds) (hcached : self.state.bufferCachedEol = 0)
    (hroom : self.pending.length ≠ self.state.bufferSize) (hno : ∀ c ∈ self.pending, isEom c = false) :
    ∃ self', self.splitBuffer self.state.pendingBufferPos self.pending.length = some (none, self') ∧
      NoLine self self' := by
  have h1 := hb.pos_le
  have h2 := hb.end_le
  have h3 := hb.length
  have hpl := hb.pending_length
  have hend : self.state.pendingBufferPos + self.pending.length = self.state.pendingBufferEnd := by
    omega
  obtain ⟨buffer, hmove⟩ := isSome_iff_exists.1
    (moveToStart_isSome (show self.state.pendingBufferPos + self.pending.length ≤
      self.buffer.length by omega))
  have hwin : window buffer 0 self.pending.length = self.pending := by
    rw [window_moveToStart hmove, hend]
    rfl
  have hlen := moveToStart_length hmove
  have hsplit : ∃ rawPos rawSize,
      self.splitBuffer self.state.pendingBufferPos self.pending.length = some (none, { self with
          buffer := buffer
          state := { self.state with
            pendingBufferPos := 0
            pendingBufferEnd := self.pending.length
            pendingRawStreamPos := rawPos
            pendingRawBufferSize := rawSize } }) ∧
      (self.posTracking → rawPos + rawSize = self.rawEnd ∧ rawSize = self.pending.length) := by
    unfold splitBuffer rawEnd
    rw [hmove, map_some]
    cases self.posTracking with
    | false =>
      exact ⟨self.state.pendingRawStreamPos, self.state.pendingRawBufferSize, rfl, by simp⟩
    | true =>
      exact ⟨self.state.pendingRawStreamPos +
        (self.state.pendingRawBufferSize - self.pending.length), self.pending.length, rfl,
        fun _ => ⟨by omega, rfl⟩⟩
  obtain ⟨rawPos, rawSize, hsplit, hraw⟩ := hsplit
  refine ⟨_, hsplit, ⟨Nat.zero_le _, ?_, hlen.trans h3, hb.small, .inl hcached⟩,
    ⟨rfl, rfl, rfl, rfl, rfl⟩, hwin, ?_, rfl, ?_, hcached, hraw⟩
  · show self.pending.length ≤ self.state.bufferSize
    omega
  · show ∀ c ∈ window buffer 0 self.pending.length, isEom c = false
    rw [hwin]
    exact hno
  · show self.pending.length < self.state.bufferSize
    omega

theorem takeLine_spec (hb : self.Bounds) (hcached : self.state.bufferCachedEol = 0) (addr : Nat) {k : Nat}
    (hk : self.pending.findIdx? isEom = some k) :
    ∃ msg self', self.takeLine addr self.state.pendingBufferPos
        (self.state.pendingBufferPos + k) = some (some msg, self') ∧ TookLine self msg self' := by
  obtain ⟨line, c, rest, hpend, rfl, hline, hc⟩ := findIdx?_isEom hk
  have h1 := hb.pos_le
  have h2 := hb.end_le
  have h3 := hb.length
  have h4 := hb.small
  have hpl := hb.pending_length
  rw [hpend, length_append, length_cons] at hpl
  -- the line, and what is behind its end
  have hlinewin : window self.buffer self.state.pendingBufferPos
      (self.state.pendingBufferPos + line.length) = line := window_take hpend
  have hrestwin : window self.buffer (self.state.pendingBufferPos + line.length + 1)
      self.state.pendingBufferEnd = rest := by
    have hp : self.pending = (line ++ [c]) ++ rest := by simp [hpend]
    have hw := window_drop hp
    rwa [length_append, length_singleton, ← Nat.add_assoc] at hw
  have hscan : scanLines self.state.bufferSize [] (line ++ [c]) = ([stripLine line], []) :=
    scanLines_eol hline (by omega) hc
  have hbytes : self.bytesAt self.state.pendingBufferPos
      (self.state.pendingBufferPos + line.length - self.state.pendingBufferPos) = some line := by
    unfold bytesAt
    rw [Nat.add_sub_cancel_left, if_pos (by omega), hlinewin]
  unfold takeLine
  rw [if_neg (by omega), hbytes, bind_some]
  by_cases hmore : self.state.pendingBufferEnd ≠ self.state.pendingBufferPos + line.length + 1
  · have hsub : usub32 self.state.pendingBufferEnd (self.state.pendingBufferPos + line.length + 1) =
        self.state.pendingBufferEnd - (self.state.pendingBufferPos + line.length + 1) :=
      usub32_of_le (by omega) (by omega)
    have hrest : self.bytesAt (self.state.pendingBufferPos + line.length + 1)
        (self.state.pendingBufferEnd - (self.state.pendingBufferPos + line.length + 1)) =
        some rest := by
      unfold bytesAt
      rw [Nat.add_sub_cancel' (by omega), if_pos (by omega), hrestwin]
    rw [if_pos hmore, hsub, hrest, map_some, findEom_eq_findIdx?]
    refine ⟨_, _, rfl, ⟨?_, h2, h3, h4, ?_⟩, ⟨rfl, rfl, rfl, rfl, rfl⟩, ?_, rfl, rfl, rfl⟩
    · show self.state.pendingBufferPos + line.length + 1 ≤ self.state.pendingBufferEnd
      omega
    · -- the next line end is cached
      show ((rest.findIdx? isEom).map (self.state.pendingBufferPos + line.length + 1 + ·)).getD 0 =
        0 ∨ _
      cases hnext : rest.findIdx? isEom with
      | none => exact .inl rfl
      | some j =>
        refine .inr ⟨Nat.le_add_right _ _, ?_⟩
        show (window self.buffer (self.state.pendingBufferPos + line.length + 1)
          self.state.pendingBufferEnd).findIdx? isEom = _
        rw [hrestwin, hnext]
        show some j = some (self.state.pendingBufferPos + line.length + 1 + j -
          (self.state.pendingBufferPos + line.length + 1))
        rw [Nat.add_sub_cancel_left]
    · refine ⟨line ++ [c], ?_, hscan⟩
      show self.pending = line ++ [c] ++ window self.buffer
        (self.state.pendingBufferPos + line.length + 1) self.state.pendingBufferEnd
      rw [hpend, hrestwin, append_assoc]
      rfl
  · rw [if_neg hmore]
    rw [Classical.not_not] at hmore
    have hnil : rest = [] := by
      apply eq_nil_of_length_eq_zero
      omega
    refine ⟨_, _, rfl, ⟨Nat.le_refl _, h2, h3, h4, .inl hcached⟩, ⟨rfl, rfl, rfl, rfl, rfl⟩, ?_,
      rfl, rfl, rfl⟩
    refine ⟨line ++ [c], ?_, hscan⟩
    have hempty : pending { self with state := { self.state with
        pendingBufferPos := self.state.pendingBufferEnd } } = [] := window_self _ _
    rw [hempty, append_nil, hpend, hnil]

theorem resetBuffer_spec (hb : self.Bounds) (hpos : 0 < self.state.bufferSize) (hnil : self.pending = [])
    (hcached : self.state.bufferCachedEol = 0) : NoLine self self.resetBuffer := by
  have hreset : ∃ rawPos rawSize, self.resetBuffer =
      { self with state := { self.state with
        pendingBufferPos := 0
        pendingBufferEnd := 0
        pendingRawStreamPos := rawPos
        pendingRawBufferSize := rawSize } } ∧
      (self.posTracking → rawPos + rawSize = self.rawEnd ∧ rawSize = 0) := by
    unfold resetBuffer rawEnd
    cases self.posTracking with
    | false =>
      exact ⟨self.state.pendingRawStreamPos, self.state.pendingRawBufferSize, rfl, by simp⟩
    | true =>
      exact ⟨self.state.pendingRawStreamPos + self.state.pendingRawBufferSize, 0, rfl,
        fun _ => ⟨by omega, rfl⟩⟩
  obtain ⟨rawPos, rawSize, hreset, hraw⟩ := hreset
  have hwin : self.resetBuffer.pending = [] := by
    rw [hreset]
    exact window_self _ _
  rw [hreset] at hwin ⊢
  refine ⟨⟨Nat.le_refl _, Nat.zero_le _, hb.length, hb.small, .inl hcached⟩,
    ⟨rfl, rfl, rfl, rfl, rfl⟩, hwin.trans hnil.symm, ?_, rfl, hpos, hcached, hraw⟩
  rw [hwin]
  simp

/-- **Taking a message from the buffer** takes the first line ahead, or finds that the buffer has
none. -/
theorem fetchFromBuf_spec (hb : self.Bounds) (hpos : 0 < self.state.bufferSize) (addr : Nat) :
    (∃ msg self', self.fetchFromBuf addr false = some (some msg, self') ∧ TookLine self msg self') ∨
    (∃ self', self.fetchFromBuf addr false = some (none, self') ∧ NoLine self self') := by
  unfold fetchFromBuf
  simp only [hb.usub_end_pos]
  by_cases hempty : self.pending.length = 0
  · have hnil := eq_nil_of_length_eq_zero hempty
    have hc0 : self.state.bufferCachedEol = 0 := by
      rcases hb.cached with hz | ⟨-, hfind⟩
      · exact hz
      · rw [hnil] at hfind
        cases hfind
    rw [if_pos hempty]
    refine .inr ⟨_, rfl, ?_⟩
    exact resetBuffer_spec hb hpos hnil hc0
  · rw [if_neg hempty]
    unfold textFetchFromBuf
    simp only [Bool.false_eq_true, if_false]
    rw [lookupEol_eq hb, bind_some]
    cases hfind : self.pending.findIdx? isEom with
    | none =>
      have hno : ∀ c ∈ self.pending, isEom c = false := findIdx?_eq_none_iff.1 hfind
      simp only [map_none]
      split
      · next hfull =>
        have htook := takeAll_full hb.clearEol rfl hfull hpos hno
        exact .inl ⟨_, _, takeAll_eq hb.clearEol, htook.of_clearEol⟩
      · next hroom =>
        obtain ⟨self', hsplit, hnoline⟩ := splitBuffer_spec hb.clearEol rfl hroom hno
        exact .inr ⟨self', hsplit, hnoline.of_clearEol⟩
    | some k =>
      simp only [map_some]
      obtain ⟨msg, self', htake, htook⟩ := takeLine_spec hb.clearEol rfl addr hfind
      exact .inl ⟨msg, self', htake, htook.of_clearEol⟩

end LogProtoTextServer

end SyslogNg.LogProto
