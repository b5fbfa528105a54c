import SyslogNg.LogProto.TextLines

/-!
# One call of `log_proto_server_fetch` or `log_proto_server_queued`

What a fetch does depends on the transport only through the bytes it will deliver. `Lawful` says
that for a kind of transport; `fetch_spec` then says what any fetch returns and leaves behind, in
terms of the lines of the bytes ahead (`Fetched`).
-/

namespace SyslogNg.LogProto

open Lib List Option

variable {T : Type}

/-- `delivers t s`: the transport `t` delivers the bytes `s`, and then the end of the input or
nothing more. Every read makes progress, except at the end of an input that does not end. -/
structure Lawful (source : Source T) (delivers : T → List UInt8 → Prop) : Prop where
  eof : ∀ {t s count t'}, delivers t s → 0 < count → source.read t count = (.eof, t') →
    source.ends = true ∧ s = [] ∧ delivers t' []
  noError : ∀ {t s count t'}, delivers t s → 0 < count → source.read t count ≠ (.error, t')
  again : ∀ {t s count t'}, delivers t s → 0 < count → source.read t count = (.again, t') →
    delivers t' s ∧ source.readsLeft t' ≤ source.readsLeft t ∧
      (source.readsLeft t' < source.readsLeft t ∨ (source.ends = false ∧ s = []))
  bytes : ∀ {t s count t' bs}, delivers t s → 0 < count →
    source.read t count = (.bytes bs, t') → bs.length ≤ count ∧
      source.readsLeft t' < source.readsLeft t ∧ ∃ s', s = bs ++ s' ∧ delivers t' s'

namespace LogProtoTextServer

variable {self : LogProtoTextServer} {source : Source T} {delivers : T → List UInt8 → Prop}
  {transport : T} {stream : List UInt8}

/-- The size of the raw data is the size of the buffer, unless `queued` has just emptied it. -/
def RawOk (self : LogProtoTextServer) : Prop :=
  self.posTracking → self.state.pendingRawBufferSize = self.state.pendingBufferEnd ∨
    (self.state.pendingBufferPos = 0 ∧ self.state.pendingBufferEnd = 0 ∧
      0 ≤ self.state.pendingRawBufferSize)

/-- What every fetch keeps, with `stream` ahead of it and `stream'` behind it. -/
structure Kept (delivers : T → List UInt8 → Prop) (s : LogProtoTextServer)
    (stream : List UInt8) (t : LogProtoTextServer) (transport' : T) (stream' : List UInt8) :
    Prop where
  bounds : t.Bounds
  posTracking : t.posTracking = s.posTracking
  noMultiRead : t.noMultiRead = s.noMultiRead
  bufferSize : t.state.bufferSize = s.state.bufferSize
  confirmed : t.confirmed = s.confirmed
  delivers : delivers transport' stream'
  rawOk : t.RawOk
  rawEnd : s.posTracking → t.rawEnd + stream'.length = s.rawEnd + stream.length
  rawPos : s.posTracking → s.state.pendingRawStreamPos ≤ t.state.pendingRawStreamPos

/-- What a fetch returns: a line, nothing yet, the unfinished line at the end of the input, or the
end of the input. -/
inductive Fetched (source : Source T) (delivers : T → List UInt8 → Prop) (s : LogProtoTextServer)
    (transport : T) (stream : List UInt8) (mayRead : Bool) :
    LogProtoStatus → Option (List UInt8) → LogProtoTextServer → T → Prop where
  | line {msg : List UInt8} {t : LogProtoTextServer} {transport' : T} {stream' : List UInt8} :
      Kept delivers s stream t transport' stream' → t.status = s.status →
      source.readsLeft transport' ≤ source.readsLeft transport →
      (∃ used, s.pending ++ stream = used ++ (t.pending ++ stream') ∧
        scanLines s.state.bufferSize [] used = ([msg], [])) →
      Fetched source delivers s transport stream mayRead .success (some msg) t transport'
  | wait {t : LogProtoTextServer} {transport' : T} {stream' : List UInt8} :
      Kept delivers s stream t transport' stream' → t.status = s.status →
      source.readsLeft transport' ≤ source.readsLeft transport →
      t.state.bufferCachedEol = 0 → t.pending ++ stream' = s.pending ++ stream →
      (mayRead → source.readsLeft transport' < source.readsLeft transport ∨
        (source.ends = false ∧ scanLines s.state.bufferSize [] (s.pending ++ stream) =
          ([], s.pending ++ stream))) →
      Fetched source delivers s transport stream mayRead .success none t transport'
  | rest {t : LogProtoTextServer} {transport' : T} : source.ends = true →
      Kept delivers s stream t transport' [] → t.status = .eof → t.pending = [] →
      s.pending ++ stream ≠ [] →
      scanLines s.state.bufferSize [] (s.pending ++ stream) = ([], s.pending ++ stream) →
      Fetched source delivers s transport stream mayRead .success (some (s.pending ++ stream)) t
        transport'
  | eof {t : LogProtoTextServer} {transport' : T} : source.ends = true →
      Kept delivers s stream t transport' [] → t.status = .eof → t.pending = [] →
      s.pending ++ stream = [] →
      Fetched source delivers s transport stream mayRead .eof none t transport'

/-- The state in which the loop reads: an unfinished line at the start of the buffer. -/
structure Reading (s : LogProtoTextServer) : Prop where
  bounds : s.Bounds
  unfinished : ∀ c ∈ s.pending, isEom c = false
  pos : s.state.pendingBufferPos = 0
  room : s.state.pendingBufferEnd < s.state.bufferSize
  cached : s.state.bufferCachedEol = 0
  raw : s.posTracking → s.state.pendingRawBufferSize = s.state.pendingBufferEnd

theorem Reading.rawOk (h : self.Reading) : self.RawOk := fun ht => .inl (h.raw ht)

theorem Reading.scanLines_pending (h : self.Reading) :
    scanLines self.state.bufferSize [] self.pending = ([], self.pending) := by
  have hlen := h.bounds.pending_length
  have hroom := h.room
  exact scanLines_unfinished h.unfinished (by omega)

variable {t s : LogProtoTextServer}

theorem NoLine.rawPos_le (h : NoLine s t) (hb : s.Bounds) (hraw : s.RawOk) (ht : s.posTracking) :
    s.state.pendingRawStreamPos ≤ t.state.pendingRawStreamPos := by
  obtain ⟨hend, hsize⟩ := h.raw ht
  have hlen := h.bounds.pending_length
  rw [h.pending, hb.pending_length, h.pos] at hlen
  unfold rawEnd at hend
  have hle := hb.pos_le
  rcases hraw ht with hr | ⟨hp, he, hr⟩
  · omega
  · omega

theorem NoLine.reading (h : NoLine s t) : t.Reading :=
  ⟨h.bounds, h.unfinished, h.pos, h.room, h.cached, fun ht =>
    (h.raw (by rw [← h.same.posTracking]; exact ht)).2⟩

theorem addBytes_spec (h : self.Reading) {bs : List UInt8}
    (hle : bs.length ≤ self.state.bufferSize - self.state.pendingBufferEnd) :
    ∃ self', self.addBytes bs = some self' ∧ self'.Bounds ∧ self.SameSetup self' ∧
      self'.pending = self.pending ++ bs ∧ self'.RawOk ∧
      self'.state.pendingRawStreamPos = self.state.pendingRawStreamPos ∧
      (self.posTracking → self'.rawEnd = self.rawEnd + bs.length) := by
  obtain ⟨hb, -, hpos, hroom, hcached, hraw⟩ := h
  have h1 := hb.end_le
  have h2 := hb.length
  have h3 := hb.small
  have hst : store self.buffer self.state.pendingBufferEnd bs = _ := store_isSome (by omega)
  have hend : (self.state.pendingBufferEnd + bs.length) % 2 ^ 32 =
      self.state.pendingBufferEnd + bs.length := by omega
  have hwin := window_store hb.pos_le hst
  have hraw' : self.posTracking → wrap32 (self.state.pendingRawBufferSize + bs.length) =
      self.state.pendingBufferEnd + bs.length := by
    intro ht
    rw [hraw ht]
    exact wrap32_eq_self (by omega)
  unfold addBytes
  rw [hst, map_some, hend]
  refine ⟨_, rfl, ⟨?_, ?_, (store_length hst).trans h2, h3, .inl hcached⟩,
    ⟨rfl, rfl, rfl, rfl, rfl⟩, hwin, ?_, rfl, ?_⟩
  · show self.state.pendingBufferPos ≤ self.state.pendingBufferEnd + bs.length
    omega
  · show self.state.pendingBufferEnd + bs.length ≤ self.state.bufferSize
    omega
  · intro ht
    left
    show wrap32 (self.state.pendingRawBufferSize + bs.length) =
      ((self.state.pendingBufferEnd + bs.length : Nat) : Int)
    rw [hraw' ht]
    push_cast
    rfl
  · intro ht
    show self.state.pendingRawStreamPos + wrap32 (self.state.pendingRawBufferSize + bs.length) =
      self.state.pendingRawStreamPos + self.state.pendingRawBufferSize + bs.length
    rw [hraw' ht, hraw ht]
    omega

theorem Fetched.extend {u : LogProtoTextServer} {transport transport1 : T} {stream stream1 : List UInt8}
    {mayRead mayRead1 : Bool} {status : LogProtoStatus} {msg : Option (List UInt8)} {transport' : T}
    (hsame : s.SameSetup u) (hbytes : u.pending ++ stream1 = s.pending ++ stream)
    (hraw : s.posTracking → u.rawEnd + stream1.length = s.rawEnd + stream.length)
    (hpos : s.posTracking → s.state.pendingRawStreamPos ≤ u.state.pendingRawStreamPos)
    (hle : source.readsLeft transport1 ≤ source.readsLeft transport)
    (hmay : mayRead → mayRead1 ∨ source.readsLeft transport1 < source.readsLeft transport)
    (h : Fetched source delivers u transport1 stream1 mayRead1 status msg t transport') :
    Fetched source delivers s transport stream mayRead status msg t transport' := by
  have hkept : ∀ {stream'}, Kept delivers u stream1 t transport' stream' →
      Kept delivers s stream t transport' stream' := fun hk =>
    ⟨hk.bounds, hk.posTracking.trans hsame.posTracking, hk.noMultiRead.trans hsame.noMultiRead,
      hk.bufferSize.trans hsame.bufferSize, hk.confirmed.trans hsame.confirmed, hk.delivers,
      hk.rawOk, fun ht => (hk.rawEnd (by rw [hsame.posTracking]; exact ht)).trans (hraw ht),
      fun ht => (hpos ht).trans (hk.rawPos (by rw [hsame.posTracking]; exact ht))⟩
  cases h with
  | line hk hst hle' hused =>
    rw [hbytes, hsame.bufferSize] at hused
    exact .line (hkept hk) (hst.trans hsame.status) (by omega) hused
  | wait hk hst hle' hcached hp hprog =>
    refine .wait (hkept hk) (hst.trans hsame.status) (by omega) hcached (hp.trans hbytes) ?_
    intro hm
    rcases hmay hm with hm1 | hlt
    · rcases hprog hm1 with hlt | ⟨hends, hscan⟩
      · exact .inl (by omega)
      · rw [hbytes, hsame.bufferSize] at hscan
        exact .inr ⟨hends, hscan⟩
    · exact .inl (by omega)
  | rest hends hk hst hnil hne hscan =>
    rw [hbytes, hsame.bufferSize] at hscan
    rw [hbytes] at hne ⊢
    exact .rest hends (hkept hk) hst hnil hne hscan
  | eof hends hk hst hnil he =>
    rw [hbytes] at he
    exact .eof hends (hkept hk) hst hnil he

theorem flushAtEnd_spec (hends : source.ends = true) (h : self.Reading) (hd : delivers transport [])
    (addr : Nat) {transport0 : T} (mayRead : Bool) :
    ∃ status msg self' transport', self.flushAtEnd addr .eof transport =
        some (status, msg, self', transport') ∧
      Fetched source delivers self transport0 [] mayRead status msg self' transport' := by
  have hb : Bounds { self with status := .eof } :=
    ⟨h.bounds.pos_le, h.bounds.end_le, h.bounds.length, h.bounds.small, .inl h.cached⟩
  have hpos : 0 < self.state.bufferSize := Nat.zero_lt_of_lt h.room
  unfold flushAtEnd fetchFromBuf
  simp only [hb.usub_end_pos]
  by_cases hempty : self.pending.length = 0
  · have hnil := eq_nil_of_length_eq_zero hempty
    have hno := resetBuffer_spec hb hpos hnil h.cached
    rw [if_pos (show (pending { self with status := .eof }).length = 0 from hempty)]
    refine ⟨_, _, _, _, rfl, .eof hends ⟨hno.bounds, hno.same.posTracking, hno.same.noMultiRead,
      hno.same.bufferSize, hno.same.confirmed, hd, hno.reading.rawOk, ?_,
      hno.rawPos_le hb fun ht => .inl (h.raw ht)⟩ hno.same.status
      (hno.pending.trans hnil) (by rw [hnil]; rfl)⟩
    intro ht
    rw [(hno.raw ht).1]
    rfl
  · rw [if_neg (show ¬ (pending { self with status := .eof }).length = 0 from hempty)]
    unfold textFetchFromBuf
    rw [if_pos rfl, takeAll_eq hb, map_some]
    have hrest : Fetched source delivers self transport0 [] mayRead .success
        (some (self.pending ++ []))
        { self with
          status := .eof
          state := { self.state with pendingBufferPos := self.state.pendingBufferEnd } }
        transport := by
      refine .rest hends ⟨⟨Nat.le_refl _, h.bounds.end_le, h.bounds.length, h.bounds.small,
          .inl h.cached⟩, rfl, rfl, rfl, rfl, hd, fun ht => .inl (h.raw ht), fun _ => rfl,
          fun _ => Int.le_refl _⟩
        rfl (window_self _ _) ?_ ?_
      · rw [append_nil]
        exact fun hnil => hempty (by rw [hnil]; rfl)
      · rw [append_nil]
        exact h.scanLines_pending
    rw [append_nil] at hrest
    exact ⟨_, _, _, _, rfl, hrest⟩

theorem TookLine.fetched {msg : List UInt8} (h : TookLine self msg t) (hraw : self.RawOk)
    (hd : delivers transport stream) (mayRead : Bool) :
    Fetched source delivers self transport stream mayRead .success (some msg) t transport := by
  refine .line ⟨h.bounds, h.same.posTracking, h.same.noMultiRead, h.same.bufferSize,
    h.same.confirmed, hd, ?_, ?_, fun _ => Int.le_of_eq h.rawPos.symm⟩ h.same.status
    (Nat.le_refl _) ?_
  · intro ht
    rw [h.same.posTracking] at ht
    rcases hraw ht with hsize | ⟨hpos, hend, -⟩
    · left
      rw [h.rawSize, h.bufferEnd, hsize]
    · -- an empty buffer has no line
      obtain ⟨used, hp, hscan⟩ := h.used
      have hnil : self.pending = [] := by
        rw [pending, hpos, hend, window_self]
      rw [hnil] at hp
      obtain ⟨rfl, -⟩ := append_eq_nil_iff.1 hp.symm
      cases hscan
  · intro _
    rw [rawEnd, h.rawPos, h.rawSize]
    rfl
  · obtain ⟨used, hp, hscan⟩ := h.used
    exact ⟨used, by rw [hp, append_assoc], hscan⟩

theorem readLoop_bytes {rounds addr : Nat} {bs : List UInt8} {rest : T} {s1 : LogProtoTextServer}
    (hread : source.read transport (usub32 self.state.bufferSize self.state.pendingBufferEnd) =
      (.bytes bs, rest)) (hadd : self.addBytes bs = some s1) :
    readLoop source addr (rounds + 1) self transport true =
      (s1.fetchFromBuf addr false).bind fun
      | (some msg, self) => some (.success, some msg, self, rest)
      | (none, self) => readLoop source addr rounds self rest (!self.noMultiRead) := by
  have hloop : readLoop source addr (rounds + 1) self transport true =
      (self.addBytes bs).bind fun self => (self.fetchFromBuf addr false).bind fun
        | (some msg, self) => some (.success, some msg, self, rest)
        | (none, self) => readLoop source addr rounds self rest (!self.noMultiRead) := by
    rw [readLoop, if_neg (by decide)]
    simp only [hread] <;> rfl
  rw [hloop, hadd, bind_some]

theorem readLoop_spec (hlaw : Lawful source delivers) (addr : Nat) {rounds : Nat} (h : self.Reading)
    (hd : delivers transport stream) (hrounds : source.readsLeft transport < rounds) (mayRead : Bool) :
    ∃ status msg self' transport', readLoop source addr rounds self transport mayRead =
        some (status, msg, self', transport') ∧
      Fetched source delivers self transport stream mayRead status msg self' transport' := by
  induction rounds generalizing self transport stream mayRead with
  | zero => omega
  | succ rounds ih =>
    have hwait : ∀ {transport'}, delivers transport' stream →
        Kept delivers self stream self transport' stream := fun hd' =>
      ⟨h.bounds, rfl, rfl, rfl, rfl, hd', h.rawOk, fun _ => rfl, fun _ => Int.le_refl _⟩
    cases mayRead with
    | false =>
      rw [readLoop]
      exact ⟨_, _, _, _, rfl, .wait (hwait hd) rfl (Nat.le_refl _) h.cached rfl (by simp)⟩
    | true =>
      have hroom := h.room
      have hsmall := h.bounds.small
      have hsub : usub32 self.state.bufferSize self.state.pendingBufferEnd =
          self.state.bufferSize - self.state.pendingBufferEnd :=
        usub32_of_le (by omega) (by omega)
      have hcount : 0 < usub32 self.state.bufferSize self.state.pendingBufferEnd := by omega
      rcases hread : source.read transport
        (usub32 self.state.bufferSize self.state.pendingBufferEnd) with ⟨result, rest⟩
      cases result with
      | error => exact absurd hread (hlaw.noError hd hcount)
      | again =>
        obtain ⟨hd', hle, hprog⟩ := hlaw.again hd hcount hread
        rw [readLoop, if_neg (by decide)]
        simp only [hread]
        refine ⟨_, _, _, _, rfl, .wait (hwait hd') rfl hle h.cached rfl ?_⟩
        intro _
        rcases hprog with hlt | hnil
        · exact .inl hlt
        · refine .inr ⟨hnil.1, ?_⟩
          rw [hnil.2, append_nil]
          exact h.scanLines_pending
      | eof =>
        obtain ⟨hends, rfl, hd'⟩ := hlaw.eof hd hcount hread
        rw [readLoop, if_neg (by decide)]
        simp only [hread]
        exact flushAtEnd_spec hends h hd' addr true
      | bytes bs =>
        obtain ⟨hle, hlt, stream1, rfl, hd'⟩ := hlaw.bytes hd hcount hread
        rw [hsub] at hle
        obtain ⟨s1, hadd, hb1, hsame1, hp1, hraw1, hrp1, hend1⟩ := addBytes_spec h hle
        have hbytes1 : s1.pending ++ stream1 = self.pending ++ (bs ++ stream1) := by
          rw [hp1, append_assoc]
        have hend1' : self.posTracking →
            s1.rawEnd + stream1.length = self.rawEnd + (bs ++ stream1).length := by
          intro ht
          rw [hend1 ht, length_append]
          push_cast
          omega
        have hpos1 : 0 < s1.state.bufferSize := by rw [hsame1.bufferSize]; omega
        rw [readLoop_bytes hread hadd]
        rcases fetchFromBuf_spec hb1 hpos1 addr with ⟨msg, s2, hf, htook⟩ | ⟨s2, hf, hno⟩
        · rw [hf, bind_some]
          exact ⟨_, _, _, _, rfl, .extend hsame1 hbytes1 hend1' (fun _ => Int.le_of_eq hrp1.symm)
            (by omega) (fun _ => .inr hlt) (htook.fetched hraw1 hd' true)⟩
        · rw [hf, bind_some]
          obtain ⟨status, msg, s3, transport3, hloop, hfetched⟩ :=
            ih hno.reading hd' (by omega) (!s2.noMultiRead)
          refine ⟨status, msg, s3, transport3, hloop,
            .extend (hsame1.trans hno.same) ?_ ?_ ?_ (by omega) (fun _ => .inr hlt) hfetched⟩
          · rw [hno.pending, hbytes1]
          · intro ht
            rw [(hno.raw (by rw [hsame1.posTracking]; exact ht)).1]
            exact hend1' ht
          · intro ht
            rw [← hrp1]
            exact hno.rawPos_le hb1 hraw1 (by rw [hsame1.posTracking]; exact ht)

/-- The buffer is not allocated yet, or it is as large as the options say. -/
def Valid (options : LogProtoServerOptions) (self : LogProtoTextServer) : Prop :=
  (self.Bounds ∧ self.state.bufferSize = options.initBufferSize) ∨
    (self.buffer = [] ∧ self.state.pendingBufferPos = 0 ∧ self.state.pendingBufferEnd = 0 ∧
      self.state.bufferCachedEol = 0)

/-- What the allocation of the buffer does. -/
structure Allocated (options : LogProtoServerOptions) (s t : LogProtoTextServer) : Prop where
  bounds : t.Bounds
  bufferSize : t.state.bufferSize = options.initBufferSize
  pending : t.pending = s.pending
  status : t.status = s.status
  posTracking : t.posTracking = s.posTracking
  confirmed : t.confirmed = s.confirmed
  rawEnd : t.rawEnd = s.rawEnd
  rawPos : t.state.pendingRawStreamPos = s.state.pendingRawStreamPos
  rawOk : s.RawOk → t.RawOk

variable {options : LogProtoServerOptions}

theorem allocate_spec (junk : UInt8) (hinit : 0 < options.initBufferSize)
    (hmax : options.initBufferSize < 2 ^ 31) (h : self.Valid options) :
    Allocated options self (self.allocate options junk) := by
  unfold allocate
  rcases h with ⟨hb, hsize⟩ | ⟨hnull, hpos, hend, hcached⟩
  · have hne : self.buffer.isEmpty = false := by
      rw [isEmpty_eq_false_iff, ← length_pos_iff, hb.length, hsize]
      exact hinit
    rw [hne]
    exact ⟨hb, hsize, rfl, rfl, rfl, rfl, rfl, rfl, id⟩
  · rw [hnull, isEmpty_nil, if_pos rfl]
    have hnil : ∀ buffer : List UInt8,
        window buffer self.state.pendingBufferPos self.state.pendingBufferEnd = [] := by
      intro buffer
      rw [hpos, hend, window_self]
    refine ⟨⟨?_, ?_, by simp, hmax, .inl hcached⟩, rfl, ?_, rfl, rfl, rfl, rfl, rfl, id⟩
    · show self.state.pendingBufferPos ≤ self.state.pendingBufferEnd
      omega
    · show self.state.pendingBufferEnd ≤ options.initBufferSize
      omega
    · exact (hnil _).trans (hnil _).symm

/-- **One fetch** of a server that has met neither an error nor the end of the input. -/
theorem fetch_spec (hlaw : Lawful source delivers) (junk : UInt8) (addr : Nat)
    (hinit : 0 < options.initBufferSize) (hmax : options.initBufferSize < 2 ^ 31)
    (hst : self.status = .success) (hvalid : self.Valid options) (hraw : self.RawOk)
    (hd : delivers transport stream) (mayRead : Bool) :
    ∃ start status msg self' transport', Allocated options self start ∧
      self.fetch source options junk addr transport mayRead = some (status, msg, self', transport') ∧
      Fetched source delivers start transport stream mayRead status msg self' transport' := by
  have halloc := allocate_spec junk hinit hmax hvalid
  unfold fetch bufferedFetch
  rw [if_pos hst]
  generalize self.allocate options junk = start at halloc
  have hpos : 0 < start.state.bufferSize := by rw [halloc.bufferSize]; exact hinit
  rcases fetchFromBuf_spec halloc.bounds hpos addr with ⟨msg, s1, hf, htook⟩ | ⟨s1, hf, hno⟩
  · rw [hf, bind_some]
    exact ⟨start, _, _, _, _, halloc, rfl, htook.fetched (halloc.rawOk hraw) hd mayRead⟩
  · rw [hf, bind_some]
    obtain ⟨status, msg, s2, transport2, hloop, hfetched⟩ :=
      readLoop_spec hlaw addr hno.reading hd (Nat.lt_succ_self _) mayRead
    refine ⟨start, status, msg, s2, transport2, halloc, hloop,
      .extend hno.same (by rw [hno.pending]) ?_ (hno.rawPos_le halloc.bounds (halloc.rawOk hraw))
        (Nat.le_refl _) (fun hm => .inl hm) hfetched⟩
    intro ht
    rw [(hno.raw ht).1]

/-! ## `queued` -/

/-- What `queued` leaves alone. -/
structure Queued (options : LogProtoServerOptions) (s t : LogProtoTextServer) : Prop where
  valid : t.Valid options
  pending : t.pending = s.pending
  status : t.status = s.status
  posTracking : t.posTracking = s.posTracking
  rawEnd : t.rawEnd = s.rawEnd
  rawPos : t.state.pendingRawStreamPos = s.state.pendingRawStreamPos
  rawOk : s.RawOk → t.RawOk

theorem queued_eq (self : LogProtoTextServer) : ∃ bufferPos rawStreamPos rawBufferSize,
    self.queued = { self with state := { self.state with
      bufferPos := bufferPos
      rawStreamPos := rawStreamPos
      rawBufferSize := rawBufferSize
      pendingBufferPos := if self.state.pendingBufferPos = self.state.pendingBufferEnd then 0
        else self.state.pendingBufferPos
      pendingBufferEnd := if self.state.pendingBufferPos = self.state.pendingBufferEnd then 0
        else self.state.pendingBufferEnd } } := by
  unfold queued
  by_cases he : self.state.pendingBufferPos = self.state.pendingBufferEnd <;>
    simp only [he, if_true, if_false] <;> split <;> exact ⟨_, _, _, rfl⟩

theorem Valid.used_up (h : self.Valid options)
    (he : self.state.pendingBufferPos = self.state.pendingBufferEnd) :
    self.pending = [] ∧ self.state.bufferCachedEol = 0 := by
  have hnil : self.pending = [] := by rw [pending, he, window_self]
  refine ⟨hnil, ?_⟩
  rcases h with ⟨hb, -⟩ | ⟨-, -, -, hc⟩
  · rcases hb.cached with hz | ⟨-, hfind⟩
    · exact hz
    · rw [hnil] at hfind
      cases hfind
  · exact hc

theorem queued_spec (h : self.Valid options) : Queued options self self.queued := by
  obtain ⟨bufferPos, rawStreamPos, rawBufferSize, hq⟩ := queued_eq self
  rw [hq]
  by_cases he : self.state.pendingBufferPos = self.state.pendingBufferEnd
  · obtain ⟨hnil, hc⟩ := h.used_up he
    simp only [he, if_true]
    refine ⟨?_, (window_self _ _).trans hnil.symm, rfl, rfl, rfl, rfl, ?_⟩
    swap
    · intro hraw ht
      refine .inr ⟨rfl, rfl, ?_⟩
      show 0 ≤ self.state.pendingRawBufferSize
      rcases hraw ht with hr | ⟨-, -, hr⟩
      · omega
      · exact hr
    rcases h with ⟨hb, hsize⟩ | ⟨hnull, -, -, -⟩
    · exact .inl ⟨⟨Nat.le_refl _, Nat.zero_le _, hb.length, hb.small, .inl hc⟩, hsize⟩
    · exact .inr ⟨hnull, rfl, rfl, hc⟩
  · simp only [he, if_false]
    refine ⟨?_, rfl, rfl, rfl, rfl, rfl, id⟩
    rcases h with ⟨hb, hsize⟩ | ⟨hnull, hpos, hend, hc⟩
    · exact .inl ⟨⟨hb.pos_le, hb.end_le, hb.length, hb.small, hb.cached⟩, hsize⟩
    · exact .inr ⟨hnull, hpos, hend, hc⟩

end LogProtoTextServer

end SyslogNg.LogProto
