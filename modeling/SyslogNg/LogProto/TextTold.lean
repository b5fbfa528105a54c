import SyslogNg.LogProto.TextConvert

/-!
# What the text server tells of a complete message

`prepare` goes by the cached end of a line. After a fetch there is one whenever the buffer holds a
complete message (`Good`), unless a conversion has failed half way (`Converts`).
-/

namespace SyslogNg.LogProto

open Lib List Option
open Option (bind_eq_some_iff map_eq_some_iff)

namespace LogProtoTextServer

variable {self t : LogProtoTextServer}

/-- The buffer is allocated, and in order. -/
def Sound (self : LogProtoTextServer) : Prop := self.Bounds ∧ 0 < self.state.bufferSize

/-- The buffer holds no complete message. -/
def Quiet (self : LogProtoTextServer) : Prop :=
  (∀ c ∈ self.pending, isEom c = false) ∧ self.pending.length < self.state.bufferSize

/-- A complete message has its end cached. -/
def Told (self : LogProtoTextServer) : Prop := self.state.bufferCachedEol = 0 → self.Quiet

theorem quiet_of_nil (hs : self.Sound) (hnil : self.pending = []) : self.Quiet := by
  unfold Quiet
  rw [hnil]
  exact ⟨by simp, hs.2⟩

theorem NoLine.quiet {s : LogProtoTextServer} (h : NoLine s t) (hs : s.Sound) :
    t.Sound ∧ t.Quiet ∧ t.state.bufferCachedEol = 0 := by
  have hsize : 0 < t.state.bufferSize := Nat.zero_lt_of_lt h.room
  refine ⟨⟨h.bounds, hsize⟩, ⟨h.unfinished, ?_⟩, h.cached⟩
  have hlen := h.bounds.pending_length
  have hroom := h.room
  omega

variable {msg : Option (List UInt8)}

theorem takeLine_told (hs : self.Sound) (addr : Nat) {k : Nat}
    (hfind : self.pending.findIdx? isEom = some k)
    (ht : self.clearEol.takeLine addr self.state.pendingBufferPos
      (self.state.pendingBufferPos + k) = some (msg, t)) (hsound : t.Sound) : t.Told := by
  obtain ⟨hb, -⟩ := hs
  have hk : k < self.pending.length := (findIdx?_eq_some_iff_findIdx_eq.1 hfind).1
  have hlen := hb.pending_length
  have hend := hb.end_le
  have hsmall := hb.small
  unfold takeLine at ht
  rw [if_neg (by omega)] at ht
  obtain ⟨line, -, ht⟩ := bind_eq_some_iff.1 ht
  dsimp only at ht
  split at ht
  · obtain ⟨rest, hrest, heq⟩ := map_eq_some_iff.1 ht
    cases heq
    intro hcached
    have husub : usub32 self.state.pendingBufferEnd (self.state.pendingBufferPos + k + 1) =
        self.state.pendingBufferEnd - (self.state.pendingBufferPos + k + 1) :=
      usub32_of_le (by omega) (by omega)
    have hrest' : rest = window self.buffer (self.state.pendingBufferPos + k + 1)
        self.state.pendingBufferEnd := by
      unfold bytesAt at hrest
      split at hrest
      · cases hrest
        show window self.buffer _ (_ + usub32 self.state.pendingBufferEnd _) = _
        rw [husub]
        congr 1
        omega
      · cases hrest
    have hnone : rest.findIdx? isEom = none := by
      cases hr : rest.findIdx? isEom with
      | none => rfl
      | some j =>
        have hc : ((findEom (addr + (self.state.pendingBufferPos + k + 1)) rest).map
          (self.state.pendingBufferPos + k + 1 + ·)).getD 0 = 0 := hcached
        rw [findEom_eq_findIdx?, hr, map_some, getD_some] at hc
        omega
    refine ⟨fun c hc => ?_, ?_⟩
    · have hc : c ∈ window self.buffer (self.state.pendingBufferPos + k + 1)
        self.state.pendingBufferEnd := hc
      rw [← hrest'] at hc
      exact findIdx?_eq_none_iff.1 hnone c hc
    · have hl := hsound.1.pending_length
      have h1 := hsound.1.end_le
      have h2 : 0 < self.state.pendingBufferPos + k + 1 := by omega
      rw [hl]
      show self.state.pendingBufferEnd - (self.state.pendingBufferPos + k + 1) < self.state.bufferSize
      omega
  · cases ht
    intro _
    exact quiet_of_nil hsound (window_self _ _)

/-- **Taking a message from the buffer** leaves a server that tells of the next one. -/
theorem fetchFromBuf_told (hs : self.Sound) (addr : Nat)
    (ht : self.fetchFromBuf addr false = some (msg, t)) :
    t.Sound ∧ t.Told ∧ (msg = none → t.Quiet ∧ t.state.bufferCachedEol = 0 ∧ t.Reading) := by
  obtain ⟨hb, hpos⟩ := hs
  rcases fetchFromBuf_spec hb hpos addr with ⟨msg', t', hf, htook⟩ | ⟨t', hf, hno⟩
  swap
  · cases hf.symm.trans ht
    obtain ⟨h1, h2, h3⟩ := hno.quiet ⟨hb, hpos⟩
    exact ⟨h1, fun _ => h2, fun _ => ⟨h2, h3, hno.reading⟩⟩
  cases hf.symm.trans ht
  have hsound : t.Sound := ⟨htook.bounds, by rw [htook.same.bufferSize]; exact hpos⟩
  refine ⟨hsound, ?_, by simp⟩
  have hne : self.pending.length ≠ 0 := by
    intro hz
    obtain ⟨used, hp, hscan⟩ := htook.used
    rw [eq_nil_of_length_eq_zero hz] at hp
    obtain ⟨rfl, -⟩ := append_eq_nil_iff.1 hp.symm
    cases hscan
  unfold fetchFromBuf at hf
  simp only [hb.usub_end_pos] at hf
  rw [if_neg hne] at hf
  unfold textFetchFromBuf at hf
  simp only [Bool.false_eq_true, if_false] at hf
  rw [lookupEol_eq hb, bind_some] at hf
  cases hfind : self.pending.findIdx? isEom with
  | none =>
    rw [hfind] at hf
    simp only [map_none] at hf
    split at hf
    · rw [show self.pending.length = self.clearEol.pending.length from rfl,
        show self.state.pendingBufferPos = self.clearEol.state.pendingBufferPos from rfl,
        takeAll_eq hb.clearEol] at hf
      cases hf
      intro _
      exact quiet_of_nil hsound (window_self _ _)
    · obtain ⟨t', hsplit, -⟩ := splitBuffer_spec hb.clearEol rfl (by assumption)
        (findIdx?_eq_none_iff.1 hfind)
      cases hsplit.symm.trans hf
  | some k =>
    rw [hfind] at hf
    simp only [map_some] at hf
    exact takeLine_told ⟨hb, hpos⟩ addr hfind hf hsound

theorem flushAtEnd_told {T : Type} (hs : self.Sound) (hcached : self.state.bufferCachedEol = 0)
    (addr : Nat) {status status' : LogProtoStatus} {transport transport' : T}
    (ht : self.flushAtEnd addr status transport = some (status', msg, t, transport')) :
    t.Sound ∧ t.Quiet := by
  have hb : Bounds { self with status := status } :=
    ⟨hs.1.pos_le, hs.1.end_le, hs.1.length, hs.1.small, .inl hcached⟩
  unfold flushAtEnd at ht
  obtain ⟨⟨msg', t'⟩, hf, hres⟩ := map_eq_some_iff.1 ht
  have htt : t' = t := by
    cases msg' <;> cases hres <;> rfl
  subst htt
  unfold fetchFromBuf at hf
  simp only [hb.usub_end_pos] at hf
  split at hf
  · next hz =>
    cases hf
    have hno := resetBuffer_spec hb hs.2 (eq_nil_of_length_eq_zero hz) hcached
    obtain ⟨h1, h2, -⟩ := hno.quiet ⟨hb, hs.2⟩
    exact ⟨h1, h2⟩
  · unfold textFetchFromBuf at hf
    rw [if_pos rfl, takeAll_eq hb] at hf
    cases hf
    have hsound : Sound { self with
        status := status
        state := { self.state with pendingBufferPos := self.state.pendingBufferEnd } } :=
      ⟨⟨Nat.le_refl _, hs.1.end_le, hs.1.length, hs.1.small, .inl hcached⟩, hs.2⟩
    exact ⟨hsound, quiet_of_nil hsound (window_self _ _)⟩

theorem addBytes_sound (hs : self.Sound) (hcached : self.state.bufferCachedEol = 0) {bs : List UInt8}
    (ht : self.addBytes bs = some t) : t.Sound := by
  unfold addBytes at ht
  obtain ⟨buffer, hst, rfl⟩ := map_eq_some_iff.1 ht
  obtain ⟨hb, hpos⟩ := hs
  have h1 := hb.end_le
  have h2 := hb.length
  have h3 := hb.small
  have h4 := hb.pos_le
  have hfits : self.state.pendingBufferEnd + bs.length ≤ self.buffer.length := by
    unfold store at hst
    split at hst
    · assumption
    · cases hst
  have hend : (self.state.pendingBufferEnd + bs.length) % 2 ^ 32 =
      self.state.pendingBufferEnd + bs.length := by omega
  refine ⟨⟨?_, ?_, (store_length hst).trans h2, h3, .inl hcached⟩, hpos⟩
  · show self.state.pendingBufferPos ≤ (self.state.pendingBufferEnd + bs.length) % 2 ^ 32
    omega
  · show (self.state.pendingBufferEnd + bs.length) % 2 ^ 32 ≤ self.state.bufferSize
    omega

theorem readLoop_told {T : Type} {source : Source T} {addr rounds : Nat} (hs : self.Sound)
    (hq : self.Quiet) (hcached : self.state.bufferCachedEol = 0) {transport transport' : T}
    {mayRead : Bool} {status : LogProtoStatus}
    (ht : readLoop source addr rounds self transport mayRead = some (status, msg, t, transport')) :
    t.Sound ∧ t.Told := by
  induction rounds generalizing self transport mayRead with
  | zero => cases ht
  | succ rounds ih =>
    unfold readLoop at ht
    split at ht
    · cases ht
      exact ⟨hs, fun _ => hq⟩
    dsimp only at ht
    split at ht
    · cases ht
      exact ⟨hs, fun _ => hq⟩
    · obtain ⟨h1, h2⟩ := flushAtEnd_told hs hcached addr ht
      exact ⟨h1, fun _ => h2⟩
    · obtain ⟨h1, h2⟩ := flushAtEnd_told hs hcached addr ht
      exact ⟨h1, fun _ => h2⟩
    · obtain ⟨u, hadd, ht⟩ := bind_eq_some_iff.1 ht
      have hu := addBytes_sound hs hcached hadd
      obtain ⟨⟨msg', v⟩, hv, ht⟩ := bind_eq_some_iff.1 ht
      obtain ⟨h1, h2, h3⟩ := fetchFromBuf_told hu addr hv
      cases msg' with
      | some m =>
        cases ht
        exact ⟨h1, h2⟩
      | none =>
        obtain ⟨hquiet, hzero, -⟩ := h3 rfl
        exact ih h1 hquiet hzero ht

/-- The buffer is not allocated yet. -/
def Fresh (self : LogProtoTextServer) : Prop :=
  self.buffer = [] ∧ self.state.pendingBufferPos = 0 ∧ self.state.pendingBufferEnd = 0 ∧
    self.state.bufferCachedEol = 0

/-- A server between two fetches that tells of a complete message. -/
def Good (self : LogProtoTextServer) : Prop := self.Fresh ∨ self.Sound ∧ self.Told

theorem Good.allocate (h : self.Good) {options : LogProtoServerOptions}
    (hinit : 0 < options.initBufferSize) (hmax : options.initBufferSize < 2 ^ 31) (junk : UInt8) :
    (self.allocate options junk).Sound := by
  obtain hfresh | ⟨hs, -⟩ := h
  · have ha := allocate_spec junk hinit hmax (.inr hfresh)
    exact ⟨ha.bounds, by rw [ha.bufferSize]; exact hinit⟩
  · have hne : self.buffer.isEmpty = false := by
      rw [isEmpty_eq_false_iff, ← length_pos_iff, hs.1.length]
      exact hs.2
    unfold LogProtoTextServer.allocate
    rw [hne]
    exact hs

theorem Good.queued (h : self.Good) : self.queued.Good := by
  obtain ⟨bufferPos, rawStreamPos, rawBufferSize, hq⟩ := queued_eq self
  have hnil : self.pending = [] → self.state.bufferCachedEol = 0 := by
    intro hnil
    obtain ⟨-, -, -, hc⟩ | ⟨hs, -⟩ := h
    · exact hc
    rcases hs.1.cached with hz | ⟨-, hfind⟩
    · exact hz
    · rw [hnil] at hfind
      cases hfind
  rw [hq]
  by_cases he : self.state.pendingBufferPos = self.state.pendingBufferEnd
  · simp only [he, if_true]
    have hc := hnil (by rw [pending, he, window_self])
    obtain ⟨hnull, -⟩ | ⟨hs, -⟩ := h
    · exact .inl ⟨hnull, rfl, rfl, hc⟩
    · right
      have hsound : Sound { self with state := { self.state with
          bufferPos := bufferPos
          rawStreamPos := rawStreamPos
          rawBufferSize := rawBufferSize
          pendingBufferPos := 0
          pendingBufferEnd := 0 } } :=
        ⟨⟨Nat.le_refl _, Nat.zero_le _, hs.1.length, hs.1.small, .inl hc⟩, hs.2⟩
      exact ⟨hsound, fun _ => quiet_of_nil hsound (window_self _ _)⟩
  · simp only [he, if_false]
    obtain ⟨hnull, hpos, hend, hc⟩ | ⟨hs, htold⟩ := h
    · exact .inl ⟨hnull, hpos, hend, hc⟩
    · exact .inr ⟨⟨⟨hs.1.pos_le, hs.1.end_le, hs.1.length, hs.1.small, hs.1.cached⟩, hs.2⟩, htold⟩

theorem Good.status (h : self.Good) (status : LogProtoStatus) : Good { self with status := status } := by
  obtain hfresh | ⟨hs, htold⟩ := h
  · exact .inl hfresh
  · exact .inr ⟨⟨⟨hs.1.pos_le, hs.1.end_le, hs.1.length, hs.1.small, hs.1.cached⟩, hs.2⟩, htold⟩

theorem Good.fetch (h : self.Good) {T : Type} {source : Source T} {options : LogProtoServerOptions}
    (hinit : 0 < options.initBufferSize) (hmax : options.initBufferSize < 2 ^ 31) {junk : UInt8}
    {addr : Nat} {transport transport' : T} {mayRead : Bool} {status : LogProtoStatus}
    {msg : Option (List UInt8)}
    (ht : self.fetch source options junk addr transport mayRead = some (status, msg, t, transport')) :
    t.Good := by
  unfold LogProtoTextServer.fetch at ht
  split at ht
  swap
  · cases ht
    exact h
  unfold bufferedFetch at ht
  obtain ⟨⟨msg', u⟩, hu, ht⟩ := bind_eq_some_iff.1 ht
  obtain ⟨h1, h2, h3⟩ := fetchFromBuf_told (h.allocate hinit hmax junk) addr hu
  cases msg' with
  | some m =>
    cases ht
    exact .inr ⟨h1, h2⟩
  | none =>
    obtain ⟨hquiet, hzero, -⟩ := h3 rfl
    exact .inr (readLoop_told h1 hquiet hzero ht)

end LogProtoTextServer

namespace ConvertingServer

open LogProtoTextServer

variable {server t : LogProtoTextServer} {options : LogProtoServerOptions} {junk : UInt8}

theorem fetchFromBuf_told (hs : server.Sound) {addr : Nat} {rawSize : List UInt8 → Nat}
    {msg : Option (List UInt8)} (ht : fetchFromBuf addr rawSize server = some (msg, t)) :
    t.Sound ∧ t.Told ∧ (msg = none → t.Quiet ∧ t.state.bufferCachedEol = 0) := by
  unfold fetchFromBuf at ht
  obtain ⟨⟨msg', u⟩, hu, hres⟩ := map_eq_some_iff.1 ht
  obtain ⟨h1, h2, h3⟩ := LogProtoTextServer.fetchFromBuf_told hs addr hu
  cases msg' with
  | some m =>
    cases hres
    exact ⟨h1, h2, by simp⟩
  | none =>
    obtain ⟨hquiet, hzero, -⟩ := h3 rfl
    dsimp only at hres
    split at hres
    · cases hres
      exact ⟨⟨⟨h1.1.pos_le, h1.1.end_le, h1.1.length, h1.1.small, h1.1.cached⟩, h1.2⟩, h2,
        fun _ => ⟨hquiet, hzero⟩⟩
    · cases hres
      exact ⟨h1, h2, fun _ => ⟨hquiet, hzero⟩⟩

theorem advance_sound (hs : server.Sound) (hcached : server.state.bufferCachedEol = 0)
    {out buffer : List UInt8}
    (hroom : ¬ usub32 server.state.bufferSize server.state.pendingBufferEnd < out.length)
    (hst : store server.buffer server.state.pendingBufferEnd out = some buffer) :
    (advance out.length { server with buffer := buffer }).Sound := by
  have h1 := hs.1.end_le
  have h2 := hs.1.small
  rw [usub32_of_le h1 (by omega)] at hroom
  refine ⟨⟨Nat.le_trans hs.1.pos_le (Nat.le_add_right _ _), ?_, (store_length hst).trans hs.1.length,
    h2, .inl hcached⟩, hs.2⟩
  show server.state.pendingBufferEnd + out.length ≤ server.state.bufferSize
  omega

theorem grow_sound (junk : UInt8) (hs : server.Sound) (hcached : server.state.bufferCachedEol = 0)
    (hmax : options.maxBufferSize < 2 ^ 31) (hsize : server.state.bufferSize < options.maxBufferSize) :
    (grow options junk server).Sound := by
  have hle : server.state.bufferSize ≤ doubled options server.state.bufferSize := by
    unfold doubled
    split <;> omega
  have hlt : doubled options server.state.bufferSize < 2 ^ 31 := by
    unfold doubled
    split <;> omega
  exact ⟨⟨hs.1.pos_le, hs.1.end_le.trans hle, realloc_length _ _ _, hlt, .inl hcached⟩,
    Nat.lt_of_lt_of_le hs.2 hle⟩

/-- **A conversion** keeps the buffer in order; one that fails at once has left it as it was. -/
theorem convertFromRaw_spec (hmax : options.maxBufferSize < 2 ^ 31) {calls : List IconvCall}
    (hs : server.Sound) (hcached : server.state.bufferCachedEol = 0) (first : Bool)
    {leftover : Option (List UInt8)} (ht : convertFromRaw options junk calls server = some (leftover, t)) :
    t.Sound ∧ t.state.bufferCachedEol = 0 ∧
      (Converts options first server.state.bufferSize calls → leftover = none →
        first = true ∧ t.pending = server.pending ∧ t.state.bufferSize = server.state.bufferSize) := by
  induction calls generalizing server first with
  | nil => cases ht
  | cons call calls ih =>
    unfold convertFromRaw at ht
    split at ht
    · cases ht
    next hroom =>
    obtain ⟨buffer, hst, ht⟩ := bind_eq_some_iff.1 ht
    have hadv := advance_sound hs hcached hroom hst
    dsimp only at ht
    split at ht
    · next hstatus =>
      -- what was written lies behind the bytes that count
      cases ht
      refine ⟨⟨⟨hs.1.pos_le, hs.1.end_le, (store_length hst).trans hs.1.length, hs.1.small,
        .inl hcached⟩, hs.2⟩, hcached, fun hconv _ => ⟨hconv.1 hstatus, ?_, rfl⟩⟩
      unfold store at hst
      split at hst
      · next hfits =>
        cases hst
        unfold pending window
        dsimp only
        rw [append_assoc, take_append_of_le_length (by simp; omega), take_take,
          Nat.min_self]
      · cases hst
    · next hstatus =>
      split at ht
      · cases ht
        exact ⟨hadv, hcached, by simp⟩
      · obtain ⟨h1, h2, h3⟩ := ih hadv hcached false ht
        refine ⟨h1, h2, fun hconv hnone => ?_⟩
        cases (h3 (hconv.2.2.2 hstatus) hnone).1
    · next hstatus =>
      split at ht
      · cases ht
        exact ⟨hadv, hcached, by simp⟩
      split at ht
      · next hlong =>
        cases ht
        exact ⟨hadv, hcached, fun hconv _ => absurd (hconv.2.1 hstatus) (by omega)⟩
      · cases ht
        exact ⟨⟨⟨hadv.1.pos_le, hadv.1.end_le, hadv.1.length, hadv.1.small, hadv.1.cached⟩, hadv.2⟩,
          hcached, by simp⟩
    · next hstatus =>
      split at ht
      · next hsize =>
        have hgrow := grow_sound junk hadv hcached hmax hsize
        split at ht
        · cases ht
          exact ⟨hgrow, hcached, by simp⟩
        · obtain ⟨h1, h2, h3⟩ := ih hgrow hcached false ht
          refine ⟨h1, h2, fun hconv hnone => ?_⟩
          cases (h3 (hconv.2.2.1 hstatus).2 hnone).1
      · next hsize =>
        cases ht
        exact ⟨hadv, hcached, fun hconv _ => absurd (hconv.2.2.1 hstatus).1 hsize⟩

theorem doubled_mono {size size' : Nat} (h : size ≤ size') :
    doubled options size ≤ doubled options size' := by
  unfold doubled
  split <;> split <;> omega

theorem le_sizeAfter (options : LogProtoServerOptions) (calls : List IconvCall) (size : Nat) :
    size ≤ sizeAfter options size calls := by
  induction calls generalizing size with
  | nil => exact Nat.le_refl _
  | cons call calls ih =>
    unfold sizeAfter
    refine Nat.le_trans ?_ (ih _)
    split
    · exact Nat.le_max_left _ _
    · exact Nat.le_refl _

theorem sizeAfter_mono {size size' : Nat} (h : size ≤ size') (calls : List IconvCall) :
    sizeAfter options size calls ≤ sizeAfter options size' calls := by
  induction calls generalizing size size' with
  | nil => exact h
  | cons call calls ih =>
    unfold sizeAfter
    split
    · exact ih (max_le_max h (doubled_mono h))
    · exact ih h

theorem Converts.mono {first : Bool} {size size' : Nat} {calls : List IconvCall} (hle : size ≤ size')
    (h : Converts options first size' calls) : Converts options first size calls := by
  induction calls generalizing first size size' with
  | nil => trivial
  | cons call calls ih =>
    obtain ⟨h1, h2, h3, h4⟩ := h
    exact ⟨h1, h2, fun hf => ⟨Nat.lt_of_le_of_lt hle (h3 hf).1, ih (doubled_mono hle) (h3 hf).2⟩,
      fun hf => ih hle (h4 hf)⟩

theorem ConvertsAll.mono {size size' : Nat} {chunks : List (List IconvCall)} (hle : size ≤ size')
    (h : ConvertsAll options size' chunks) : ConvertsAll options size chunks := by
  induction chunks generalizing size size' with
  | nil => trivial
  | cons calls chunks ih => exact ⟨h.1.mono hle, ih (sizeAfter_mono hle calls) h.2⟩

theorem convertFromRaw_size {calls : List IconvCall} {leftover : Option (List UInt8)}
    (ht : convertFromRaw options junk calls server = some (leftover, t)) :
    t.state.bufferSize ≤ sizeAfter options server.state.bufferSize calls := by
  induction calls generalizing server with
  | nil => cases ht
  | cons call calls ih =>
    unfold convertFromRaw at ht
    split at ht
    · cases ht
    obtain ⟨buffer, hst, ht⟩ := bind_eq_some_iff.1 ht
    have hle := le_sizeAfter options (call :: calls) server.state.bufferSize
    dsimp only at ht
    split at ht
    · cases ht
      exact hle
    · next hstatus =>
      split at ht
      · cases ht
        exact hle
      · have h := ih ht
        unfold sizeAfter
        rw [if_neg (by rw [hstatus]; decide)]
        exact h
    · split at ht
      · cases ht
        exact hle
      split at ht
      · cases ht
        exact hle
      · cases ht
        exact hle
    · next hstatus =>
      have hgrown : sizeAfter options (doubled options server.state.bufferSize) calls ≤
          sizeAfter options server.state.bufferSize (call :: calls) := by
        conv_rhs => unfold sizeAfter
        rw [if_pos hstatus]
        exact sizeAfter_mono (Nat.le_max_right _ _) calls
      split at ht
      · split at ht
        · cases ht
          exact (le_sizeAfter options calls _).trans hgrown
        · exact (ih ht).trans hgrown
      · cases ht
        exact hle

variable {rawSize : List UInt8 → Nat} {msg : Option (List UInt8)}

theorem fetchFromBuf_size (hs : server.Sound) {addr : Nat}
    (ht : fetchFromBuf addr rawSize server = some (msg, t)) :
    t.state.bufferSize = server.state.bufferSize := by
  unfold fetchFromBuf at ht
  obtain ⟨⟨msg', u⟩, hu, hres⟩ := map_eq_some_iff.1 ht
  have hsize : u.state.bufferSize = server.state.bufferSize := by
    rcases fetchFromBuf_spec hs.1 hs.2 addr with ⟨m, v, hf, htook⟩ | ⟨v, hf, hno⟩
    · cases hf.symm.trans hu
      exact htook.same.bufferSize
    · cases hf.symm.trans hu
      exact hno.same.bufferSize
  cases msg' with
  | some m =>
    cases hres
    exact hsize
  | none =>
    dsimp only at hres
    split at hres <;> cases hres <;> exact hsize

theorem readLoop_told (hmax : options.maxBufferSize < 2 ^ 31) {addr rounds : Nat}
    {self next : ConvertingServer} (hs : self.server.Sound) (hq : self.server.Quiet)
    (hcached : self.server.state.bufferCachedEol = 0) {chunks : List (List IconvCall)}
    {transport : LogTransport} {mayRead : Bool} {status : LogProtoStatus}
    (hconv : ConvertsAll options self.server.state.bufferSize chunks)
    (ht : readLoop options junk addr rawSize chunks rounds self transport mayRead =
      some (status, msg, next)) : next.server.Sound ∧ next.server.Told := by
  induction rounds generalizing self transport mayRead chunks with
  | zero => cases ht
  | succ rounds ih =>
    have hflush : ∀ {st : LogProtoStatus},
        ((self.server.flushAtEnd addr st transport).map fun r =>
          (r.1, r.2.1, { self with server := r.2.2.1 })) = some (status, msg, next) →
        next.server.Sound ∧ next.server.Told := by
      intro st h
      obtain ⟨⟨st', msg', server, tr⟩, hf, hres⟩ := map_eq_some_iff.1 h
      cases hres
      obtain ⟨h1, h2⟩ := flushAtEnd_told hs hcached addr hf
      exact ⟨h1, fun _ => h2⟩
    unfold readLoop at ht
    split at ht
    · cases ht
      exact ⟨hs, fun _ => hq⟩
    dsimp only at ht
    split at ht
    · cases ht
      exact ⟨hs, fun _ => hq⟩
    · exact hflush ht
    · split at ht
      · exact hflush ht
      · cases ht
        exact ⟨⟨⟨hs.1.pos_le, hs.1.end_le, hs.1.length, hs.1.small, hs.1.cached⟩, hs.2⟩, fun _ => hq⟩
    · next bs transport' _ =>
      obtain ⟨⟨leftover, server⟩, hraw, ht⟩ := bind_eq_some_iff.1 ht
      have hs' : Sound { self.server with state := { self.server.state with
          pendingRawBufferSize := wrap32 (self.server.state.pendingRawBufferSize + bs.length) } } :=
        ⟨⟨hs.1.pos_le, hs.1.end_le, hs.1.length, hs.1.small, hs.1.cached⟩, hs.2⟩
      obtain ⟨hsound, hzero, hfail⟩ := convertFromRaw_spec hmax hs' hcached true hraw
      have hsize := convertFromRaw_size hraw
      cases leftover with
      | none =>
        cases ht
        refine ⟨⟨⟨hsound.1.pos_le, hsound.1.end_le, hsound.1.length, hsound.1.small,
          hsound.1.cached⟩, hsound.2⟩, fun _ => ?_⟩
        cases chunks with
        | nil => cases hraw
        | cons calls chunks =>
          obtain ⟨-, hpend, hsame⟩ := hfail hconv.1 rfl
          have hq' : server.Quiet := by
            unfold Quiet
            rw [hpend, hsame]
            exact hq
          exact hq'
      | some leftover =>
        obtain ⟨⟨msg', u⟩, hu, ht⟩ := bind_eq_some_iff.1 ht
        obtain ⟨h1, h2, h3⟩ := fetchFromBuf_told hsound hu
        cases msg' with
        | some m =>
          cases ht
          exact ⟨h1, h2⟩
        | none =>
          obtain ⟨hquiet, hz⟩ := h3 rfl
          cases chunks with
          | nil => cases hraw
          | cons calls chunks =>
            refine ih h1 hquiet hz (hconv.2.mono ?_) ht
            exact (Nat.le_of_eq (fetchFromBuf_size hsound hu)).trans hsize

/-- The size of the buffer when a fetch starts. -/
def sizeBefore (options : LogProtoServerOptions) (self : ConvertingServer) : Nat :=
  if self.server.buffer.isEmpty then options.initBufferSize else self.server.state.bufferSize

/-- **A fetch** whose conversions do not fail half way leaves a server that tells of a complete
message. -/
theorem fetch_good {self next : ConvertingServer} (h : self.server.Good)
    (hinit : 0 < options.initBufferSize) (hinit' : options.initBufferSize < 2 ^ 31)
    (hmax : options.maxBufferSize < 2 ^ 31) {addr : Nat} {mayRead : Bool} {env : TextEnv}
    {status : LogProtoStatus}
    (hconv : self.encoding = true → ConvertsAll options (sizeBefore options self) env.iconvs)
    (ht : fetch options junk addr rawSize self mayRead env = some (status, msg, next)) :
    next.server.Good := by
  unfold fetch at ht
  split at ht
  swap
  · obtain ⟨⟨st, m, server, tr⟩, hf, hres⟩ := map_eq_some_iff.1 ht
    cases hres
    exact h.fetch hinit hinit' hf
  next henc =>
  split at ht
  swap
  · cases ht
    exact h
  have halloc := h.allocate hinit hinit' junk
  have hsize : (self.server.allocate options junk).state.bufferSize = sizeBefore options self := by
    unfold LogProtoTextServer.allocate sizeBefore
    split <;> rfl
  obtain ⟨⟨msg', u⟩, hu, ht⟩ := bind_eq_some_iff.1 ht
  obtain ⟨h1, h2, h3⟩ := fetchFromBuf_told halloc hu
  cases msg' with
  | some m =>
    cases ht
    exact .inr ⟨h1, h2⟩
  | none =>
    obtain ⟨hquiet, hzero⟩ := h3 rfl
    refine .inr (readLoop_told hmax (show ConvertingServer.server { self with server := u } |>.Sound from h1)
      hquiet hzero ?_ ht)
    show ConvertsAll options u.state.bufferSize env.iconvs
    rw [fetchFromBuf_size halloc hu, hsize]
    exact hconv henc

theorem prepare_of_holdsMessage {self : ConvertingServer} (h : self.server.Good) (hm : self.HoldsMessage) :
    self.prepare = true := by
  unfold prepare
  rw [decide_eq_true_eq]
  intro hc
  have hquiet : self.server.Quiet ∨ self.server.pending = [] := by
    obtain ⟨hnull, hpos, hend, -⟩ | ⟨-, htold⟩ := h
    · right
      rw [pending, hpos, hend, window_self]
    · exact .inl (htold hc)
  obtain ⟨c, hmem, heom⟩ | ⟨hne, hfull⟩ := hm
  · obtain hq | hnil := hquiet
    · rw [hq.1 c hmem] at heom
      cases heom
    · rw [hnil] at hmem
      cases hmem
  · obtain hq | hnil := hquiet
    · have := hq.2
      omega
    · exact hne hnil

end ConvertingServer

end SyslogNg.LogProto
