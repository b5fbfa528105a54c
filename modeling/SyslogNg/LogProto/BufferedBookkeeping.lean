import SyslogNg.LogProto.BufferedPositions
import SyslogNg.LogProto.BufferedRestart

/-!
# Runs of a buffered server

A restart keeps the positions in order where its entry is. Three things break them: a version 3 entry
allocates the buffer without a `buffer_size`, the cached end of a line is not checked against the buffer
that is read again, and the bytes that a conversion leaves over are taken off `raw_buffer_size` where a
fetch has counted them in `pending_raw_buffer_size`.
-/

namespace SyslogNg.LogProto

open Lib Option List

/-! ## A restart -/

def FileStat.Continues (stat : FileStat) (state : LogProtoBufferedServerState) : Prop :=
  state.fileInode ≠ 0 ∧ state.fileInode = stat.inode ∧ state.fileSize ≤ stat.size ∧
    state.rawStreamPos ≤ stat.size

def reloadedEnd (kind : BufferedKind) (encoding : Bool) (iconvs : List IconvCall) (raw : Int) : Nat :=
  if encoding then convertedLength (kind.iconvs iconvs) else raw.toNat

/-- The record can be applied: the end of a line that it holds is one of the buffer that is read again,
or is dropped with the positions. Where the file is not known, the positions have to do as they are. -/
structure RecordInOrder (kind : BufferedKind) (options : LogProtoServerOptions) (encoding : Bool)
    (env : RestartEnv) (state : LogProtoBufferedServerState) : Prop where
  unknown : env.stat = none → Tidy kind options.initBufferSize state
  nothing : ∀ stat, env.stat = some stat → stat.Continues state → state.rawBufferSize = 0 →
    state.bufferCachedEol = 0
  eol : ∀ stat, env.stat = some stat → stat.Continues state → state.rawBufferSize ≠ 0 →
    reloadedEnd kind encoding env.iconvs state.rawBufferSize < state.bufferPos ∨
      reloadedEnd kind encoding env.iconvs state.rawBufferSize < state.bufferCachedEol ∨
      state.bufferCachedEol = 0 ∨
      (kind = .text ∧ state.bufferPos ≤ state.bufferCachedEol ∧
        state.bufferCachedEol < reloadedEnd kind encoding env.iconvs state.rawBufferSize)
  left : ∀ stat, env.stat = some stat → stat.Continues state → state.rawBufferSize ≠ 0 →
    encoding = true → leftoverOf (kind.iconvs env.iconvs) ≤ state.rawBufferSize

/-- The entry can be taken: a version 3 entry only where its conversion fails. -/
def StoredEntry.InOrder (kind : BufferedKind) (options : LogProtoServerOptions) (encoding : Bool)
    (env : RestartEnv) : StoredEntry → Prop
  | .missing => True
  | .old persistVersion data =>
    env.allocates = true → persistVersion.val = 3 → readV3 (data.drop 4) = none
  | .current stored => stored.version = 0 →
    RecordInOrder kind options encoding env (stored.onHost env.hostBigEndian).state

section

variable {kind : BufferedKind} {options : LogProtoServerOptions} {junk : UInt8} {stat : FileStat}
  {env : RestartEnv} {self t : ConvertingServer}

theorem recordInOrder_of_new {encoding : Bool} {state : LogProtoBufferedServerState}
    (hinode : state.fileInode = 0) (hnew : Tidy kind 0 state) :
    RecordInOrder kind options encoding env state := by
  refine ⟨fun _ => ⟨hnew.pos_le, by have := hnew.end_le; omega, hnew.eol, hnew.raw, hnew.pendingRaw⟩,
    ?_, ?_, ?_⟩
  · exact fun _ _ hsame => absurd hinode hsame.1
  · exact fun _ _ hsame => absurd hinode hsame.1
  · exact fun _ _ hsame => absurd hinode hsame.1

theorem finishApply_working (hlen : self.server.buffer.length = self.server.state.bufferSize)
    (hsmall : self.server.state.bufferSize < 2 ^ 32)
    (hpos : self.server.state.bufferPos ≤ self.server.state.pendingBufferEnd)
    (hend : self.server.state.pendingBufferEnd ≤ self.server.state.bufferSize)
    (heol : self.server.state.bufferCachedEol = 0 ∨ (kind = .text ∧
      self.server.state.bufferPos ≤ self.server.state.bufferCachedEol ∧
        self.server.state.bufferCachedEol < self.server.state.pendingBufferEnd))
    (hraw : 0 ≤ self.server.state.rawBufferSize ∧ self.server.state.rawBufferSize < 2 ^ 31) (ofs : Int) :
    Working kind (finishApply stat ofs self).server :=
  ⟨hlen, hsmall, ⟨hpos, hend, heol, hraw, hraw⟩⟩

theorem restartApply_working (hlen : self.server.buffer.length = self.server.state.bufferSize)
    (hsmall : self.server.state.bufferSize < 2 ^ 32) : Working kind (restartApply stat self).server := by
  have hzero : (0 : Int) ≤ 0 ∧ (0 : Int) < 2 ^ 31 := by decide
  unfold restartApply
  apply finishApply_working
  · exact hlen
  · exact hsmall
  · exact Nat.le_refl _
  · exact Nat.zero_le _
  · exact .inl rfl
  · exact hzero

theorem resumeApply_working (hlen : self.server.buffer.length = self.server.state.bufferSize)
    (hsmall : self.server.state.bufferSize < 2 ^ 32)
    (hend : self.server.state.pendingBufferEnd ≤ self.server.state.bufferSize)
    (heol : self.server.state.pendingBufferEnd < self.server.state.bufferPos ∨
      self.server.state.pendingBufferEnd < self.server.state.bufferCachedEol ∨
      self.server.state.bufferCachedEol = 0 ∨
      (kind = .text ∧ self.server.state.bufferPos ≤ self.server.state.bufferCachedEol ∧
        self.server.state.bufferCachedEol < self.server.state.pendingBufferEnd))
    (hraw : 0 ≤ self.server.state.rawBufferSize ∧ self.server.state.rawBufferSize < 2 ^ 31) :
    Working kind (resumeApply stat self).server := by
  unfold resumeApply
  dsimp only
  split
  case isTrue =>
    apply finishApply_working
    · exact hlen
    · exact hsmall
    · exact Nat.zero_le _
    · exact hend
    · exact .inl rfl
    · exact hraw
  case isFalse hin =>
    rw [not_or, Nat.not_lt, Nat.not_lt] at hin
    refine finishApply_working hlen hsmall hin.1 hend ?_ hraw _
    rcases heol with hlt | hlt | heol
    · exact absurd hin.1 (Nat.not_le.mpr hlt)
    · exact absurd hin.2 (Nat.not_le.mpr hlt)
    · exact heol

theorem reloadApply_working (hmax : options.maxBufferSize < 2 ^ 31) {transport : LogTransport}
    {calls : List IconvCall} (hlen : self.server.buffer.length = self.server.state.bufferSize)
    (hsmall : self.server.state.bufferSize < 2 ^ 32) (hraw : self.server.state.rawBufferSize < 2 ^ 31)
    (hstart : self.server.state.pendingBufferEnd = 0)
    (hleft : self.encoding = true → leftoverOf calls ≤ self.server.state.rawBufferSize)
    (heol : ∀ n, n = (if self.encoding then convertedLength calls
        else self.server.state.rawBufferSize.toNat) →
      n < self.server.state.bufferPos ∨ n < self.server.state.bufferCachedEol ∨
      self.server.state.bufferCachedEol = 0 ∨
      (kind = .text ∧ self.server.state.bufferPos ≤ self.server.state.bufferCachedEol ∧
        self.server.state.bufferCachedEol < n))
    (ht : reloadApply options junk stat transport calls self = some t) : Working kind t.server := by
  have hrestart : Working kind (restartApply stat self).server := restartApply_working hlen hsmall
  unfold reloadApply at ht
  dsimp only at ht
  split at ht
  case isTrue hencoding =>
    have hleft := hleft hencoding
    rw [if_pos hencoding] at heol
    split at ht
    case isTrue =>
      cases ht
      exact hrestart
    case isFalse =>
    split at ht
    case isTrue => cases ht
    case isFalse hneg =>
    split at ht
    case h_2 =>
      cases ht
      exact hrestart
    case h_1 bs _ =>
    split at ht
    case isTrue =>
      cases ht
      exact hrestart
    case isFalse =>
      obtain ⟨⟨leftover, server⟩, hconv, heq⟩ := map_eq_some_iff.mp ht
      have hc := ConvertingServer.convertFromRaw_converted hmax ⟨hlen, hsmall, by omega⟩ hraw hleft
        hconv
      cases leftover with
      | none =>
        cases heq
        exact restartApply_working hc.room.length hc.room.small
      | some leftover =>
        cases heq
        have hend : server.state.pendingBufferEnd = convertedLength calls := by
          rw [hc.length nofun, hstart, Nat.zero_add]
        have hposEq : server.state.bufferPos = self.server.state.bufferPos := by rw [hc.state]
        have heolEq : server.state.bufferCachedEol = self.server.state.bufferCachedEol := by
          rw [hc.state]
        have hraw' := hc.raw
        apply resumeApply_working
        · exact hc.room.length
        · exact hc.room.small
        · exact hc.room.end_le
        · rw [hposEq, heolEq]
          exact heol _ hend
        · exact ⟨by dsimp only; omega, by dsimp only; omega⟩
  case isFalse hencoding =>
    rw [if_neg hencoding] at heol
    split at ht
    case isTrue =>
      cases ht
      exact hrestart
    case isFalse =>
    split at ht
    case h_2 =>
      cases ht
      exact hrestart
    case h_1 bs _ =>
      obtain ⟨buffer, hst, heq⟩ := map_eq_some_iff.mp ht
      have hlen' : buffer.length = self.server.state.bufferSize := (store_length hst).trans hlen
      have hfit := store_fits hst
      split at heq
      case isTrue =>
        cases heq
        exact restartApply_working hlen' hsmall
      case isFalse hread =>
        cases heq
        rw [ne_eq, Classical.not_not] at hread
        apply resumeApply_working
        · exact hlen'
        · exact hsmall
        · show bs.length ≤ self.server.state.bufferSize
          omega
        · exact heol bs.length (by rw [← hread]; rfl)
        · exact ⟨by dsimp only; omega, hraw⟩

/-- **`log_proto_buffered_server_apply_state`** of a server that has no buffer yet. -/
theorem applyState_kept (hmax : options.maxBufferSize < 2 ^ 31) (hnil : self.server.buffer = [])
    (hsized : self.server.state.bufferSize < 2 ^ 32) (hraw : self.server.state.rawBufferSize < 2 ^ 31)
    (h : RecordInOrder kind options self.encoding env self.server.state)
    (ht : applyState options junk env.stat env.transport (kind.iconvs env.iconvs) self = some t) :
    Kept kind options t.server := by
  unfold applyState at ht
  split at ht
  case h_1 hstat =>
    cases ht
    exact .inr ⟨hnil, h.unknown hstat⟩
  case h_2 stat hstat =>
    have hlen : (replicate self.server.state.bufferSize junk).length =
        self.server.state.bufferSize := length_replicate
    rw [hnil, isEmpty_nil, if_pos rfl] at ht
    dsimp only at ht
    refine .inl ?_
    split at ht
    case isFalse =>
      cases ht
      exact restartApply_working hlen hsized
    case isTrue hsame =>
      have hfile : stat.Continues self.server.state := hsame
      split at ht
      case isTrue hne =>
        refine reloadApply_working hmax ?_ ?_ ?_ ?_ ?_ ?_ ht
        · exact hlen
        · exact hsized
        · exact hraw
        · rfl
        · exact h.left stat hstat hfile hne
        · rintro n rfl
          exact h.eol stat hstat hfile hne
      case isFalse hz =>
        rw [ne_eq, Classical.not_not] at hz
        have heol := h.nothing stat hstat hfile hz
        cases ht
        apply finishApply_working
        · exact hlen
        · exact hsized
        · exact Nat.le_refl _
        · exact Nat.zero_le _
        · exact .inl heol
        · show 0 ≤ self.server.state.rawBufferSize ∧ self.server.state.rawBufferSize < 2 ^ 31
          omega

/-- **`log_proto_buffered_server_restart_with_state`** of a new server. -/
theorem restart_kept (hmax : options.maxBufferSize < 2 ^ 31) {entry : StoredEntry}
    {noMultiRead encoding success : Bool} (h : entry.InOrder kind options encoding env)
    (ht : restartWithState options junk kind entry env (bufferedServerNew noMultiRead encoding) =
      some (success, t)) : Kept kind options t.server := by
  have hzero : Tidy kind 0 LogProtoBufferedServerState.zero :=
    ⟨Nat.le_refl _, Nat.le_refl _, .inl rfl, ⟨Int.le_refl _, by decide⟩, ⟨Int.le_refl _, by decide⟩⟩
  have hold : ∀ ofs, Tidy kind 0
      { LogProtoBufferedServerState.zero with fileInode := 0, rawStreamPos := ofs, fileSize := 0 } :=
    fun ofs => ⟨hzero.pos_le, hzero.end_le, hzero.eol, hzero.raw, hzero.pendingRaw⟩
  -- a record that was just allocated starts the file from its beginning
  have hfresh : ∀ {u : ConvertingServer}, u.server.buffer = [] →
      u.server.state = .zero →
      applyState options junk env.stat env.transport (kind.iconvs env.iconvs) u = some t →
      Kept kind options t.server := by
    intro u hbuffer hstate ht
    refine applyState_kept hmax hbuffer ?_ ?_ ?_ ht
    · rw [hstate]
      decide
    · rw [hstate]
      decide
    · rw [hstate]
      exact recordInOrder_of_new rfl hzero
  have hfallback : Kept kind options
      { (bufferedServerNew noMultiRead encoding).server with posTracking := true, state := .zero } :=
    .inr ⟨rfl, ⟨Nat.le_refl _, Nat.zero_le _, hzero.eol, hzero.raw, hzero.pendingRaw⟩⟩
  unfold restartWithState at ht
  cases entry with
  | missing =>
    dsimp only at ht
    split at ht
    case isTrue =>
      obtain ⟨u, happly, heq⟩ := map_eq_some_iff.mp ht
      cases heq
      exact hfresh rfl rfl happly
    case isFalse =>
      cases ht
      exact hfallback
  | old persistVersion data =>
    dsimp only at ht
    split at ht
    case isFalse =>
      cases ht
      exact hfallback
    case isTrue hallocates =>
      obtain ⟨⟨converted, server⟩, hconvert, ht⟩ := bind_eq_some_iff.mp ht
      obtain ⟨u, happly, heq⟩ := map_eq_some_iff.mp ht
      cases heq
      unfold convertState at hconvert
      split at hconvert
      case isTrue =>
        cases hconvert
        refine applyState_kept hmax rfl ?_ ?_ ?_ happly
        · exact Nat.two_pow_pos 32
        · exact (by decide : (0 : Int) < 2 ^ 31)
        · exact recordInOrder_of_new rfl (hold _)
      case isFalse hversion =>
        have hthree : persistVersion.val = 3 := by omega
        have hfail := h hallocates hthree
        obtain ⟨⟨len, archive⟩, hread, hconvert⟩ := bind_eq_some_iff.mp hconvert
        obtain ⟨⟨bytes, rest⟩, htake, heq⟩ := map_eq_some_iff.mp hread
        cases heq
        unfold archiveRead at htake
        split at htake
        case isFalse => cases htake
        case isTrue =>
          cases htake
          dsimp only at hconvert
          split at hconvert
          case isTrue => cases hconvert
          case isFalse =>
            rw [hfail] at hconvert
            cases hconvert
            exact hfresh rfl rfl happly
  | current stored =>
    dsimp only at ht
    split at ht
    case isTrue =>
      split at ht
      case isTrue =>
        obtain ⟨u, happly, heq⟩ := map_eq_some_iff.mp ht
        cases heq
        exact hfresh rfl rfl happly
      case isFalse =>
        cases ht
        exact hfallback
    case isFalse hversion =>
      obtain ⟨u, happly, heq⟩ := map_eq_some_iff.mp ht
      cases heq
      have hsame : (stored.onHost env.hostBigEndian).version = stored.version := by
        unfold StoredState.onHost
        split <;> rfl
      refine applyState_kept hmax rfl ?_ ?_ ?_ happly
      · exact (stored.onHost env.hostBigEndian).sized
      · exact (stored.onHost env.hostBigEndian).rawSized.1
      · exact h (by omega)

end

/-! ## Runs -/

/-- What a reader does with the server. -/
inductive BufferedOp where
  | fetch (junk : UInt8) (addr : Nat) (rawSize : List UInt8 → Nat) (mayRead : Bool) (env : TextEnv)
  | queued
  | resetError

/-- The server is new, or it was restarted from an entry that is in order. -/
inductive Started (kind : BufferedKind) (options : LogProtoServerOptions) : ConvertingServer → Prop where
  | new (noMultiRead encoding : Bool) : Started kind options (bufferedServerNew noMultiRead encoding)
  | restarted {junk : UInt8} {entry : StoredEntry} {env : RestartEnv}
      {noMultiRead encoding success : Bool} {t : ConvertingServer} :
      entry.InOrder kind options encoding env →
      restartWithState options junk kind entry env (bufferedServerNew noMultiRead encoding) =
        some (success, t) → Started kind options t

/-- A step of the server; the counts of a fetch fit, and its conversions leave no more bytes over than
`raw_buffer_size`. -/
inductive BufferedNext (kind : BufferedKind) (options : LogProtoServerOptions) :
    ConvertingServer → BufferedOp → ConvertingServer → Prop where
  | fetch {s t : ConvertingServer} {junk : UInt8} {addr : Nat} {rawSize : List UInt8 → Nat}
      {mayRead : Bool} {env : TextEnv} {result : LogProtoStatus} {msg : Option (List UInt8)} :
      kind.FetchFits options rawSize env s →
      kind.fetch options junk addr rawSize s mayRead env = some (result, msg, t) →
      BufferedNext kind options s (.fetch junk addr rawSize mayRead env) t
  | queued (s : ConvertingServer) : BufferedNext kind options s .queued s.queued
  | resetError (s : ConvertingServer) : BufferedNext kind options s .resetError s.resetError

section

variable {kind : BufferedKind} {options : LogProtoServerOptions} {s t : ConvertingServer}

theorem Started.kept (hmax : options.maxBufferSize < 2 ^ 31) (h : Started kind options s) :
    Kept kind options s.server := by
  cases h with
  | new noMultiRead encoding =>
    have hzero : (0 : Int) ≤ 0 ∧ (0 : Int) < 2 ^ 31 := by decide
    exact .inr ⟨rfl, ⟨Nat.le_refl _, Nat.zero_le _, .inl rfl, hzero, hzero⟩⟩
  | restarted hentry hrestart => exact restart_kept hmax hentry hrestart

theorem BufferedNext.kept (hinit : options.initBufferSize < 2 ^ 31)
    (hmax : options.maxBufferSize < 2 ^ 31) {op : BufferedOp} (hstep : BufferedNext kind options s op t)
    (h : Kept kind options s.server) : Kept kind options t.server := by
  cases hstep with
  | fetch hfits hfetch => exact BufferedKind.fetch_kept hinit hmax h hfits hfetch
  | queued => exact BufferedKind.queued_kept h
  | resetError =>
    rcases h with hw | ⟨hnil, htidy⟩
    · exact .inl ⟨hw.length, hw.small, hw.tidy⟩
    · exact .inr ⟨hnil, htidy⟩

theorem Kept.bookkept (h : Kept kind options s.server) : Bookkept s.server := by
  rcases h with hw | ⟨hnil, -⟩
  · exact hw.bookkept
  · exact fun hne => absurd hnil hne

/-- **The members of a buffered server are in order** in every state of a run whose restart and fetches
meet their conditions. -/
theorem bufferedRun_bookkept (hinit : options.initBufferSize < 2 ^ 31)
    (hmax : options.maxBufferSize < 2 ^ 31) {ops : List BufferedOp} (h : Started kind options s)
    (hrun : Run (BufferedNext kind options) s ops t) : Bookkept t.server := by
  have hstep : ∀ s op t, BufferedNext kind options s op t → Kept kind options s.server →
      Kept kind options t.server := fun _ _ _ hnext => hnext.kept hinit hmax
  exact Kept.bookkept (hrun.invariant (I := fun u => Kept kind options u.server) hstep
    (h.kept hmax))

end

/-- A file that is read for the first time: one line, and then the input waits. -/
def firstLine : TextEnv := ⟨[.data 97 [98, 10, 99], .again], []⟩

/-- What `fstat` tells of that file. -/
def newFile : RestartEnv := ⟨false, true, some ⟨7, 0⟩, [], []⟩

def smallBuffers : LogProtoServerOptions := ⟨8, 8, 8⟩

/-- The text server after a restart without an entry. -/
def restartedServer (encoding : Bool) : ConvertingServer :=
  restartApply ⟨7, 0⟩ ⟨{ logProtoTextServerNew false with posTracking := true }, encoding, []⟩

/-- The server once it has fetched the line. -/
def fetchedServer : ConvertingServer where
  server :=
    { (restartedServer false).server with
      buffer := [97, 98, 10, 99, 0, 0, 0, 0]
      state := { (restartedServer false).server.state with
        bufferSize := 8
        pendingBufferEnd := 4
        pendingBufferPos := 3
        pendingRawBufferSize := 4 } }
  encoding := false
  rawBufferLeftover := []

theorem restartedServer_eq (encoding : Bool) :
    restartWithState smallBuffers 0 .text .missing newFile (bufferedServerNew false encoding) =
      some (true, restartedServer encoding) := rfl

theorem firstLine_fetched :
    BufferedKind.text.fetch smallBuffers 0 0 length (restartedServer false) true firstLine =
      some (.success, some [97, 98], fetchedServer) := by
  decide +kernel

theorem firstLine_fits :
    BufferedKind.text.FetchFits smallBuffers length firstLine (restartedServer false) := by
  refine ⟨by decide, fun _ bs hbs => ?_, by decide⟩
  have hsize : BufferedKind.sizeBound smallBuffers (restartedServer false) = 8 := by rfl
  have hstream : (streamOf firstLine.transport).length = 4 := by rfl
  rw [hsize] at hbs
  rw [hstream]
  exact ⟨by omega, by show bs.length + 4 < _; omega⟩

theorem firstLine_bookkept : Bookkept fetchedServer.queued.server := by
  have hstart : Started .text smallBuffers (restartedServer false) :=
    .restarted (show StoredEntry.missing.InOrder .text smallBuffers false newFile from trivial)
      (restartedServer_eq false)
  have hrun : Run (BufferedNext .text smallBuffers) (restartedServer false)
      [.fetch 0 0 length true firstLine, .queued] fetchedServer.queued :=
    .step (.fetch firstLine_fits firstLine_fetched) (.step (.queued _) (.refl _))
  exact bufferedRun_bookkept (by decide) (by decide) hstart hrun

/-- A chunk that ends inside a character of the encoding. -/
def splitCharacter : TextEnv :=
  ⟨[.data 97 [195], .again], [[⟨[97], [195], .incomplete⟩]]⟩

/-- **The byte left over is taken off the size that is still zero.** -/
theorem leftover_not_bookkept :
    ∃ t, restartWithState smallBuffers 0 .text .missing newFile (bufferedServerNew false true) =
        some (true, restartedServer true) ∧
      BufferedKind.text.fetch smallBuffers 0 0 length (restartedServer true) true splitCharacter =
        some (.success, none, t) ∧
      t.server.buffer ≠ [] ∧ t.server.state.rawBufferSize = -1 ∧ ¬Bookkept t.server := by
  refine ⟨_, restartedServer_eq true, rfl, by decide, by decide, fun h => ?_⟩
  exact absurd (h (by decide)).raw (by decide)

end SyslogNg.LogProto
