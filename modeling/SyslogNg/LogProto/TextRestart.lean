import SyslogNg.Lib.Run
import SyslogNg.LogProto.TextFetch

/-!
# Following a file over restarts

A text server that follows a regular file keeps its place in the persistent record, and a restart
finds the record as the last call left it. The record is a mixture: `queued` writes the confirmed
members, `fetch` the pending ones, and `buffer_cached_eol` belongs to the pending ones although a
restart keeps it. So a restart resumes at the first unconfirmed line, unless the record has a
cached end of line and a message was returned that is not confirmed.
-/

namespace SyslogNg.LogProto

open Lib List LogProtoBufferedServerState

/-! ## The file as a source -/

/-- The file has this content, and its bytes from the current position on are `stream`. -/
structure Follows (content : List UInt8) (inode : Int) (file : LogFile) (stream : List UInt8) :
    Prop where
  sameContent : file.content = content
  sameInode : file.inode = inode
  pos_le : file.pos ≤ content.length
  ahead : content.drop file.pos = stream

theorem fileRead_cases (file : LogFile) (count : Nat) :
    ((file.content.drop file.pos).take count = [] ∧ fileRead file count = (.again, file)) ∨
      ∃ bs, (file.content.drop file.pos).take count = bs ∧ bs ≠ [] ∧
        fileRead file count = (.bytes bs, { file with pos := file.pos + bs.length }) := by
  unfold fileRead
  cases h : (file.content.drop file.pos).take count with
  | nil => exact .inl ⟨rfl, rfl⟩
  | cons b bs => exact .inr ⟨b :: bs, rfl, by simp, rfl⟩

theorem fileSource_lawful (content : List UInt8) (inode : Int) :
    Lawful fileSource (Follows content inode) where
  eof := by
    intro file stream count file' hd hcount hread
    rcases fileRead_cases file count with ⟨-, h⟩ | ⟨bs, -, -, h⟩ <;>
      cases h.symm.trans hread
  noError := by
    intro file stream count file' hd hcount hread
    rcases fileRead_cases file count with ⟨-, h⟩ | ⟨bs, -, -, h⟩ <;>
      cases h.symm.trans hread
  again := by
    intro file stream count file' hd hcount hread
    rcases fileRead_cases file count with ⟨hnil, h⟩ | ⟨bs, -, -, h⟩
    · cases h.symm.trans hread
      refine ⟨hd, Nat.le_refl _, .inr ⟨rfl, ?_⟩⟩
      rw [hd.sameContent, hd.ahead, take_eq_nil_iff] at hnil
      exact hnil.resolve_left (by omega)
    · cases h.symm.trans hread
  bytes := by
    intro file stream count file' bs hd hcount hread
    rcases fileRead_cases file count with ⟨-, h⟩ | ⟨bs', hbs, hne, h⟩
    · cases h.symm.trans hread
    · cases h.symm.trans hread
      rw [hd.sameContent, hd.ahead] at hbs
      have hlen := congrArg List.length hbs
      have hahead := congrArg List.length hd.ahead
      rw [length_take] at hlen
      rw [length_drop] at hahead
      have hpos := length_pos_iff.2 hne
      have hpos_le := hd.pos_le
      refine ⟨by omega, ?_, stream.drop bs.length, ?_, hd.sameContent, hd.sameInode, ?_, ?_⟩
      · show file.content.length - (file.pos + bs.length) < file.content.length - file.pos
        rw [hd.sameContent]
        omega
      · have htake : bs = stream.take bs.length := by
          rw [← hbs, length_take, take_eq_take_iff]
          omega
        rw [htake, length_take, Nat.min_eq_left (by omega)]
        exact (take_append_drop _ _).symm
      · show file.pos + bs.length ≤ content.length
        omega
      · show content.drop (file.pos + bs.length) = stream.drop bs.length
        rw [← hd.ahead, drop_drop]

/-! ## A restart -/

def LogProtoBufferedServerState.resumePos (stored : LogProtoBufferedServerState) : Nat :=
  stored.rawStreamPos.toNat + stored.bufferPos

def LogProtoBufferedServerState.reloadEnd (stored : LogProtoBufferedServerState) : Nat :=
  stored.rawStreamPos.toNat + stored.rawBufferSize.toNat

structure Resumable (options : LogProtoServerOptions) (stored : LogProtoBufferedServerState)
    (content : List UInt8) (inode : Int) : Prop where
  fileInode : stored.fileInode = inode
  fileSize : stored.fileSize ≤ content.length
  streamPos : 0 ≤ stored.rawStreamPos
  bufferPos : stored.bufferPos ≤ stored.rawBufferSize
  reload_le : stored.rawStreamPos + stored.rawBufferSize ≤ content.length
  raw_le : stored.rawBufferSize ≤ stored.bufferSize
  bufferSize : stored.bufferSize = options.initBufferSize ∨ stored.bufferSize = 0

def CachedOk (stored : LogProtoBufferedServerState) (content : List UInt8) : Prop :=
  stored.bufferCachedEol = 0 ∨ (stored.bufferPos ≤ stored.bufferCachedEol ∧
    (window content stored.resumePos stored.reloadEnd).findIdx? isEom =
      some (stored.bufferCachedEol - stored.bufferPos))

structure Resumed (options : LogProtoServerOptions) (stored : LogProtoBufferedServerState)
    (file : LogFile) (t : LogProtoTextServer) (file' : LogFile) : Prop where
  valid : t.Valid options
  posTracking : t.posTracking = true
  status : t.status = .success
  length : t.buffer.length = stored.bufferSize
  pending : t.pending = window file.content stored.resumePos stored.reloadEnd
  state : t.state = { stored with
    pendingBufferEnd := stored.rawBufferSize.toNat
    fileSize := file.content.length
    pendingBufferPos := stored.bufferPos
    pendingRawStreamPos := stored.rawStreamPos
    pendingRawBufferSize := stored.rawBufferSize }
  file : file' = { file with pos := stored.reloadEnd }

section

variable {options : LogProtoServerOptions} {stored : LogProtoBufferedServerState} {file : LogFile}

theorem CachedOk.of_nothing {content : List UInt8} (h : CachedOk stored content)
    (hraw : stored.rawBufferSize = 0) : stored.bufferCachedEol = 0 := by
  rcases h with hz | ⟨-, hfind⟩
  · exact hz
  · rw [window_of_le _ (by simp [reloadEnd,
      resumePos, hraw])] at hfind
    cases hfind

theorem CachedOk.le {content : List UInt8} (h : CachedOk stored content) :
    stored.bufferCachedEol ≤ stored.rawBufferSize.toNat := by
  rcases h with hz | ⟨hle, hfind⟩
  · omega
  · have hlt := (findIdx?_eq_some_iff_findIdx_eq.1 hfind).1
    rw [window_length] at hlt
    unfold resumePos reloadEnd at hlt
    omega

theorem take_drop_eq_window {α : Type} (content : List α) (pos size : Nat) :
    (content.drop pos).take size = window content pos (pos + size) := by
  rw [window, drop_take]
  congr 1
  omega

def resuming (noMultiRead : Bool) (stored : LogProtoBufferedServerState) (buffer : List UInt8) :
    LogProtoTextServer :=
  ⟨.success, true, noMultiRead, { stored with pendingBufferEnd := 0 }, buffer⟩

theorem reloadBuffer_spec (hmax : options.initBufferSize < 2 ^ 31) {buffer : List UInt8}
    (hlen : buffer.length = stored.bufferSize) (noMultiRead : Bool)
    (hr : Resumable options stored file.content file.inode) (hc : CachedOk stored file.content)
    (hne : stored.rawBufferSize ≠ 0) (hpos : file.pos = stored.rawStreamPos.toNat) :
    ∃ t file', (resuming noMultiRead stored buffer).reloadBuffer file = some (t, file') ∧
      Resumed options stored file t file' := by
  obtain ⟨hinode, -, hstream, hbuf, hreload, hraw, hsize⟩ := hr
  have hwrap : (stored.rawBufferSize % 2 ^ 32).toNat = stored.rawBufferSize.toNat := by omega
  have hbytes : (file.content.drop file.pos).take stored.rawBufferSize.toNat =
      window file.content stored.rawStreamPos.toNat stored.reloadEnd := by
    rw [hpos, take_drop_eq_window]
    rfl
  have hwinlen : (window file.content stored.rawStreamPos.toNat stored.reloadEnd).length =
      stored.rawBufferSize.toNat := by
    rw [window_length, reloadEnd]
    omega
  rcases fileRead_cases file stored.rawBufferSize.toNat with ⟨hnil, -⟩ | ⟨bs, hbs, -, hread⟩
  · rw [hbytes] at hnil
    rw [hnil, length_nil] at hwinlen
    omega
  rw [hbytes] at hbs
  rw [hbs] at hwinlen
  obtain ⟨buffer', hst⟩ : ∃ buffer', store buffer 0 bs = some buffer' :=
    ⟨_, store_isSome (by omega)⟩
  have hnew := window_store (Nat.le_refl 0) hst
  have hnewlen := store_length hst
  rw [window_self, nil_append, Nat.zero_add] at hnew
  unfold LogProtoTextServer.reloadBuffer resuming
  simp only [hwrap]
  rw [if_neg (by omega)]
  simp only [hread, hst, Option.map_some, hwinlen, ne_eq, not_true_eq_false, if_false]
  have hcached := hc.le
  rw [if_neg (by omega)]
  have hpending : window buffer' stored.bufferPos stored.rawBufferSize.toNat =
      window file.content stored.resumePos stored.reloadEnd := by
    rw [hwinlen] at hnew
    have hdrop := congrArg (List.drop stored.bufferPos) (hnew.trans hbs.symm)
    unfold window at hdrop ⊢
    rw [drop_drop, drop_drop, Nat.zero_add] at hdrop
    exact hdrop
  refine ⟨_, _, rfl, ?_, rfl, rfl, hnewlen.trans hlen, hpending, ?_, ?_⟩
  · refine .inl ⟨⟨?_, ?_, hnewlen.trans hlen, ?_, ?_⟩, ?_⟩
    · show stored.bufferPos ≤ stored.rawBufferSize.toNat
      omega
    · show stored.rawBufferSize.toNat ≤ stored.bufferSize
      omega
    · show stored.bufferSize < 2 ^ 31
      omega
    · show stored.bufferCachedEol = 0 ∨ (stored.bufferPos ≤ stored.bufferCachedEol ∧
        (window buffer' stored.bufferPos stored.rawBufferSize.toNat).findIdx? isEom =
          some (stored.bufferCachedEol - stored.bufferPos))
      rw [hpending]
      exact hc
    · show stored.bufferSize = options.initBufferSize
      omega
  · rw [← hinode]
  · rw [hpos]
    rfl

/-- **A restart resumes** at the place that the confirmed members name. -/
theorem restartWithState_spec (hmax : options.initBufferSize < 2 ^ 31) (junk : UInt8) (noMultiRead : Bool)
    (hr : Resumable options stored file.content file.inode) (hinode : file.inode ≠ 0)
    (hc : CachedOk stored file.content) :
    ∃ t file', LogProtoTextServer.restartWithState junk noMultiRead stored file =
        some (t, file') ∧ Resumed options stored file t file' := by
  have hfile : stored.fileInode ≠ 0 ∧ stored.fileInode = file.inode ∧
      stored.fileSize ≤ file.content.length ∧ stored.rawStreamPos ≤ file.content.length := by
    obtain ⟨h1, h2, h3, h4, h5, h6, h7⟩ := hr
    refine ⟨h1 ▸ hinode, h1, h2, ?_⟩
    omega
  unfold LogProtoTextServer.restartWithState LogProtoTextServer.applyState
  simp only [logProtoTextServerNew, isEmpty_nil, if_true]
  rw [if_pos hfile]
  have hseek : file.seek stored.rawStreamPos =
      { file with pos := stored.rawStreamPos.toNat } := if_pos hr.streamPos
  rw [hseek]
  by_cases hne : stored.rawBufferSize ≠ 0
  · rw [if_pos hne]
    obtain ⟨t, file', h, hres⟩ := @reloadBuffer_spec options stored
      { file with pos := stored.rawStreamPos.toNat } hmax
      (List.replicate stored.bufferSize junk) (by simp) noMultiRead hr hc hne rfl
    exact ⟨t, file', h, hres.valid, hres.posTracking, hres.status, hres.length, hres.pending,
      hres.state, hres.file⟩
  · rw [if_neg hne]
    rw [Classical.not_not] at hne
    have hbuf : stored.bufferPos = 0 := by
      have h := hr.bufferPos
      omega
    have hcached := hc.of_nothing hne
    have hnil : ∀ content : List UInt8, window content stored.resumePos stored.reloadEnd = [] := by
      intro content
      apply window_of_le
      simp [resumePos, reloadEnd, hne]
    have hseek' : LogFile.seek { file with pos := stored.rawStreamPos.toNat }
        (stored.rawStreamPos + stored.rawBufferSize) = { file with pos := stored.reloadEnd } := by
      have h := hr.streamPos
      unfold LogFile.seek reloadEnd
      rw [hne, if_pos (by omega)]
      simp
    simp only [hseek']
    refine ⟨_, _, rfl, ?_, rfl, rfl, by simp, ?_, ?_, rfl⟩
    · rcases hr.bufferSize with hsize | hsize
      · refine .inl ⟨⟨Nat.le_refl _, Nat.zero_le _, by simp,
          ?_, .inl hcached⟩, hsize⟩
        show stored.bufferSize < 2 ^ 31
        omega
      · exact .inr ⟨by simp [hsize], rfl, rfl, hcached⟩
    · rw [hnil]
      exact window_self _ _
    · simp only [hne, hbuf, hr.fileInode, add_zero, Int.toNat_zero]

def freshState (inode : Int) : LogProtoBufferedServerState :=
  { zero with fileInode := inode }

theorem restartWithState_zero (options : LogProtoServerOptions) (junk : UInt8) (noMultiRead : Bool)
    (file : LogFile) :
    ∃ t file', LogProtoTextServer.restartWithState junk noMultiRead .zero file =
        some (t, file') ∧ Resumed options (freshState file.inode) file t file' :=
  ⟨_, _, rfl, .inr ⟨rfl, rfl, rfl, rfl⟩, rfl, rfl, rfl, rfl, rfl, rfl⟩

theorem freshState_resumable (options : LogProtoServerOptions) (content : List UInt8) (inode : Int) :
    Resumable options (freshState inode) content inode := by
  refine ⟨rfl, ?_, Int.le_refl _, Int.le_refl _, ?_, Int.le_refl _, .inr rfl⟩ <;>
    simp [freshState, zero]

end

/-! ## Every run -/

/-- A server that follows a file. `returned` are the messages since the last restart; `base`
lines of the file were confirmed by then, and `confirmed` are now. -/
structure FollowWorld where
  server : LogProtoTextServer
  file : LogFile
  returned : List (List UInt8)
  base : Nat
  confirmed : Nat

inductive FollowOp where
  | append (bs : List UInt8)
  | fetch (addr : Nat) (mayRead : Bool)
  | queued
  | restart

def followStart (junk : UInt8) (noMultiRead : Bool) (content : List UInt8) (inode : Int) :
    Option FollowWorld :=
  (LogProtoTextServer.restartWithState junk noMultiRead .zero ⟨content, inode, 0⟩).map
    fun (server, file) => ⟨server, file, [], 0, 0⟩

/-- A restart opens the file again and finds the record as the last call left it. -/
def followStep (options : LogProtoServerOptions) (junk : UInt8) (w : FollowWorld) :
    FollowOp → Option FollowWorld
  | .append bs => some { w with file := { w.file with content := w.file.content ++ bs } }
  | .fetch addr mayRead =>
    (w.server.fetch fileSource options junk addr w.file mayRead).map fun (_, msg, server, file) =>
      { w with server := server, file := file, returned := w.returned ++ msg.toList }
  | .queued => some { w with server := w.server.queued, confirmed := w.base + w.returned.length }
  | .restart =>
    (LogProtoTextServer.restartWithState junk w.server.noMultiRead w.server.state
      { w.file with pos := 0 }).map fun (server, file) =>
        ⟨server, file, [], w.confirmed, w.confirmed⟩

/-- No end of line is cached, or every message returned so far is confirmed. -/
def RestartOk (w : FollowWorld) : Prop :=
  w.server.state.bufferCachedEol = 0 ∨ w.confirmed = w.base + w.returned.length

/-- A step that, if it is a restart, meets `RestartOk`. -/
def FollowNext (options : LogProtoServerOptions) (junk : UInt8) (w : FollowWorld) (op : FollowOp)
    (w' : FollowWorld) : Prop :=
  followStep options junk w op = some w' ∧ (op = .restart → RestartOk w)

/-- The invariant of a run: the bytes `front` of the file made up the lines returned and those
before them; the confirmed members are the end of the confirmed ones. -/
structure FollowInv (options : LogProtoServerOptions) (inode : Int) (front : List UInt8)
    (lines : List (List UInt8)) (w : FollowWorld) : Prop where
  valid : w.server.Valid options
  tracked : w.server.posTracking = true
  success : w.server.status = .success
  unallocated : w.server.buffer = [] → w.server.state.bufferSize = 0
  rawOk : w.server.RawOk
  rawEnd : w.server.rawEnd = w.file.pos
  rawPos : 0 ≤ w.server.state.pendingRawStreamPos
  sameInode : w.file.inode = inode
  pos_le : w.file.pos ≤ w.file.content.length
  ahead : w.file.content = front ++ (w.server.pending ++ w.file.content.drop w.file.pos)
  whole : scanLines options.initBufferSize [] front = (lines, [])
  count : lines.length = w.base + w.returned.length
  returned : lines.drop w.base = w.returned
  base_le : w.base ≤ w.confirmed
  confirmed_le : w.confirmed ≤ lines.length
  resumable : Resumable options w.server.state w.file.content inode
  resume : scanLines options.initBufferSize [] (w.file.content.take w.server.state.resumePos) =
    (lines.take w.confirmed, [])
  linked : w.server.state.bufferCachedEol ≠ 0 → w.confirmed = w.base + w.returned.length →
    w.server.state.bufferPos = w.server.state.pendingBufferPos ∧
      w.server.state.rawStreamPos = w.server.state.pendingRawStreamPos ∧
      w.server.state.rawBufferSize = w.server.state.pendingRawBufferSize

section

variable {options : LogProtoServerOptions} {junk : UInt8} {inode : Int} {front : List UInt8}
  {lines : List (List UInt8)} {w : FollowWorld}

theorem Resumed.inv {stored : LogProtoBufferedServerState} {file : LogFile} {t : LogProtoTextServer}
    {file' : LogFile} (h : Resumed options stored file t file')
    (hr : Resumable options stored file.content inode) (hinode : file.inode = inode)
    (hwhole : scanLines options.initBufferSize [] (file.content.take stored.resumePos) = (lines, [])) :
    FollowInv options inode (file.content.take stored.resumePos) lines
      ⟨t, file', [], lines.length, lines.length⟩ := by
  obtain ⟨hvalid, ht, hst, hlen, hp, hstate, rfl⟩ := h
  obtain ⟨hfile, hsize, hstream, hbuf, hreload, hraw, hbs⟩ := hr
  have hle : stored.resumePos ≤ stored.reloadEnd := by
    unfold resumePos reloadEnd
    omega
  have hend : (stored.reloadEnd : Int) = stored.rawStreamPos + stored.rawBufferSize := by
    unfold reloadEnd
    omega
  refine ⟨hvalid, ht, hst, ?_, ?_, ?_, ?_, hinode, ?_, ?_, hwhole, by simp, by simp,
    Nat.le_refl _, Nat.le_refl _, ?_, ?_, ?_⟩
  · intro hnil
    rw [hstate]
    rw [hnil] at hlen
    exact hlen.symm
  · intro _
    left
    rw [hstate]
    show stored.rawBufferSize = (stored.rawBufferSize.toNat : Int)
    omega
  · rw [LogProtoTextServer.rawEnd, hstate]
    exact hend.symm
  · rw [hstate]
    exact hstream
  · show stored.reloadEnd ≤ file.content.length
    omega
  · show file.content = file.content.take stored.resumePos ++
      (t.pending ++ file.content.drop stored.reloadEnd)
    rw [hp, ← drop_eq_window _ hle, take_append_drop]
  · rw [hstate]
    exact ⟨hfile, Int.le_refl _, hstream, hbuf, hreload, hraw, hbs⟩
  · rw [hstate, take_length]
    exact hwhole
  · rw [hstate]
    exact fun _ _ => ⟨rfl, rfl, rfl⟩

theorem FollowInv.front_length (h : FollowInv options inode front lines w) :
    front.length + w.server.pending.length = w.file.pos := by
  have hlen := congrArg List.length h.ahead
  have hpos := h.pos_le
  rw [length_append, length_append, length_drop] at hlen
  omega

theorem follow_append (h : FollowInv options inode front lines w) (bs : List UInt8) :
    FollowInv options inode front lines
      { w with file := { w.file with content := w.file.content ++ bs } } := by
  have hr := h.resumable
  have hresume : w.server.state.resumePos ≤ w.file.content.length := by
    have h1 := hr.streamPos
    have h2 := hr.bufferPos
    have h3 := hr.reload_le
    unfold resumePos
    omega
  have hlen : ((w.file.content ++ bs).length : Int) = w.file.content.length + bs.length := by
    simp
  refine ⟨h.valid, h.tracked, h.success, h.unallocated, h.rawOk, h.rawEnd, h.rawPos, h.sameInode,
    ?_, ?_, h.whole, h.count, h.returned, h.base_le, h.confirmed_le, ?_, ?_, h.linked⟩
  · show w.file.pos ≤ (w.file.content ++ bs).length
    rw [length_append]
    exact Nat.le_add_right_of_le h.pos_le
  · show w.file.content ++ bs = front ++ (w.server.pending ++ (w.file.content ++ bs).drop w.file.pos)
    rw [drop_append_of_le_length h.pos_le, ← append_assoc, ← append_assoc, append_assoc front, ← h.ahead]
  · refine ⟨hr.fileInode, ?_, hr.streamPos, hr.bufferPos, ?_, hr.raw_le, hr.bufferSize⟩
    · show w.server.state.fileSize ≤ ((w.file.content ++ bs).length : Int)
      have h1 := hr.fileSize
      omega
    · show w.server.state.rawStreamPos + w.server.state.rawBufferSize ≤
        ((w.file.content ++ bs).length : Int)
      have h1 := hr.reload_le
      omega
  · show scanLines _ [] ((w.file.content ++ bs).take w.server.state.resumePos) = _
    rw [take_append_of_le_length hresume]
    exact h.resume

theorem FollowInv.cachedOk (h : FollowInv options inode front lines w) (hok : RestartOk w) :
    CachedOk w.server.state w.file.content := by
  rcases hok with hz | hall
  · exact .inl hz
  by_cases hne : w.server.state.bufferCachedEol = 0
  · exact .inl hne
  obtain ⟨hbuf, hpos, hsize⟩ := h.linked hne hall
  rcases h.valid with ⟨hb, -⟩ | ⟨-, -, -, hz⟩
  swap
  · exact .inl hz
  rcases hb.cached with hz | ⟨hle, hfind⟩
  · exact .inl hz
  refine .inr ⟨hbuf ▸ hle, ?_⟩
  rw [hbuf]
  have hlen := hb.pending_length
  have hfront := h.front_length
  have hend := h.rawEnd
  have h0 := h.rawPos
  have hpe := hb.pos_le
  unfold LogProtoTextServer.rawEnd at hend
  have hwin : window w.file.content w.server.state.resumePos w.server.state.reloadEnd =
      w.server.pending := by
    rcases h.rawOk h.tracked with hr | ⟨hz1, hz2, -⟩
    · have h1 : w.server.state.resumePos = front.length := by
        unfold resumePos
        omega
      have h2 : w.server.state.reloadEnd = front.length + w.server.pending.length := by
        unfold reloadEnd
        omega
      rw [h1, h2, ← take_drop_eq_window, h.ahead, drop_left, take_left]
    · -- an empty buffer has no end of line
      have hnil : w.server.pending = [] := by
        rw [LogProtoTextServer.pending, hz1, hz2, window_self]
      rw [hnil] at hfind
      cases hfind
  rw [hwin]
  exact hfind

theorem follow_restart (hmax : options.initBufferSize < 2 ^ 31) (junk : UInt8) (hinode : inode ≠ 0)
    (h : FollowInv options inode front lines w) (hok : RestartOk w) :
    ∃ w', followStep options junk w .restart = some w' ∧ w'.file.content = w.file.content ∧
      ∃ front' lines', FollowInv options inode front' lines' w' := by
  obtain ⟨t, file', hres, hresumed⟩ := @restartWithState_spec options w.server.state
    { w.file with pos := 0 } hmax junk w.server.noMultiRead (h.sameInode ▸ h.resumable)
    (h.sameInode ▸ hinode) (h.cachedOk hok)
  have hinv := hresumed.inv h.resumable h.sameInode h.resume
  rw [length_take, Nat.min_eq_left h.confirmed_le] at hinv
  refine ⟨_, ?_, ?_, _, _, hinv⟩
  · rw [followStep, hres]
    rfl
  · rw [hresumed.file]

/-- `queued` under position tracking: the pending place is confirmed; that of a buffer that is
used up is the end of its part of the file. -/
theorem queued_tracked {s : LogProtoTextServer} (ht : s.posTracking = true) :
    (s.state.pendingBufferPos ≠ s.state.pendingBufferEnd ∧ s.queued.state = { s.state with
      bufferPos := s.state.pendingBufferPos
      rawStreamPos := s.state.pendingRawStreamPos
      rawBufferSize := s.state.pendingRawBufferSize }) ∨
    (s.state.pendingBufferPos = s.state.pendingBufferEnd ∧ s.queued.state = { s.state with
      bufferPos := 0
      pendingBufferPos := 0
      pendingBufferEnd := 0
      rawStreamPos := s.rawEnd
      rawBufferSize := 0 }) := by
  by_cases he : s.state.pendingBufferPos = s.state.pendingBufferEnd
  · right
    refine ⟨he, ?_⟩
    simp [LogProtoTextServer.queued, ht, he, LogProtoTextServer.rawEnd]
  · left
    refine ⟨he, ?_⟩
    simp [LogProtoTextServer.queued, he]

theorem follow_queued (h : FollowInv options inode front lines w) :
    FollowInv options inode front lines
      { w with server := w.server.queued, confirmed := w.base + w.returned.length } := by
  have hq := LogProtoTextServer.queued_spec h.valid
  have hfront := h.front_length
  have hend := h.rawEnd
  have hraw := h.rawOk h.tracked
  have h0 := h.rawPos
  have hpos := h.pos_le
  have hr := h.resumable
  have hcount := h.count
  have htake : w.file.content.take front.length = front := by
    rw [h.ahead, take_left]
  have hbuffer : w.server.queued.buffer = w.server.buffer := by
    obtain ⟨_, _, _, hq⟩ := LogProtoTextServer.queued_eq w.server
    rw [hq]
  have hinv : w.server.queued.state.bufferSize = w.server.state.bufferSize →
      Resumable options w.server.queued.state w.file.content inode →
      w.server.queued.state.resumePos = front.length →
      (w.server.queued.state.bufferCachedEol ≠ 0 →
        w.server.queued.state.bufferPos = w.server.queued.state.pendingBufferPos ∧
        w.server.queued.state.rawStreamPos = w.server.queued.state.pendingRawStreamPos ∧
        w.server.queued.state.rawBufferSize = w.server.queued.state.pendingRawBufferSize) →
      FollowInv options inode front lines
        { w with server := w.server.queued, confirmed := w.base + w.returned.length } := by
    intro hsize hres hresume hlinked
    refine ⟨hq.valid, hq.posTracking.trans h.tracked, hq.status.trans h.success, ?_,
      hq.rawOk h.rawOk, hq.rawEnd.trans h.rawEnd, ?_, h.sameInode, h.pos_le, ?_, h.whole, h.count,
      h.returned, Nat.le_add_right _ _, Nat.le_of_eq hcount.symm, hres, ?_,
      fun hne _ => hlinked hne⟩
    · intro hnil
      rw [hsize]
      exact h.unallocated (hbuffer ▸ hnil)
    · rw [hq.rawPos]
      exact h0
    · rw [hq.pending]
      exact h.ahead
    · show scanLines _ [] (w.file.content.take w.server.queued.state.resumePos) =
        (lines.take (w.base + w.returned.length), [])
      rw [hresume, htake, ← hcount, take_length]
      exact h.whole
  unfold LogProtoTextServer.rawEnd at hend
  rcases queued_tracked h.tracked with ⟨hne, hstate⟩ | ⟨he, hstate⟩
  · -- the buffer has more: its part of the file is that of the pending members
    obtain ⟨hb, hsize⟩ : w.server.Bounds ∧
        w.server.state.bufferSize = options.initBufferSize := by
      rcases h.valid with hb | ⟨-, hz1, hz2, -⟩
      · exact hb
      · exact absurd (hz1.trans hz2.symm) hne
    have hlen := hb.pending_length
    have hle := hb.pos_le
    have hend_le := hb.end_le
    rcases hraw with hraw | ⟨hz1, hz2, -⟩
    swap
    · exact absurd (hz1.trans hz2.symm) hne
    apply hinv <;> rw [hstate]
    · refine ⟨hr.fileInode, hr.fileSize, h0, ?_, ?_, ?_, .inl hsize⟩
      · show (w.server.state.pendingBufferPos : Int) ≤ w.server.state.pendingRawBufferSize
        omega
      · show w.server.state.pendingRawStreamPos + w.server.state.pendingRawBufferSize ≤
          (w.file.content.length : Int)
        omega
      · show w.server.state.pendingRawBufferSize ≤ (w.server.state.bufferSize : Int)
        omega
    · show w.server.state.pendingRawStreamPos.toNat + w.server.state.pendingBufferPos =
        front.length
      omega
    · exact fun _ => ⟨rfl, rfl, rfl⟩
  · -- the buffer is used up: the next line starts behind its part of the file
    obtain ⟨hnil, hz⟩ := h.valid.used_up he
    rw [hnil, length_nil] at hfront
    apply hinv <;> rw [hstate]
    · refine ⟨hr.fileInode, hr.fileSize, ?_, Int.le_refl _, ?_, ?_, hr.bufferSize⟩
      · show 0 ≤ w.server.rawEnd
        have := h.rawEnd
        omega
      · show w.server.rawEnd + 0 ≤ (w.file.content.length : Int)
        have := h.rawEnd
        omega
      · exact Int.natCast_nonneg _
    · show w.server.rawEnd.toNat + 0 = front.length
      have := h.rawEnd
      omega
    · exact fun hc => absurd hz hc

def linesAhead (options : LogProtoServerOptions) (w : FollowWorld) : List (List UInt8) :=
  completeLines options.initBufferSize (w.server.pending ++ w.file.content.drop w.file.pos)

def followFetchesLeft (options : LogProtoServerOptions) (w : FollowWorld) : Nat :=
  (w.file.content.length - w.file.pos) + (linesAhead options w).length

theorem FollowInv.drop_base (h : FollowInv options inode front lines w) :
    (completeLines options.initBufferSize w.file.content).drop w.base = w.returned ++ linesAhead options w := by
  have hlines : completeLines options.initBufferSize w.file.content =
      lines ++ linesAhead options w := by
    unfold linesAhead
    conv_lhs => rw [completeLines, h.ahead, scanLines_whole h.whole]
  have hbase : w.base ≤ lines.length := by
    rw [h.count]
    exact Nat.le_add_right _ _
  rw [hlines, drop_append_of_le_length hbase, h.returned]

theorem follow_kept {start server : LogProtoTextServer} {file : LogFile} {stream : List UInt8}
    {front' : List UInt8} {new : List (List UInt8)} (h : FollowInv options inode front lines w)
    (hinit : 0 < options.initBufferSize) (halloc : LogProtoTextServer.Allocated options w.server start)
    (hk : LogProtoTextServer.Kept (Follows w.file.content inode) start
      (w.file.content.drop w.file.pos) server file stream) (hst : server.status = start.status)
    (hahead : start.pending ++ w.file.content.drop w.file.pos = front' ++ (server.pending ++ stream))
    (hwhole : scanLines options.initBufferSize [] front' = (new, []))
    (hlinked : server.state.bufferCachedEol = 0 ∨ new ≠ []) :
    FollowInv options inode (front ++ front') (lines ++ new)
      { w with server := server, file := file, returned := w.returned ++ new } := by
  obtain ⟨hcontent, hino, hpos_le, hstream⟩ := hk.delivers
  have hconf := hk.confirmed.trans halloc.confirmed
  simp only [LogProtoTextServer.confirmed, Prod.mk.injEq] at hconf
  obtain ⟨hbuf, hrsp, hrbs, hfs, hfi⟩ := hconf
  have htracked : start.posTracking = true := halloc.posTracking.trans h.tracked
  have hsize : server.state.bufferSize = options.initBufferSize :=
    hk.bufferSize.trans halloc.bufferSize
  have hr := h.resumable
  have hcount := h.count
  have hbase := h.base_le
  have hconf_le := h.confirmed_le
  refine ⟨.inl ⟨hk.bounds, hsize⟩, hk.posTracking.trans htracked,
    hst.trans (halloc.status.trans h.success), ?_, hk.rawOk, ?_, ?_, hino, ?_, ?_, ?_, ?_, ?_,
    hbase, ?_, ?_, ?_, ?_⟩
  · intro hnil
    have hlen : server.buffer.length = server.state.bufferSize := hk.bounds.length
    rw [show server.buffer = [] from hnil, hsize] at hlen
    simp at hlen
    omega
  · have hend := hk.rawEnd htracked
    have h1 := h.rawEnd
    have h2 := h.pos_le
    rw [← hstream, halloc.rawEnd, length_drop, length_drop] at hend
    show server.rawEnd = (file.pos : Int)
    omega
  · have h1 := hk.rawPos htracked
    have h2 := h.rawPos
    rw [halloc.rawPos] at h1
    exact h2.trans h1
  · show file.pos ≤ file.content.length
    rw [hcontent]
    exact hpos_le
  · show file.content = front ++ front' ++ (server.pending ++ file.content.drop file.pos)
    rw [hcontent, hstream, append_assoc, ← hahead, halloc.pending]
    exact h.ahead
  · rw [scanLines_whole h.whole, completeLines, unfinishedLine, hwhole]
  · show (lines ++ new).length = w.base + (w.returned ++ new).length
    rw [length_append, length_append]
    omega
  · show (lines ++ new).drop w.base = w.returned ++ new
    rw [drop_append_of_le_length (by omega), h.returned]
  · show w.confirmed ≤ (lines ++ new).length
    rw [length_append]
    omega
  · show Resumable options server.state file.content inode
    rw [hcontent]
    refine ⟨hfi.trans hr.fileInode, hfs ▸ hr.fileSize, hrsp ▸ hr.streamPos, ?_, ?_, ?_, .inl hsize⟩
    · rw [hbuf, hrbs]
      exact hr.bufferPos
    · rw [hrsp, hrbs]
      exact hr.reload_le
    · rw [hrbs, hsize]
      have h1 := hr.raw_le
      rcases hr.bufferSize with h2 | h2
      · rw [← h2]
        exact h1
      · omega
  · show scanLines _ [] (file.content.take server.state.resumePos) =
      ((lines ++ new).take w.confirmed, [])
    have hresume : server.state.resumePos = w.server.state.resumePos := by
      rw [resumePos, hbuf, hrsp]
      rfl
    rw [hcontent, hresume, take_append_of_le_length hconf_le]
    exact h.resume
  · intro hne hall
    rcases hlinked with hz | hnew
    · exact absurd hz hne
    · -- a message that was just returned is not confirmed
      have hpos := length_pos_iff.2 hnew
      have hall : w.confirmed = w.base + (w.returned ++ new).length := hall
      rw [length_append] at hall
      omega

theorem follow_fetch (hinit : 0 < options.initBufferSize) (hmax : options.initBufferSize < 2 ^ 31)
    (junk : UInt8) (h : FollowInv options inode front lines w) (addr : Nat) (mayRead : Bool) :
    ∃ w', followStep options junk w (.fetch addr mayRead) = some w' ∧
      w'.file.content = w.file.content ∧ w'.base = w.base ∧
      (∃ front' lines', FollowInv options inode front' lines' w') ∧
      (linesAhead options w = [] → linesAhead options w' = []) ∧ (linesAhead options w' = [] ∨
        followFetchesLeft options w' + mayRead.toNat ≤ followFetchesLeft options w) := by
  have hd : Follows w.file.content inode w.file (w.file.content.drop w.file.pos) :=
    ⟨rfl, h.sameInode, h.pos_le, rfl⟩
  obtain ⟨start, status, msg, server, file, halloc, hf, hfetched⟩ :=
    LogProtoTextServer.fetch_spec (fileSource_lawful w.file.content inode) junk addr hinit hmax
      h.success h.valid h.rawOk hd mayRead
  have hmay : mayRead.toNat ≤ 1 := Bool.toNat_le mayRead
  have hstep : followStep options junk w (.fetch addr mayRead) =
      some { w with server := server, file := file, returned := w.returned ++ msg.toList } := by
    rw [followStep, hf]
    rfl
  have hahead : ∀ {stream}, Follows w.file.content inode file stream →
      linesAhead options
          { w with server := server, file := file, returned := w.returned ++ msg.toList } =
        completeLines options.initBufferSize (server.pending ++ stream) := by
    intro stream hd'
    show completeLines _ (server.pending ++ file.content.drop file.pos) = _
    rw [hd'.sameContent, hd'.ahead]
  have hstart : linesAhead options w = completeLines options.initBufferSize
      (start.pending ++ w.file.content.drop w.file.pos) := by
    rw [halloc.pending]
    rfl
  have hleft : fileSource.readsLeft file = file.content.length - file.pos := rfl
  have hleft' : fileSource.readsLeft w.file = w.file.content.length - w.file.pos := rfl
  cases hfetched with
  | line hk hsame hle hused =>
    next msg stream =>
    obtain ⟨used, hbytes, hscan⟩ := hused
    rw [halloc.bufferSize] at hscan
    have hinv := follow_kept h hinit halloc hk hsame hbytes hscan (.inr (by simp))
    have hlines : linesAhead options w = msg :: completeLines options.initBufferSize
        (server.pending ++ stream) := by
      rw [hstart, hbytes, completeLines, scanLines_whole hscan]
      rfl
    refine ⟨_, hstep, hk.delivers.sameContent, rfl, ⟨_, _, hinv⟩, ?_, .inr ?_⟩
    · intro hnil
      rw [hnil] at hlines
      cases hlines
    · unfold followFetchesLeft
      rw [hahead hk.delivers, hlines, length_cons]
      show file.content.length - file.pos + _ + _ ≤ _
      omega
  | wait hk hsame hle hcached hp hprog =>
    next stream =>
    have hinv := follow_kept h hinit halloc hk hsame
      (show start.pending ++ _ = [] ++ (server.pending ++ stream) by rw [nil_append, hp])
      (show scanLines options.initBufferSize [] [] = ([], []) from rfl) (.inl hcached)
    have hlines : completeLines options.initBufferSize (server.pending ++ stream) =
        linesAhead options w := by
      rw [hp, hstart]
    refine ⟨_, hstep, hk.delivers.sameContent, rfl, ⟨_, _, hinv⟩, ?_, ?_⟩
    · intro hnil
      rw [hahead hk.delivers, hlines, hnil]
    · rw [followFetchesLeft, hahead hk.delivers, hlines, followFetchesLeft]
      show linesAhead options w = [] ∨ file.content.length - file.pos + _ + _ ≤ _
      cases mayRead with
      | false =>
        right
        simp only [Bool.toNat_false]
        omega
      | true =>
        rcases hprog rfl with hlt | ⟨-, hscan⟩
        · right
          simp only [Bool.toNat_true]
          omega
        · left
          rw [hstart, completeLines, ← halloc.bufferSize, hscan]
  | rest hends => cases hends
  | eof hends => cases hends

theorem follow_step (hinit : 0 < options.initBufferSize) (hmax : options.initBufferSize < 2 ^ 31)
    (junk : UInt8) (hinode : inode ≠ 0) (h : FollowInv options inode front lines w) (op : FollowOp)
    (hok : op = .restart → RestartOk w) :
    ∃ w', followStep options junk w op = some w' ∧
      ∃ front' lines', FollowInv options inode front' lines' w' := by
  cases op with
  | append bs => exact ⟨_, rfl, _, _, follow_append h bs⟩
  | fetch addr mayRead =>
    obtain ⟨w', hstep, -, -, hinv, -⟩ := follow_fetch hinit hmax junk h addr mayRead
    exact ⟨w', hstep, hinv⟩
  | queued => exact ⟨_, rfl, _, _, follow_queued h⟩
  | restart =>
    obtain ⟨w', hstep, -, hinv⟩ := follow_restart hmax junk hinode h (hok rfl)
    exact ⟨w', hstep, hinv⟩

theorem follow_run (hinit : 0 < options.initBufferSize) (hmax : options.initBufferSize < 2 ^ 31)
    (hinode : inode ≠ 0) {ops : List FollowOp} {w' : FollowWorld}
    (hrun : Run (FollowNext options junk) w ops w')
    (h : ∃ front lines, FollowInv options inode front lines w) :
    ∃ front lines, FollowInv options inode front lines w' := by
  refine Run.invariant (I := fun w => ∃ front lines, FollowInv options inode front lines w) ?_
    hrun h
  rintro s op t ⟨hstep, hok⟩ ⟨front, lines, h⟩
  obtain ⟨t', hstep', hinv⟩ := follow_step hinit hmax junk hinode h op hok
  cases hstep.symm.trans hstep'
  exact hinv

/-- A call of `fetch` or `queued`. -/
def FollowOp.IsCall : FollowOp → Prop
  | .fetch _ _ | .queued => True
  | .append _ | .restart => False

/-- The number of fetches that may read. -/
def readingCalls : List FollowOp → Nat
  | [] => 0
  | .fetch _ mayRead :: ops => mayRead.toNat + readingCalls ops
  | _ :: ops => readingCalls ops

theorem follow_calls (hinit : 0 < options.initBufferSize) (hmax : options.initBufferSize < 2 ^ 31)
    (junk : UInt8) {calls : List FollowOp} (hcalls : ∀ op ∈ calls, op.IsCall)
    (h : FollowInv options inode front lines w) :
    ∃ w', exec (followStep options junk) w calls = some w' ∧
      w'.file.content = w.file.content ∧ w'.base = w.base ∧
      (∃ front' lines', FollowInv options inode front' lines' w') ∧
      (linesAhead options w = [] → linesAhead options w' = []) ∧ (linesAhead options w' = [] ∨
        followFetchesLeft options w' + readingCalls calls ≤ followFetchesLeft options w) := by
  induction calls generalizing w front lines with
  | nil => exact ⟨w, rfl, rfl, rfl, ⟨_, _, h⟩, id, .inr (Nat.le_refl _)⟩
  | cons op calls ih =>
    have hrest : ∀ op ∈ calls, op.IsCall := fun op hop => hcalls op (mem_cons_of_mem _ hop)
    cases op with
    | append bs => exact (hcalls _ mem_cons_self).elim
    | restart => exact (hcalls _ mem_cons_self).elim
    | queued =>
      obtain ⟨w', hex, hc, hb, hinv, hnil, hleft⟩ := ih hrest (follow_queued h)
      have hsame : linesAhead options
          { w with server := w.server.queued, confirmed := w.base + w.returned.length } =
            linesAhead options w := by
        unfold linesAhead
        rw [(LogProtoTextServer.queued_spec h.valid).pending]
      unfold followFetchesLeft at hleft
      rw [hsame] at hnil hleft
      exact ⟨w', by rw [exec]; exact hex, hc, hb, hinv, hnil, hleft⟩
    | fetch addr mayRead =>
      obtain ⟨w1, hstep, hc1, hb1, ⟨_, _, h1⟩, hnil1, hleft1⟩ :=
        follow_fetch hinit hmax junk h addr mayRead
      obtain ⟨w', hex, hc, hb, hinv, hnil, hleft⟩ := ih hrest h1
      refine ⟨w', ?_, hc.trans hc1, hb.trans hb1, hinv, fun hz => hnil (hnil1 hz), ?_⟩
      · rw [exec, hstep]
        exact hex
      rcases hleft1 with hz | hle1
      · exact .inl (hnil hz)
      rcases hleft with hz | hle
      · exact .inl hz
      · right
        rw [readingCalls]
        omega

end

/-- **Following a file over restarts**: in every run of appends, fetches, `queued` calls and
restarts, each restart with no cached end of line or with all returned messages confirmed, no step
gets stuck, the messages returned since the last restart are the lines of the file from the first
unconfirmed one on, and fetches that go on reading return all of these. -/
theorem follow_resumes (options : LogProtoServerOptions) (junk : UInt8) (noMultiRead : Bool)
    (hinit : 1 ≤ options.initBufferSize) (hmax : options.initBufferSize < 2 ^ 31)
    (content : List UInt8) (inode : Int) (hinode : inode ≠ 0) :
    ∃ w0, followStart junk noMultiRead content inode = some w0 ∧
      ∀ ops w, Run (FollowNext options junk) w0 ops w →
        w.returned <+: (completeLines options.initBufferSize w.file.content).drop w.base ∧
        (∀ op, (op = .restart → RestartOk w) → ∃ w', FollowNext options junk w op w') ∧
        (∀ calls, (∀ op ∈ calls, op.IsCall) →
          w.file.content.length + (completeLines options.initBufferSize w.file.content).length ≤
            readingCalls calls →
          ∃ w', exec (followStep options junk) w calls = some w' ∧
            w'.returned =
              (completeLines options.initBufferSize w.file.content).drop w.base) := by
  obtain ⟨t, file, hres, hresumed⟩ :=
    restartWithState_zero options junk noMultiRead ⟨content, inode, 0⟩
  have hinv0 := hresumed.inv (freshState_resumable options content inode) rfl
    (show scanLines options.initBufferSize [] _ = ([], []) from rfl)
  refine ⟨⟨t, file, [], 0, 0⟩, by rw [followStart, hres]; rfl, ?_⟩
  intro ops w hrun
  obtain ⟨front, lines, hinv⟩ := follow_run hinit hmax hinode hrun ⟨_, _, hinv0⟩
  refine ⟨⟨_, hinv.drop_base.symm⟩, ?_, ?_⟩
  · intro op hok
    obtain ⟨w', hstep, -⟩ := follow_step hinit hmax junk hinode hinv op hok
    exact ⟨w', hstep, hok⟩
  · intro calls hcalls hle
    obtain ⟨w', hex, hc, hb, ⟨_, _, hinv'⟩, -, hleft⟩ :=
      follow_calls hinit hmax junk hcalls hinv
    have hdrop := hinv'.drop_base
    rw [hc, hb] at hdrop
    refine ⟨w', hex, ?_⟩
    have hnil : linesAhead options w' = [] := by
      rcases hleft with hz | hle'
      · exact hz
      · have hahead := congrArg List.length hinv.drop_base
        rw [length_drop, length_append] at hahead
        unfold followFetchesLeft at hle'
        exact eq_nil_of_length_eq_zero (by omega)
    rw [hnil, append_nil] at hdrop
    exact hdrop.symm

/-- One line is confirmed before the restart, and the last one is finished behind it. -/
theorem follow_resumes_twice :
    ∃ w0 w w', followStart 0 false [97, 10, 98, 10, 99] 7 = some w0 ∧
      Run (FollowNext ⟨8, 8, 8⟩ 0) w0 [.fetch 0 true, .queued, .restart, .append [10]] w ∧
      exec (followStep ⟨8, 8, 8⟩ 0) w (List.replicate 9 (.fetch 0 true)) = some w' ∧
      w'.returned = [[98], [99]] := by
  obtain ⟨w0, h0, hall⟩ := follow_resumes ⟨8, 8, 8⟩ 0 false (by decide) (by decide)
    [97, 10, 98, 10, 99] 7 (by decide)
  have hrun : ∃ w, Run (FollowNext ⟨8, 8, 8⟩ 0) w0 [.fetch 0 true, .queued, .restart, .append [10]]
      w ∧ w.file.content = [97, 10, 98, 10, 99, 10] ∧ w.base = 1 := by
    cases h0
    exact ⟨_, .step ⟨rfl, by simp⟩ (.step ⟨rfl, by simp⟩ (.step ⟨rfl, fun _ => .inr rfl⟩
      (.step ⟨rfl, by simp⟩ (.refl _)))), rfl, rfl⟩
  obtain ⟨w, hrun, hcontent, hbase⟩ := hrun
  obtain ⟨-, -, hcalls⟩ := hall _ w hrun
  rw [hcontent, hbase] at hcalls
  obtain ⟨w', hex, hret⟩ := hcalls (List.replicate 9 (.fetch 0 true))
    (fun op hop => by rw [eq_of_mem_replicate hop]; trivial) (by decide)
  exact ⟨w0, w, w', h0, hrun, hex, hret.trans (by decide)⟩

/-- With a message returned but not confirmed, a restart keeps the end of line that was cached for
the next one: the first two lines come back as one message. -/
theorem follow_merges_lines :
    ∃ w0 w, followStart 0 false [97, 10, 98, 10, 99, 10] 7 = some w0 ∧
      exec (followStep ⟨8, 8, 8⟩ 0) w0 [.fetch 0 true, .restart, .fetch 0 true] = some w ∧
      completeLines 8 w.file.content = [[97], [98], [99]] ∧ w.base = 0 ∧
      w.returned = [[97, 10, 98]] ∧
      ¬ w.returned <+: (completeLines 8 w.file.content).drop w.base := by
  refine ⟨_, _, rfl, rfl, ?_, rfl, rfl, ?_⟩
  · decide
  · decide

end SyslogNg.LogProto
