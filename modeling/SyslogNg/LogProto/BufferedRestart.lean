import SyslogNg.Lib.ByteStore
import SyslogNg.LogProto.BufferedFetch

/-!
# The restart of a buffered server (`lib/logproto-buffered-server.c`)

`log_proto_buffered_server_restart_with_state`: the entry of the persistent state may be missing, of
an older version, or a record in either byte order. A record is applied to the file that `fstat` and
one read show; with an encoding the bytes that are read again are converted again.
-/

namespace SyslogNg.LogProto

open Lib

/-- A `LogProtoBufferedServerState` as it is stored. `leftover` are the `raw_buffer_leftover_size`
bytes from `raw_buffer_leftover` on. -/
structure StoredState where
  version : Nat
  bigEndian : Bool
  leftover : List UInt8
  state : LogProtoBufferedServerState
  sized : state.bufferSize < 2 ^ 32
  rawSized : state.rawBufferSize < 2 ^ 31 ∧ state.pendingRawBufferSize < 2 ^ 31

/-- An entry of `persist_state`, with the version of its format. -/
inductive StoredEntry where
  | missing
  | old (persistVersion : Fin 4) (data : List UInt8)
  | current (stored : StoredState)

/-- What `fstat` tells. -/
structure FileStat where
  inode : Int
  size : Int

/-! ## The byte order -/

/-- The lowest `n` bytes of a number, the other way round. -/
def swapBytes : Nat → Nat → Nat
  | 0, _ => 0
  | n + 1, x => x % 256 * 256 ^ n + swapBytes n (x / 256)

/-- `GUINT32_SWAP_LE_BE` into a `guint32`. -/
def swapU32 (x : Nat) : Nat := swapBytes 4 x

/-- `GUINT32_SWAP_LE_BE` into a `gint32`. -/
def swapS32 (x : Int) : Int := wrap32 (swapBytes 4 (x % 2 ^ 32).toNat)

/-- `GUINT64_SWAP_LE_BE` into a `gint64`. -/
def swapS64 (x : Int) : Int := Int.bmod (swapBytes 8 (x % 2 ^ 64).toNat) (2 ^ 64)

theorem swapBytes_lt (n x : Nat) : swapBytes n x < 256 ^ n := by
  induction n generalizing x with
  | zero => exact Nat.one_pos
  | succ n ih =>
    have hlow := Nat.mod_lt x (show 0 < 256 by decide)
    have hrest := ih (x / 256)
    calc x % 256 * 256 ^ n + swapBytes n (x / 256) < x % 256 * 256 ^ n + 256 ^ n := by omega
      _ = (x % 256 + 1) * 256 ^ n := by ring
      _ ≤ 256 * 256 ^ n := Nat.mul_le_mul_right _ hlow
      _ = 256 ^ (n + 1) := by ring

theorem swapU32_lt (x : Nat) : swapU32 x < 2 ^ 32 := by
  have hlt := swapBytes_lt 4 x
  norm_num at hlt
  exact hlt

theorem swapS32_lt (x : Int) : swapS32 x < 2 ^ 31 := (wrap32_range _).2

def LogProtoBufferedServerState.swapped (state : LogProtoBufferedServerState) :
    LogProtoBufferedServerState where
  bufferPos := swapU32 state.bufferPos
  pendingBufferEnd := swapU32 state.pendingBufferEnd
  bufferSize := swapU32 state.bufferSize
  bufferCachedEol := swapU32 state.bufferCachedEol
  pendingBufferPos := swapU32 state.pendingBufferPos
  rawStreamPos := swapS64 state.rawStreamPos
  pendingRawStreamPos := swapS64 state.pendingRawStreamPos
  rawBufferSize := swapS32 state.rawBufferSize
  pendingRawBufferSize := swapS32 state.pendingRawBufferSize
  fileSize := swapS64 state.fileSize
  fileInode := swapS64 state.fileInode

theorem LogProtoBufferedServerState.swapped_sized (state : LogProtoBufferedServerState) :
    state.swapped.bufferSize < 2 ^ 32 ∧
      state.swapped.rawBufferSize < 2 ^ 31 ∧ state.swapped.pendingRawBufferSize < 2 ^ 31 := by
  unfold swapped
  dsimp only
  exact ⟨swapU32_lt state.bufferSize, swapS32_lt state.rawBufferSize, swapS32_lt state.pendingRawBufferSize⟩

def StoredState.swapped (stored : StoredState) : StoredState where
  version := stored.version
  bigEndian := !stored.bigEndian
  leftover := stored.leftover
  state := stored.state.swapped
  sized := stored.state.swapped_sized.1
  rawSized := stored.state.swapped_sized.2

/-- The record as the code goes on with it. -/
def StoredState.onHost (hostBigEndian : Bool) (stored : StoredState) : StoredState :=
  if stored.bigEndian = hostBigEndian then stored else stored.swapped

/-! ## Older versions -/

/-- A `SerializeArchive` on a buffer: the bytes that are left. -/
def archiveRead (n : Nat) (archive : List UInt8) : Option (List UInt8 × List UInt8) :=
  if n ≤ archive.length then some (archive.take n, archive.drop n) else none

def archiveReadUint (n : Nat) (archive : List UInt8) : Option (Nat × List UInt8) :=
  (archiveRead n archive).map fun (bytes, archive) => (ofBe32 bytes, archive)

/-- `serialize_read_cstring`. -/
def archiveReadCstring (archive : List UInt8) : Option (List UInt8) :=
  (archiveReadUint 4 archive).bind fun (len, archive) => (archiveRead len archive).map Prod.fst

structure StateV3 where
  pos : Int
  inode : Int
  size : Int
  buffer : List UInt8

def toS64 (n : Nat) : Int := Int.bmod n (2 ^ 64)

/-- The members of a version 3 entry behind its length. -/
def readV3 (archive : List UInt8) : Option StateV3 :=
  (archiveReadUint 2 archive).bind fun (version, archive) =>
    if version ≠ 0 then none
    else (archiveReadUint 8 archive).bind fun (pos, archive) =>
      (archiveReadUint 8 archive).bind fun (inode, archive) =>
        (archiveReadUint 8 archive).bind fun (size, archive) =>
          (archiveReadUint 2 archive).bind fun (version, archive) =>
            if version ≠ 0 then none
            else (archiveReadCstring archive).map (⟨toS64 pos, toS64 inode, toS64 size, ·⟩)

/-- The digits of `strtoll`. -/
def digitsValue (s : List UInt8) : Nat :=
  (s.takeWhile fun c => 48 ≤ c && c ≤ 57).foldl (fun n c => n * 10 + (c.toNat - 48)) 0

/-- `strtoll (s, NULL, 10)`. -/
def strtoll (s : List UInt8) : Int :=
  let s := s.dropWhile fun c => c = 32 || (9 ≤ c && c ≤ 13)
  let value : Int := match s with
    | c :: rest => if c = 45 then -(digitsValue rest : Int) else if c = 43 then digitsValue rest
      else digitsValue s
    | [] => 0
  max (-2 ^ 63) (min value (2 ^ 63 - 1))

/-- A new buffered server. -/
def bufferedServerNew (noMultiRead encoding : Bool) : ConvertingServer :=
  ⟨logProtoTextServerNew noMultiRead, encoding, []⟩

section

variable (options : LogProtoServerOptions) (junk : UInt8)

/-- `log_proto_buffered_server_convert_state` into a fresh record; `none` is its assertion, and a
conversion that fails leaves the record as it is. The buffer of version 3 is allocated here, but
`buffer_size` is not set. -/
def convertState (persistVersion : Fin 4) (data : List UInt8) (self : LogProtoTextServer) :
    Option (Bool × LogProtoTextServer) :=
  if persistVersion ≤ 2 then
    some (true, { self with state := { self.state with
      fileInode := 0, rawStreamPos := strtoll data, fileSize := 0 } })
  else (archiveReadUint 4 data).bind fun (readLength, archive) =>
    if readLength ≠ data.length - 4 then none
    else some (match readV3 archive with
      | none => (false, self)
      | some v3 => (true, { self with
          buffer := v3.buffer ++
            List.replicate (max options.initBufferSize v3.buffer.length - v3.buffer.length) junk
          state := { self.state with
            bufferPos := 0
            pendingBufferEnd := v3.buffer.length
            fileInode := v3.inode
            rawStreamPos := v3.pos
            fileSize := v3.size } }))

/-! ## The state of a file -/

/-- The label `exit` of `apply_state`. -/
def finishApply (stat : FileStat) (ofs : Int) (self : ConvertingServer) : ConvertingServer :=
  { self with server := { self.server with state := { self.server.state with
      fileInode := stat.inode
      fileSize := stat.size
      rawStreamPos := ofs
      pendingBufferPos := self.server.state.bufferPos
      pendingRawStreamPos := ofs
      pendingRawBufferSize := self.server.state.rawBufferSize } } }

/-- The label `error` of `apply_state`: the file is read from its beginning. -/
def restartApply (stat : FileStat) (self : ConvertingServer) : ConvertingServer :=
  finishApply stat 0
    { self with
      rawBufferLeftover := []
      server := { self.server with state := { self.server.state with
        bufferPos := 0
        pendingBufferEnd := 0
        bufferCachedEol := 0
        rawStreamPos := 0
        rawBufferSize := 0 } } }

/-- The end of a reload: positions outside the buffer are dropped. -/
def resumeApply (stat : FileStat) (self : ConvertingServer) : ConvertingServer :=
  let state := self.server.state
  let state := if state.bufferPos > state.pendingBufferEnd ∨
      state.bufferCachedEol > state.pendingBufferEnd then
    { state with bufferPos := 0, pendingBufferPos := 0, bufferCachedEol := 0 } else state
  finishApply stat state.rawStreamPos { self with server := { self.server with state := state } }

/-- The raw bytes of the buffer are read again. A negative `raw_buffer_size` is larger than every
`buffer_size`, but not larger than `max_buffer_size`; then `g_alloca` leaves the stack. -/
def reloadApply (stat : FileStat) (transport : LogTransport) (calls : List IconvCall)
    (self : ConvertingServer) : Option ConvertingServer :=
  let raw := self.server.state.rawBufferSize
  if self.encoding then
    if raw > options.maxBufferSize then some (restartApply stat self)
    else if raw < 0 then none
    else match (logTransportRead transport raw.toNat).1 with
      | .bytes bs =>
        if bs.length ≠ raw.toNat then some (restartApply stat self)
        else (ConvertingServer.convertFromRaw options junk calls self.server).map fun
          | (none, server) => restartApply stat { self with server := server }
          | (some leftover, server) => resumeApply stat { self with
              server := server
              rawBufferLeftover :=
                if leftover.isEmpty then self.rawBufferLeftover else leftover }
      | _ => some (restartApply stat self)
  else
    if (raw % 2 ^ 32).toNat > self.server.state.bufferSize then some (restartApply stat self)
    else match (logTransportRead transport (raw % 2 ^ 64).toNat).1 with
      | .bytes bs => (store self.server.buffer 0 bs).map fun buffer =>
        let self := { self with server := { self.server with buffer := buffer } }
        if (bs.length : Int) ≠ raw then restartApply stat self
        else resumeApply stat { self with server := { self.server with
          state := { self.server.state with pendingBufferEnd := bs.length } } }
      | _ => some (restartApply stat self)

/-- `log_proto_buffered_server_apply_state`. -/
def applyState (stat : Option FileStat) (transport : LogTransport) (calls : List IconvCall)
    (self : ConvertingServer) : Option ConvertingServer :=
  match stat with
  | none => some self
  | some stat =>
    let buffer := if self.server.buffer.isEmpty then
      List.replicate self.server.state.bufferSize junk else self.server.buffer
    let self := { self with server := { self.server with
      buffer := buffer
      state := { self.server.state with pendingBufferEnd := 0 } } }
    let state := self.server.state
    if state.fileInode ≠ 0 ∧ state.fileInode = stat.inode ∧ state.fileSize ≤ stat.size ∧
        state.rawStreamPos ≤ stat.size then
      if state.rawBufferSize ≠ 0 then reloadApply options junk stat transport calls self
      else
        -- the complete contents of the buffer were processed
        some (finishApply stat state.rawStreamPos { self with server := { self.server with
          state := { state with bufferPos := 0, pendingBufferEnd := 0 } } })
    else some (restartApply stat self)

/-- What a restart meets: the byte order of the host, whether the persistent state has room for a new
entry, what `fstat` and a read of the file give, and the calls of `g_iconv`. -/
structure RestartEnv where
  hostBigEndian : Bool
  allocates : Bool
  stat : Option FileStat
  transport : LogTransport
  iconvs : List IconvCall

/-- `log_proto_buffered_server_restart_with_state` of a server that has no buffer yet. -/
def restartWithState (kind : BufferedKind) (entry : StoredEntry) (env : RestartEnv)
    (self : ConvertingServer) : Option (Bool × ConvertingServer) :=
  let fresh := { self with server := { self.server with posTracking := true, state := .zero } }
  let apply (self : ConvertingServer) :=
    applyState options junk env.stat env.transport (kind.iconvs env.iconvs) self
  match entry with
  | .missing =>
    if env.allocates then (apply fresh).map ((true, ·)) else some (false, fresh)
  | .old persistVersion data =>
    if env.allocates then
      (convertState options junk persistVersion data fresh.server).bind fun (success, server) =>
        (apply { fresh with server := server }).map ((success, ·))
    else some (false, fresh)
  | .current stored =>
    let stored := stored.onHost env.hostBigEndian
    if stored.version > 0 then
      if env.allocates then (apply fresh).map ((false, ·)) else some (false, fresh)
    else
      (apply { fresh with
        rawBufferLeftover := stored.leftover
        server := { fresh.server with state := stored.state } }).map ((true, ·))

end

end SyslogNg.LogProto
