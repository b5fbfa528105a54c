import SyslogNg.Lib.Buffer
import SyslogNg.Lib.CInt
import SyslogNg.LogProto.FindEom
import SyslogNg.LogProto.Transport
import Mathlib.Data.List.DropRight

/-!
# The text server (`lib/logproto-buffered-server.c`, `lib/logproto-text-server.c`)

The server without a character set conversion: bytes are read straight into `buffer`. The
members of `LogProtoBufferedServerState` are those of the persistent record, so what a restart
finds is exactly `state`.

A function returns `none` where the code would touch a byte outside the allocated block, and
`readLoop` also when its bound on the number of reads is used up. An empty `buffer` is the `NULL`
pointer (`g_malloc(0)` is `NULL` as well); `junk` is what a fresh byte holds and `addr` the
address of the buffer, which only `find_eom` looks at.
-/

namespace SyslogNg.LogProto

open Lib

/-- `LogProtoBufferedServerState` without the members that only conversion, byte order and
version checks use. -/
structure LogProtoBufferedServerState where
  bufferPos : Nat
  pendingBufferEnd : Nat
  bufferSize : Nat
  bufferCachedEol : Nat
  pendingBufferPos : Nat
  rawStreamPos : Int
  pendingRawStreamPos : Int
  rawBufferSize : Int
  pendingRawBufferSize : Int
  fileSize : Int
  fileInode : Int
  deriving DecidableEq

structure LogProtoTextServer where
  status : LogProtoStatus
  posTracking : Bool
  noMultiRead : Bool
  state : LogProtoBufferedServerState
  buffer : List UInt8
  deriving DecidableEq

/-- The record as `g_new0` or a fresh persistent entry leaves it. -/
def LogProtoBufferedServerState.zero : LogProtoBufferedServerState where
  bufferPos := 0
  pendingBufferEnd := 0
  bufferSize := 0
  bufferCachedEol := 0
  pendingBufferPos := 0
  rawStreamPos := 0
  pendingRawStreamPos := 0
  rawBufferSize := 0
  pendingRawBufferSize := 0
  fileSize := 0
  fileInode := 0

def logProtoTextServerNew (noMultiRead : Bool) : LogProtoTextServer where
  status := .success
  posTracking := false
  noMultiRead := noMultiRead
  state := .zero
  buffer := []

/-- What the server reads from: `log_transport_read` with room for a number of bytes, a bound on
the reads until it finds nothing, and whether the input ends; a followed file does not. -/
structure Source (T : Type) where
  read : T → Nat → ReadResult × T
  readsLeft : T → Nat
  ends : Bool

/-- What is stripped from the end of a line: CR, NL and NUL. -/
def isLineEnd (c : UInt8) : Bool := c == 13 || c == 10 || c == 0

/-- `while (msg_end > buffer_start && ...) msg_end--`. -/
def stripLine (line : List UInt8) : List UInt8 := line.rdropWhile isLineEnd

namespace LogProtoTextServer

/-- The `n` bytes of the buffer from offset `start` on. -/
def bytesAt (self : LogProtoTextServer) (start n : Nat) : Option (List UInt8) :=
  if start + n ≤ self.buffer.length then some (window self.buffer start (start + n)) else none

/-- The end of the first line: the cached one, or else the next NL or NUL. -/
def lookupEol (self : LogProtoTextServer) (addr bufferStart bufferBytes : Nat) :
    Option (Option Nat × LogProtoTextServer) :=
  if self.state.bufferCachedEol ≠ 0 then
    some (some self.state.bufferCachedEol,
      { self with state := { self.state with bufferCachedEol := 0 } })
  else (self.bytesAt bufferStart bufferBytes).map fun bs =>
    ((findEom (addr + bufferStart) bs).map (bufferStart + ·), self)

/-- All bytes in the buffer become one message. -/
def takeAll (self : LogProtoTextServer) (bufferStart bufferBytes : Nat) :
    Option (Option (List UInt8) × LogProtoTextServer) :=
  (self.bytesAt bufferStart bufferBytes).map fun msg =>
    (some msg,
      { self with state := { self.state with pendingBufferPos := self.state.pendingBufferEnd } })

/-- No line end and room in the buffer: the partial line moves to the start of the buffer. -/
def splitBuffer (self : LogProtoTextServer) (bufferStart bufferBytes : Nat) :
    Option (Option (List UInt8) × LogProtoTextServer) :=
  (moveToStart self.buffer bufferStart bufferBytes).map fun buffer =>
    let state := { self.state with pendingBufferPos := 0, pendingBufferEnd := bufferBytes }
    let state := if self.posTracking then
      { state with
        pendingRawStreamPos :=
          state.pendingRawStreamPos + (state.pendingRawBufferSize - bufferBytes)
        pendingRawBufferSize := bufferBytes } else state
    (none, { self with buffer := buffer, state := state })

/-- A line that ends at `eol` becomes a message; the end of the next line is looked up and
cached. -/
def takeLine (self : LogProtoTextServer) (addr bufferStart eol : Nat) :
    Option (Option (List UInt8) × LogProtoTextServer) :=
  if eol < bufferStart then none
  else (self.bytesAt bufferStart (eol - bufferStart)).bind fun line =>
    let pos := eol + 1
    if self.state.pendingBufferEnd ≠ pos then
      (self.bytesAt pos (usub32 self.state.pendingBufferEnd pos)).map fun rest =>
        let eom := (findEom (addr + pos) rest).map (pos + ·)
        (some (stripLine line),
          { self with
            state := { self.state with pendingBufferPos := pos, bufferCachedEol := eom.getD 0 } })
    else some (some (stripLine line),
      { self with state := { self.state with pendingBufferPos := self.state.pendingBufferEnd } })

/-- `log_proto_text_server_fetch_from_buf`: the message, if the buffer has one. -/
def textFetchFromBuf (self : LogProtoTextServer) (addr bufferStart bufferBytes : Nat)
    (flushTheRest : Bool) : Option (Option (List UInt8) × LogProtoTextServer) :=
  if flushTheRest then self.takeAll bufferStart bufferBytes
  else (self.lookupEol addr bufferStart bufferBytes).bind fun
    | (none, self) =>
      if bufferBytes = self.state.bufferSize then self.takeAll bufferStart bufferBytes
      else self.splitBuffer bufferStart bufferBytes
    | (some eol, self) => self.takeLine addr bufferStart eol

/-- The empty buffer starts over. -/
def resetBuffer (self : LogProtoTextServer) : LogProtoTextServer :=
  let state := if self.posTracking then
    { self.state with
      pendingRawStreamPos := self.state.pendingRawStreamPos + self.state.pendingRawBufferSize
      pendingRawBufferSize := 0 } else self.state
  { self with state := { state with pendingBufferPos := 0, pendingBufferEnd := 0 } }

/-- `log_proto_buffered_server_fetch_from_buf`. -/
def fetchFromBuf (self : LogProtoTextServer) (addr : Nat) (flushTheRest : Bool) :
    Option (Option (List UInt8) × LogProtoTextServer) :=
  let bufferStart := self.state.pendingBufferPos
  let bufferBytes := usub32 self.state.pendingBufferEnd self.state.pendingBufferPos
  if bufferBytes = 0 then some (none, self.resetBuffer)
  else self.textFetchFromBuf addr bufferStart bufferBytes flushTheRest

/-- What `fetch` returns: the status, the message if there is one, and the new state. -/
abbrev FetchResult (T : Type) :=
  LogProtoStatus × Option (List UInt8) × LogProtoTextServer × T

/-- The end of the input, or an error: what is left in the buffer is a message; without one the
status is returned at once. -/
def flushAtEnd {T : Type} (self : LogProtoTextServer) (addr : Nat) (status : LogProtoStatus)
    (transport : T) : Option (FetchResult T) :=
  ({ self with status := status }.fetchFromBuf addr true).map fun
    | (some msg, self) => (.success, some msg, self, transport)
    | (none, self) => (status, none, self, transport)

/-- The bytes of a read are stored behind those in the buffer. -/
def addBytes (self : LogProtoTextServer) (bs : List UInt8) : Option LogProtoTextServer :=
  (store self.buffer self.state.pendingBufferEnd bs).map fun buffer =>
    { self with
      buffer := buffer
      state := { self.state with
        pendingRawBufferSize := wrap32 (self.state.pendingRawBufferSize + bs.length)
        pendingBufferEnd := (self.state.pendingBufferEnd + bs.length) % 2 ^ 32 } }

/-- `while (*may_read)`, with a bound on the number of rounds. -/
def readLoop {T : Type} (source : Source T) (addr : Nat) :
    Nat → LogProtoTextServer → T → Bool → Option (FetchResult T)
  | 0, _, _, _ => none
  | rounds + 1, self, transport, mayRead =>
    if !mayRead then some (.success, none, self, transport)
    else
      let avail := usub32 self.state.bufferSize self.state.pendingBufferEnd
      match source.read transport avail with
      | (.again, transport) => some (.success, none, self, transport)
      | (.error, transport) => self.flushAtEnd addr .error transport
      | (.eof, transport) => self.flushAtEnd addr .eof transport
      | (.bytes bs, transport) =>
        (self.addBytes bs).bind fun self =>
          (self.fetchFromBuf addr false).bind fun
          | (some msg, self) => some (.success, some msg, self, transport)
          | (none, self) => readLoop source addr rounds self transport (!self.noMultiRead)

/-- The buffer is allocated by the first `fetch`. -/
def allocate (options : LogProtoServerOptions) (junk : UInt8) (self : LogProtoTextServer) :
    LogProtoTextServer :=
  if self.buffer.isEmpty then
    { self with
      state := { self.state with bufferSize := options.initBufferSize }
      buffer := List.replicate options.initBufferSize junk }
  else self

/-- `log_proto_buffered_server_fetch`. -/
def bufferedFetch {T : Type} (source : Source T) (options : LogProtoServerOptions) (junk : UInt8)
    (addr : Nat) (self : LogProtoTextServer) (transport : T) (mayRead : Bool) :
    Option (FetchResult T) :=
  ((self.allocate options junk).fetchFromBuf addr false).bind fun
  | (some msg, self) => some (.success, some msg, self, transport)
  | (none, self) => readLoop source addr (source.readsLeft transport + 1) self transport mayRead

/-- `log_proto_server_fetch`: an error or the end of the input is final. -/
def fetch {T : Type} (source : Source T) (options : LogProtoServerOptions) (junk : UInt8)
    (addr : Nat) (self : LogProtoTextServer) (transport : T) (mayRead : Bool) :
    Option (FetchResult T) :=
  if self.status = .success then
    self.bufferedFetch source options junk addr transport mayRead
  else some (self.status, none, self, transport)

/-- `log_proto_buffered_server_queued`: the messages fetched so far are confirmed. -/
def queued (self : LogProtoTextServer) : LogProtoTextServer :=
  let state := { self.state with
    bufferPos := self.state.pendingBufferPos
    rawStreamPos := self.state.pendingRawStreamPos
    rawBufferSize := self.state.pendingRawBufferSize }
  let state := if state.pendingBufferPos = state.pendingBufferEnd then
    { state with pendingBufferEnd := 0, bufferPos := 0, pendingBufferPos := 0 } else state
  let state := if self.posTracking && state.bufferPos = state.pendingBufferEnd then
    { state with rawStreamPos := state.rawStreamPos + state.rawBufferSize, rawBufferSize := 0 }
    else state
  { self with state := state }

end LogProtoTextServer

/-! ## Files and restarts -/

/-- An open regular file. -/
structure LogFile where
  content : List UInt8
  inode : Int
  pos : Nat

/-- `log_transport_file_read_method`: the end of a regular file is not the end of the input. -/
def fileRead (file : LogFile) (count : Nat) : ReadResult × LogFile :=
  match (file.content.drop file.pos).take count with
  | [] => (.again, file)
  | b :: bs => (.bytes (b :: bs), { file with pos := file.pos + (bs.length + 1) })

/-- A followed file as the source of a text server. -/
def fileSource : Source LogFile := ⟨fileRead, fun file => file.content.length - file.pos, false⟩

/-- `lseek(fd, ofs, SEEK_SET)`; a negative offset is refused. -/
def LogFile.seek (file : LogFile) (ofs : Int) : LogFile :=
  if 0 ≤ ofs then { file with pos := ofs.toNat } else file

namespace LogProtoTextServer

/-- The label `exit` of `apply_state`. -/
def finishState (self : LogProtoTextServer) (file : LogFile) (ofs : Int) :
    LogProtoTextServer × LogFile :=
  ({ self with state := { self.state with
      fileInode := file.inode
      fileSize := file.content.length
      rawStreamPos := ofs
      pendingBufferPos := self.state.bufferPos
      pendingRawStreamPos := ofs
      pendingRawBufferSize := self.state.rawBufferSize } }, file)

/-- The label `error` of `apply_state`: the file is read from its beginning. -/
def restartFile (self : LogProtoTextServer) (file : LogFile) : LogProtoTextServer × LogFile :=
  finishState
    { self with state := { self.state with
      bufferPos := 0
      pendingBufferEnd := 0
      bufferCachedEol := 0
      rawStreamPos := 0
      rawBufferSize := 0 } } (file.seek 0) 0

/-- The part of the file that was in the buffer is read again. -/
def reloadBuffer (self : LogProtoTextServer) (file : LogFile) :
    Option (LogProtoTextServer × LogFile) :=
  let rawBufferSize := (self.state.rawBufferSize % 2 ^ 32).toNat
  if rawBufferSize > self.state.bufferSize then some (self.restartFile file)
  else match fileRead file rawBufferSize with
    | (.bytes bs, file) =>
      (store self.buffer 0 bs).map fun buffer =>
        let self := { self with buffer := buffer }
        if bs.length ≠ rawBufferSize then self.restartFile file
        else
          let state : LogProtoBufferedServerState :=
            { self.state with pendingBufferEnd := bs.length }
          let state := if state.bufferPos > state.pendingBufferEnd ∨
              state.bufferCachedEol > state.pendingBufferEnd then
            { state with bufferPos := 0, pendingBufferPos := 0, bufferCachedEol := 0 } else state
          finishState { self with state := state } file self.state.rawStreamPos
    | (_, file) => some (self.restartFile file)

/-- `log_proto_buffered_server_apply_state`, without an encoding. -/
def applyState (junk : UInt8) (self : LogProtoTextServer) (file : LogFile) :
    Option (LogProtoTextServer × LogFile) :=
  let self := if self.buffer.isEmpty then
    { self with buffer := List.replicate self.state.bufferSize junk } else self
  let self := { self with state := { self.state with pendingBufferEnd := 0 } }
  let size : Int := file.content.length
  if self.state.fileInode ≠ 0 ∧ self.state.fileInode = file.inode ∧
      self.state.fileSize ≤ size ∧ self.state.rawStreamPos ≤ size then
    let file := file.seek self.state.rawStreamPos
    if self.state.rawBufferSize ≠ 0 then self.reloadBuffer file
    else
      -- the complete contents of the buffer were processed
      let ofs := self.state.rawStreamPos + self.state.rawBufferSize
      some (finishState
        { self with state := { self.state with
          rawStreamPos := ofs
          rawBufferSize := 0
          bufferPos := 0
          pendingBufferEnd := 0 } } (file.seek ofs) ofs)
  else some (self.restartFile file)

/-- `log_proto_buffered_server_restart_with_state` of a new server, with the stored record (a fresh
one is all zero). -/
def restartWithState (junk : UInt8) (noMultiRead : Bool) (stored : LogProtoBufferedServerState)
    (file : LogFile) : Option (LogProtoTextServer × LogFile) :=
  applyState junk
    { logProtoTextServerNew noMultiRead with posTracking := true, state := stored } file

end LogProtoTextServer

end SyslogNg.LogProto
