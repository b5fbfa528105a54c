import SyslogNg.LogProto.RecordServer
import SyslogNg.LogProto.TextConvert

/-!
# The fetch of a buffered server (`lib/logproto-buffered-server.c`)

`log_proto_buffered_server_fetch` with the methods of its kinds: the text server, the server of
datagrams and the two servers of records. With an encoding or without one, bytes that an earlier
chunk has left over stand before those of the next.
-/

namespace SyslogNg.LogProto

open Lib

/-- The servers that are buffered servers. -/
inductive BufferedKind where
  | text
  | dgram
  | binaryRecord (recordSize : Nat)
  | paddedRecord (recordSize : Nat)

namespace BufferedKind

def recordSize : BufferedKind → Option Nat
  | .text | .dgram => none
  | .binaryRecord n | .paddedRecord n => some n

def streamBased : BufferedKind → Bool
  | .text => true
  | .dgram | .binaryRecord _ | .paddedRecord _ => false

/-- The calls of `g_iconv` for a chunk. Where the chunk is not part of a stream, a character that is
not complete is an error as an illegal one is. -/
def iconvs (kind : BufferedKind) (calls : List IconvCall) : List IconvCall :=
  if kind.streamBased then calls
  else calls.map fun call =>
    if call.status = .incomplete then { call with status := .illegal } else call

/-- The `read_data` method; `none` is the assertion that a record fits. -/
def readData (kind : BufferedKind) (transport : LogTransport) (len : Nat) :
    Option (ReadResult × LogTransport) :=
  match kind.recordSize with
  | none => some (logTransportRead transport len)
  | some n =>
    if len < n then none
    else match logTransportRead transport n with
      | (.bytes bs, transport) =>
        some (if bs.length = n then .bytes bs else .error, transport)
      | read => some read

/-- `fetch_from_buf` where all bytes in the buffer are one message. -/
def wholeFromBuf (self : LogProtoTextServer) :
    Option (Option (List UInt8) × LogProtoTextServer) :=
  let bufferBytes := usub32 self.state.pendingBufferEnd self.state.pendingBufferPos
  if bufferBytes = 0 then some (none, self.resetBuffer)
  else self.takeAll self.state.pendingBufferPos bufferBytes

def paddedFromBuf (addr n : Nat) (self : LogProtoTextServer) :
    Option (Option (List UInt8) × LogProtoTextServer) :=
  let bufferBytes := usub32 self.state.pendingBufferEnd self.state.pendingBufferPos
  if bufferBytes = 0 then some (none, self.resetBuffer)
  else (LogProtoRecordServer.paddedFetchFromBuf ⟨self, n⟩ addr self.state.pendingBufferPos
    bufferBytes).map fun (msg, record) => (some msg, record.super)

/-- `log_proto_buffered_server_fetch_from_buf` with the `fetch_from_buf` method of the kind. -/
def fetchFromBuf (kind : BufferedKind) (encoding : Bool) (addr : Nat) (rawSize : List UInt8 → Nat)
    (self : LogProtoTextServer) (flushTheRest : Bool) :
    Option (Option (List UInt8) × LogProtoTextServer) :=
  match kind with
  | .text =>
    if encoding ∧ !flushTheRest then ConvertingServer.fetchFromBuf addr rawSize self
    else self.fetchFromBuf addr flushTheRest
  | .dgram | .binaryRecord _ => wholeFromBuf self
  | .paddedRecord n => paddedFromBuf addr n self

section

variable (kind : BufferedKind) (options : LogProtoServerOptions) (junk : UInt8) (addr : Nat)
  (rawSize : List UInt8 → Nat)

/-- The end of the input, or an error. -/
def flushAtEnd (self : ConvertingServer) (status : LogProtoStatus) :
    Option (LogProtoStatus × Option (List UInt8) × ConvertingServer) :=
  (fetchFromBuf kind self.encoding addr rawSize { self.server with status := status } true).map fun
    | (some msg, server) => (.success, some msg, { self with server := server })
    | (none, server) => (status, none, { self with server := server })

/-- The room for a read; without a conversion it is a `gint`, and a `gsize` to the `read_data`
method. -/
def room (self : ConvertingServer) : Nat :=
  if self.encoding then options.initBufferSize
  else
    let avail := usub32 self.server.state.bufferSize self.server.state.pendingBufferEnd
    if avail < 2 ^ 31 then avail else 2 ^ 64 - 2 ^ 32 + avail

/-- A chunk goes into the buffer: what is left over of it, or `none` for a failed conversion. -/
def addChunk (calls : List IconvCall) (bs : List UInt8) (self : ConvertingServer) :
    Option (Option (List UInt8) × LogProtoTextServer) :=
  let server := { self.server with state := { self.server.state with
    pendingRawBufferSize := wrap32 (self.server.state.pendingRawBufferSize + bs.length) } }
  if self.encoding then
    ConvertingServer.convertFromRaw options junk (kind.iconvs calls) server
  else
    (store server.buffer (server.state.pendingBufferEnd + self.rawBufferLeftover.length) bs).map
      fun buffer => (some [], { server with
        buffer := buffer
        state := { server.state with
          pendingBufferEnd := server.state.pendingBufferEnd +
            (self.rawBufferLeftover.length + bs.length) } })

/-- `while (*may_read)`, with a bound on the number of rounds. -/
def readLoop : List (List IconvCall) → Nat → ConvertingServer → LogTransport → Bool →
    Option (LogProtoStatus × Option (List UInt8) × ConvertingServer)
  | _, 0, _, _, _ => none
  | iconvs, rounds + 1, self, transport, mayRead =>
    if !mayRead then some (.success, none, self)
    else (kind.readData transport (room options self)).bind fun
      | (.again, _) => some (.success, none, self)
      | (.error, _) => flushAtEnd kind addr rawSize self .error
      | (.eof, _) =>
        if self.rawBufferLeftover.isEmpty then flushAtEnd kind addr rawSize self .eof
        else some (.eof, none, { self with server := { self.server with status := .eof } })
      | (.bytes bs, transport) =>
        (addChunk kind options junk (iconvs.headD []) bs self).bind fun
        | (none, server) => some (.error, none,
            { self with server := { server with status := .error }, rawBufferLeftover := [] })
        | (some leftover, server) =>
          (fetchFromBuf kind self.encoding addr rawSize server false).bind fun
          | (some msg, server) =>
            some (.success, some msg, { self with server := server, rawBufferLeftover := leftover })
          | (none, server) =>
            readLoop iconvs.tail rounds { self with server := server, rawBufferLeftover := leftover }
              transport (!server.noMultiRead)

/-- `log_proto_server_fetch`. -/
def fetch (self : ConvertingServer) (mayRead : Bool) (env : TextEnv) :
    Option (LogProtoStatus × Option (List UInt8) × ConvertingServer) :=
  if self.server.status = .success then
    (fetchFromBuf kind self.encoding addr rawSize (self.server.allocate options junk) false).bind fun
    | (some msg, server) => some (.success, some msg, { self with server := server })
    | (none, server) =>
      readLoop kind options junk addr rawSize env.iconvs (readsLeft env.transport + 1)
        { self with server := server } env.transport mayRead
  else some (self.server.status, none, self)

end

end BufferedKind

end SyslogNg.LogProto
