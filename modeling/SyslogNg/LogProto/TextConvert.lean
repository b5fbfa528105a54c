import SyslogNg.LogProto.TextDelivery

/-!
# The text server with a character set (`lib/logproto-buffered-server.c`)

With an encoding the server reads into a buffer of its own and has `g_iconv` put the text into
`buffer`, which grows as far as `max_buffer_size`; a failed conversion is an error of the fetch. The
calls of `g_iconv` for a chunk are a script, and so is what the transport does.
-/

namespace SyslogNg.LogProto

open Lib

/-- How a call of `g_iconv` ends: 0, `EINVAL`, `E2BIG` or `EILSEQ`. -/
inductive IconvStatus where
  | ok
  | incomplete
  | full
  | illegal
  deriving DecidableEq

/-- What a call of `g_iconv` has written, and the part of its input that it has not taken. -/
structure IconvCall where
  out : List UInt8
  rest : List UInt8
  status : IconvStatus
  deriving DecidableEq

/-- A `LogProtoTextServer` with its conversion. -/
structure ConvertingServer where
  server : LogProtoTextServer
  /-- `convert` is open. -/
  encoding : Bool
  rawBufferLeftover : List UInt8
  deriving DecidableEq

/-- What happens during a fetch: what the transport does, and the calls of `g_iconv` for every chunk
that is read. -/
structure TextEnv where
  transport : LogTransport
  iconvs : List (List IconvCall)

namespace ConvertingServer

/-- `sizeof(state->raw_buffer_leftover)`. -/
def leftoverSize : Nat := 8

/-- The bytes that `g_iconv` has written count. -/
def advance (n : Nat) (self : LogProtoTextServer) : LogProtoTextServer :=
  { self with state := { self.state with pendingBufferEnd := self.state.pendingBufferEnd + n } }

def doubled (options : LogProtoServerOptions) (bufferSize : Nat) : Nat :=
  if 2 * bufferSize > options.maxBufferSize then options.maxBufferSize else 2 * bufferSize

def grow (options : LogProtoServerOptions) (junk : UInt8) (self : LogProtoTextServer) :
    LogProtoTextServer :=
  { self with
    state := { self.state with bufferSize := doubled options self.state.bufferSize }
    buffer := realloc junk self.buffer (doubled options self.state.bufferSize) }

/-- `log_proto_buffered_server_convert_from_raw`: the bytes left over when it succeeds. `none` is a
write behind the buffer, or a script that is used up. -/
def convertFromRaw (options : LogProtoServerOptions) (junk : UInt8) :
    List IconvCall → LogProtoTextServer → Option (Option (List UInt8) × LogProtoTextServer)
  | [], _ => none
  | call :: calls, self =>
    if usub32 self.state.bufferSize self.state.pendingBufferEnd < call.out.length then none
    else (store self.buffer self.state.pendingBufferEnd call.out).bind fun buffer =>
      let self := { self with buffer := buffer }
      match call.status with
      -- what this call has written does not count
      | .illegal => some (none, self)
      | .ok =>
        let self := advance call.out.length self
        if call.rest.isEmpty then some (some [], self) else convertFromRaw options junk calls self
      | .incomplete =>
        let self := advance call.out.length self
        if call.rest.isEmpty then some (some [], self)
        else if leftoverSize < call.rest.length then some (none, self)
        else some (some call.rest,
          { self with state := { self.state with
            rawBufferSize := wrap32 (self.state.rawBufferSize - call.rest.length) } })
      | .full =>
        let self := advance call.out.length self
        if self.state.bufferSize < options.maxBufferSize then
          let self := grow options junk self
          if call.rest.isEmpty then some (some [], self) else convertFromRaw options junk calls self
        else some (none, self)

section

variable (options : LogProtoServerOptions) (junk : UInt8) (addr : Nat) (rawSize : List UInt8 → Nat)

/-- `fetch_from_buf`: with an encoding, `rawSize` says how large the unfinished line is in the file. -/
def fetchFromBuf (self : LogProtoTextServer) :
    Option (Option (List UInt8) × LogProtoTextServer) :=
  (self.fetchFromBuf addr false).map fun
  | (none, next) =>
    if self.posTracking && usub32 self.state.pendingBufferEnd self.state.pendingBufferPos ≠ 0 then
      let split : Int := rawSize next.pending
      (none, { next with state := { next.state with
        pendingRawStreamPos :=
          self.state.pendingRawStreamPos + (self.state.pendingRawBufferSize - split)
        pendingRawBufferSize := split } })
    else (none, next)
  | result => result

/-- The loop of `log_proto_buffered_server_fetch` over the chunks. -/
def readLoop : List (List IconvCall) → Nat → ConvertingServer → LogTransport → Bool →
    Option (LogProtoStatus × Option (List UInt8) × ConvertingServer)
  | _, 0, _, _, _ => none
  | iconvs, rounds + 1, self, transport, mayRead =>
    if !mayRead then some (.success, none, self)
    else
      let failed (status : LogProtoStatus) (server : LogProtoTextServer) :
          LogProtoStatus × Option (List UInt8) × ConvertingServer :=
        (status, none, { self with server := { server with status := status } })
      let flush (status : LogProtoStatus) :=
        (self.server.flushAtEnd addr status transport).map fun (status, msg, server, _) =>
          (status, msg, { self with server := server })
      match logTransportRead transport options.initBufferSize with
      | (.again, _) => some (.success, none, self)
      | (.error, _) => flush .error
      | (.eof, _) =>
        if self.rawBufferLeftover.isEmpty then flush .eof else some (failed .eof self.server)
      | (.bytes bs, transport) =>
        let server := { self.server with state := { self.server.state with
          pendingRawBufferSize := wrap32 (self.server.state.pendingRawBufferSize + bs.length) } }
        (convertFromRaw options junk (iconvs.headD []) server).bind fun
        | (none, server) =>
          some (.error, none,
            { self with server := { server with status := .error }, rawBufferLeftover := [] })
        | (some leftover, server) =>
          (fetchFromBuf addr rawSize server).bind fun
          | (some msg, server) =>
            some (.success, some msg, { self with server := server, rawBufferLeftover := leftover })
          | (none, server) =>
            readLoop iconvs.tail rounds { self with server := server, rawBufferLeftover := leftover }
              transport (!server.noMultiRead)

/-- `log_proto_server_fetch`. -/
def fetch (self : ConvertingServer) (mayRead : Bool) (env : TextEnv) :
    Option (LogProtoStatus × Option (List UInt8) × ConvertingServer) :=
  if self.encoding then
    if self.server.status = .success then
      (fetchFromBuf addr rawSize (self.server.allocate options junk)).bind fun
      | (some msg, server) => some (.success, some msg, { self with server := server })
      | (none, server) =>
        readLoop options junk addr rawSize env.iconvs (readsLeft env.transport + 1)
          { self with server := server } env.transport mayRead
    else some (self.server.status, none, self)
  else
    (self.server.fetch transportSource options junk addr env.transport mayRead).map
      fun (status, msg, server, _) => (status, msg, { self with server := server })

end

/-- `log_proto_text_server_prepare`. -/
def prepare (self : ConvertingServer) : Bool := self.server.state.bufferCachedEol ≠ 0

def isPreemptable (self : ConvertingServer) : Bool := self.server.state.bufferCachedEol = 0

def queued (self : ConvertingServer) : ConvertingServer := { self with server := self.server.queued }

/-- `log_proto_server_reset_error`. -/
def resetError (self : ConvertingServer) : ConvertingServer :=
  { self with server := { self.server with status := .success } }

/-- The buffer holds a line, or it is full. -/
def HoldsMessage (self : ConvertingServer) : Prop :=
  (∃ c ∈ self.server.pending, isEom c = true) ∨
    (self.server.pending ≠ [] ∧ self.server.pending.length = self.server.state.bufferSize)

/-- The calls of `g_iconv` for a chunk put all of its text into the buffer, or nothing. -/
def Converts (options : LogProtoServerOptions) : Bool → Nat → List IconvCall → Prop
  | _, _, [] => True
  | first, bufferSize, call :: calls =>
    (call.status = .illegal → first = true) ∧
    (call.status = .incomplete → call.rest.length ≤ leftoverSize) ∧
    (call.status = .full → bufferSize < options.maxBufferSize ∧
      Converts options false (doubled options bufferSize) calls) ∧
    (call.status = .ok → Converts options false bufferSize calls)

/-- A bound on the size of the buffer after a chunk. -/
def sizeAfter (options : LogProtoServerOptions) (bufferSize : Nat) : List IconvCall → Nat
  | [] => bufferSize
  | call :: calls =>
    sizeAfter options
      (if call.status = .full then max bufferSize (doubled options bufferSize) else bufferSize) calls

/-- `Converts`, for the chunks that are read one after another. -/
def ConvertsAll (options : LogProtoServerOptions) : Nat → List (List IconvCall) → Prop
  | _, [] => True
  | bufferSize, calls :: chunks =>
    Converts options true bufferSize calls ∧
      ConvertsAll options (sizeAfter options bufferSize calls) chunks

end ConvertingServer

end SyslogNg.LogProto
