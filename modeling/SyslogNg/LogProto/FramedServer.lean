import SyslogNg.Lib.Buffer
import SyslogNg.Lib.CInt
import SyslogNg.LogProto.Transport

/-!
# The framed server (`lib/logproto-framed-server.c`)

`log_proto_framed_server_fetch` reads frames `LEN SP PAYLOAD` into one buffer that it compacts
and resizes as it goes. A function returns `none` where the code would touch a byte outside the
allocated block. An empty `buffer` is the `NULL` pointer; a fresh byte of a block holds `junk`,
which may be anything.
-/

namespace SyslogNg.LogProto

open Lib

/-- `LPFSS_FRAME_READ` and `LPFSS_MESSAGE_READ`. -/
inductive FramedServerState where
  | frameRead
  | messageRead
  deriving DecidableEq

structure LogProtoFramedServer where
  state : FramedServerState
  buffer : List UInt8
  bufferSize : Nat
  bufferPos : Nat
  bufferEnd : Nat
  frameLen : Nat
  halfMessageInBuffer : Bool
  deriving DecidableEq

def lpfsFrameBuffer : Nat := 10

def logProtoFramedServerNew : LogProtoFramedServer where
  state := .frameRead
  buffer := []
  bufferSize := 0
  bufferPos := 0
  bufferEnd := 0
  frameLen := 0
  halfMessageInBuffer := false

namespace LogProtoFramedServer

/-- Move what is between `buffer_pos` and `buffer_end` to the start of the buffer. -/
def shift (self : LogProtoFramedServer) : Option LogProtoFramedServer :=
  (moveToStart self.buffer self.bufferPos (usub32 self.bufferEnd self.bufferPos)).map fun buffer =>
    { self with
      buffer := buffer
      bufferEnd := usub32 self.bufferEnd self.bufferPos
      bufferPos := 0 }

/-- The space that `fetch_data` makes before it reads. -/
def makeSpace (self : LogProtoFramedServer) : Option LogProtoFramedServer :=
  let self := if self.bufferPos = self.bufferEnd then
    { self with bufferPos := 0, bufferEnd := 0 } else self
  if self.bufferSize = self.bufferEnd then self.shift else some self

def fetchData (self : LogProtoFramedServer) (transport : LogTransport) (mayRead : Bool) :
    Option (LogProtoStatus × LogProtoFramedServer × LogTransport) :=
  self.makeSpace.bind fun self =>
    if !mayRead then some (.success, self, transport)
    else match logTransportRead transport (usub32 self.bufferSize self.bufferEnd) with
      | (.error, transport) => some (.error, self, transport)
      | (.again, transport) =>
        -- more data is needed to parse this message but it is not available yet
        some (.success, { self with halfMessageInBuffer := true }, transport)
      | (.eof, transport) => some (.eof, self, transport)
      | (.bytes bs, transport) =>
        (store self.buffer self.bufferEnd bs).map fun buffer =>
          (.success,
            { self with buffer := buffer, bufferEnd := (self.bufferEnd + bs.length) % 2 ^ 32 },
            transport)

/-- `isdigit` of the C locale. -/
def isdigit (c : UInt8) : Bool := 48 ≤ c && c ≤ 57

/-- How the scan for the frame header ends. -/
inductive HeaderScan where
  | needMoreData
  | found (bufferPos : Nat)
  | invalid
  deriving DecidableEq

/-- The loop of `extract_frame_length` over the `n` bytes from `i` on, with the value of
`frame_len` so far. -/
def scanHeader (buffer : List UInt8) (bufferPos : Nat) :
    (n i frameLen : Nat) → Option (HeaderScan × Nat)
  | 0, _, frameLen => some (.needMoreData, frameLen)
  | n + 1, i, frameLen =>
    buffer[i]?.bind fun c =>
      if isdigit c && usub32 i bufferPos < 10 then
        scanHeader buffer bufferPos n (i + 1) ((frameLen * 10 + (c.toNat - 48)) % 2 ^ 32)
      else if c = 32 then some (.found (i + 1), frameLen)
      else some (.invalid, frameLen)

def extractFrameLength (self : LogProtoFramedServer) : Option (HeaderScan × LogProtoFramedServer) :=
  (scanHeader self.buffer self.bufferPos (self.bufferEnd - self.bufferPos) self.bufferPos 0).map
    fun
    | (.found bufferPos, frameLen) =>
      (.found bufferPos, { self with frameLen := frameLen, bufferPos := bufferPos })
    | (scan, frameLen) => (scan, { self with frameLen := frameLen })

/-- How the part of `fetch` at the label `read_frame` ends. With a complete header, `tryRead`
says whether `read_message` may still read. -/
inductive HeaderResult where
  | done (status : LogProtoStatus)
  | header (tryRead : Bool)
  deriving DecidableEq

def HeaderResult.isHeader : HeaderResult → Bool
  | .header _ => true
  | .done _ => false

/-- The label `read_frame`. -/
def readFrame (self : LogProtoFramedServer) (transport : LogTransport) (mayRead : Bool) :
    Option (HeaderResult × LogProtoFramedServer × LogTransport) :=
  self.extractFrameLength.bind fun
  | (.invalid, self) => some (.done .error, self, transport)
  | (.found _, self) => some (.header true, self, transport)
  | (.needMoreData, self) =>
    (self.fetchData transport mayRead).bind fun
    | (.success, self, transport) =>
      self.extractFrameLength.map fun
      | (.invalid, self) => (.done .error, self, transport)
      | (.found _, self) => (.header false, self, transport)
      | (.needMoreData, self) => (.done .success, self, transport)
    | (status, self, transport) => some (.done status, self, transport)

/-- The size the buffer is resized to for a frame of `frameLen` bytes. -/
def grownSize (options : LogProtoServerOptions) (frameLen : Nat) : Nat :=
  let bufferSize := 16 * ((frameLen + lpfsFrameBuffer) % 2 ^ 32) % 2 ^ 32
  if bufferSize > options.maxBufferSize then options.maxBufferSize else bufferSize

/-- The condition of the resize: the frame would not fit behind its header, and the buffer is
not yet as large as it may become. -/
def Resizes (options : LogProtoServerOptions) (self : LogProtoFramedServer) : Prop :=
  self.bufferSize < options.maxBufferSize ∧
    self.frameLen > usub32 self.bufferSize self.bufferPos

instance (options : LogProtoServerOptions) (self : LogProtoFramedServer) :
    Decidable (self.Resizes options) :=
  inferInstanceAs (Decidable (_ ∧ _))

/-- Grow the buffer, up to `max_buffer_size`. -/
def resize (options : LogProtoServerOptions) (junk : UInt8) (self : LogProtoFramedServer) :
    LogProtoFramedServer :=
  if self.Resizes options then
    { self with
      bufferSize := grownSize options self.frameLen
      buffer := realloc junk self.buffer (grownSize options self.frameLen) }
  else self

/-- The room for the message once its header is read. -/
def makeRoom (options : LogProtoServerOptions) (junk : UInt8) (self : LogProtoFramedServer) :
    Option LogProtoFramedServer :=
  let self := self.resize options junk
  if (self.bufferPos + self.frameLen) % 2 ^ 32 > self.bufferSize then self.shift else some self

/-- The check at the label `read_message`: the complete message, if the buffer has it. The outer
`none` is a message that leaves the block. -/
def takeMessage (self : LogProtoFramedServer) :
    Option (Option (List UInt8) × LogProtoFramedServer) :=
  if usub32 self.bufferEnd self.bufferPos ≥ self.frameLen then
    if self.bufferPos + self.frameLen ≤ self.buffer.length then
      some (some (window self.buffer self.bufferPos (self.bufferPos + self.frameLen)),
        { self with
          bufferPos := (self.bufferPos + self.frameLen) % 2 ^ 32
          state := .frameRead
          halfMessageInBuffer := false })
    else none
  else some (none, self)

/-- What `fetch` returns: the status, the message if there is one, and the new state. -/
abbrev FetchResult :=
  LogProtoStatus × Option (List UInt8) × LogProtoFramedServer × LogTransport

/-- The label `read_message`. -/
def readMessage (self : LogProtoFramedServer) (transport : LogTransport) (mayRead tryRead : Bool) :
    Option FetchResult :=
  self.takeMessage.bind fun
  | (some msg, self) => some (.success, some msg, self, transport)
  | (none, self) =>
    if tryRead then
      (self.fetchData transport mayRead).bind fun
      | (.success, self, transport) =>
        self.takeMessage.map fun (msg, self) => (.success, msg, self, transport)
      | (status, self, transport) => some (status, none, self, transport)
    else some (.success, none, self, transport)

/-- The buffer is allocated by the first `fetch`. -/
def allocate (options : LogProtoServerOptions) (junk : UInt8) (self : LogProtoFramedServer) :
    LogProtoFramedServer :=
  if self.buffer.isEmpty then
    { self with
      bufferSize := options.initBufferSize
      buffer := List.replicate options.initBufferSize junk }
  else self

/-- `log_proto_framed_server_fetch`. -/
def fetch (options : LogProtoServerOptions) (junk : UInt8) (self : LogProtoFramedServer)
    (transport : LogTransport) (mayRead : Bool) : Option FetchResult :=
  let self := self.allocate options junk
  match self.state with
  | .frameRead =>
    (self.readFrame transport mayRead).bind fun
    | (.done status, self, transport) => some (status, none, self, transport)
    | (.header tryRead, self, transport) =>
      let self := { self with state := .messageRead }
      if self.frameLen > options.maxMsgSize then some (.error, none, self, transport)
      else (self.makeRoom options junk).bind fun self =>
        self.readMessage transport mayRead tryRead
  | .messageRead => self.readMessage transport mayRead true

end LogProtoFramedServer

end SyslogNg.LogProto
