import SyslogNg.LogProto.BufferedServer

/-!
# The server of padded records (`lib/logproto-record-server.c`)

A record fills the buffer; the message in it ends at the first NL or NUL.
-/

namespace SyslogNg.LogProto

open Lib

structure LogProtoRecordServer where
  super : LogProtoTextServer
  recordSize : Nat

namespace LogProtoRecordServer

/-- What is in the buffer is taken as a whole. -/
def consume (self : LogProtoRecordServer) : LogProtoRecordServer :=
  { self with super := { self.super with
      state := { self.super.state with pendingBufferPos := self.super.state.pendingBufferEnd } } }

/-- `log_proto_padded_record_server_fetch_from_buf`. -/
def paddedFetchFromBuf (self : LogProtoRecordServer) (addr bufferStart bufferBytes : Nat) :
    Option (List UInt8 × LogProtoRecordServer) :=
  (self.super.bytesAt bufferStart bufferBytes).map fun bs =>
    let msgLen := (findEom (addr + bufferStart) bs).getD bufferBytes
    (bs.take msgLen, self.consume)

variable {self : LogProtoRecordServer}

theorem bytesAt_length {s : LogProtoTextServer} {start n : Nat} {bs : List UInt8}
    (h : s.bytesAt start n = some bs) : bs.length = n := by
  unfold LogProtoTextServer.bytesAt at h
  split at h
  · cases h
    rw [window_length]
    omega
  · cases h

/-- **A padded record is read up to its first NL or NUL.** -/
theorem paddedFetchFromBuf_eq {addr bufferStart bufferBytes : Nat} {bs : List UInt8}
    (h : self.super.bytesAt bufferStart bufferBytes = some bs) :
    self.paddedFetchFromBuf addr bufferStart bufferBytes =
      some (bs.takeWhile fun c => !isEom c, self.consume) := by
  have hlen := bytesAt_length h
  unfold paddedFetchFromBuf
  rw [h, Option.map_some, findEom_eq_findIdx?]
  simp only [Option.some.injEq, Prod.mk.injEq, and_true]
  rw [← hlen]
  clear h hlen
  induction bs with
  | nil => rfl
  | cons c bs ih =>
    rw [List.findIdx?_cons, List.takeWhile_cons]
    cases isEom c with
    | true => rfl
    | false =>
      cases hfind : bs.findIdx? isEom with
      | none =>
        rw [hfind] at ih
        simpa using ih
      | some i =>
        rw [hfind] at ih
        simpa using ih

end LogProtoRecordServer

end SyslogNg.LogProto
