import Mathlib.Tactic

/-!
# Transports and status codes (`lib/logproto.h`, `lib/logproto-server.h`, `lib/logtransport.h`)

What a peer does is a script of transport events: data becomes readable, a read finds nothing
(`EAGAIN`), a read fails. After the script the connection is closed and every read returns 0.
A read takes at most as many bytes of the first chunk as it asked for; the rest of the chunk
stays for the next read. A read of no bytes at all returns 0, which the callers take for the
end of the file.
-/

namespace SyslogNg.LogProto

open List

inductive LogProtoStatus where
  | success
  | error
  | eof
  deriving DecidableEq

/-- The buffer limits of `LogProtoServerOptions`. -/
structure LogProtoServerOptions where
  maxMsgSize : Nat
  maxBufferSize : Nat
  initBufferSize : Nat

inductive TransportEvent where
  | data (b : UInt8) (bs : List UInt8)
  | again
  | fail
  deriving DecidableEq

/-- What `log_transport_read` returns: `rc > 0`, `rc == 0`, `EAGAIN` or another error. -/
inductive ReadResult where
  | bytes (bs : List UInt8)
  | eof
  | again
  | error
  deriving DecidableEq

abbrev LogTransport := List TransportEvent

/-- `log_transport_read` with room for `count` bytes. -/
def logTransportRead (transport : LogTransport) (count : Nat) : ReadResult × LogTransport :=
  match count, transport with
  | 0, transport => (.eof, transport)
  | _ + 1, [] => (.eof, [])
  | _ + 1, .again :: rest => (.again, rest)
  | _ + 1, .fail :: rest => (.error, rest)
  | n + 1, .data b bs :: rest =>
    match bs.drop n with
    | [] => (.bytes (b :: bs), rest)
    | c :: cs => (.bytes (b :: bs.take n), .data c cs :: rest)

/-- The bytes the script has still to deliver. -/
def streamOf : LogTransport → List UInt8
  | [] => []
  | .data b bs :: rest => b :: bs ++ streamOf rest
  | _ :: rest => streamOf rest

theorem logTransportRead_stream {t rest : LogTransport} {n : Nat} {r : List UInt8}
    (h : logTransportRead t n = (.bytes r, rest)) : streamOf t = r ++ streamOf rest := by
  cases n with
  | zero => cases h
  | succ n =>
    cases t with
    | nil => cases h
    | cons e t =>
      cases e with
      | again => cases h
      | fail => cases h
      | data b bs =>
        rw [logTransportRead] at h
        cases hdrop : bs.drop n with
        | nil =>
          rw [hdrop] at h
          cases h
          rfl
        | cons c cs =>
          rw [hdrop] at h
          cases h
          show b :: bs ++ streamOf t = (b :: bs.take n) ++ (c :: cs ++ streamOf t)
          have hbs : bs = bs.take n ++ c :: cs := by rw [← hdrop, take_append_drop]
          conv_lhs => rw [hbs]
          rw [cons_append, cons_append, append_assoc, cons_append]

/-- The reads of `transport` are a split of `stream`: no read fails, and the chunks make up
`stream`. -/
structure Splits (transport : LogTransport) (stream : List UInt8) : Prop where
  noFail : .fail ∉ transport
  stream : streamOf transport = stream

/-- The reads left: every read that is not at the end of the file makes it smaller. -/
def readsLeft (transport : LogTransport) : Nat :=
  transport.length + (streamOf transport).length

inductive ReadStep (count : Nat) (stream : List UInt8) (transport : LogTransport) :
    ReadResult → LogTransport → Prop where
  | eof : stream = [] → transport = [] → ReadStep count stream transport .eof []
  | again {rest : LogTransport} : Splits rest stream → readsLeft rest < readsLeft transport →
      ReadStep count stream transport .again rest
  | bytes {bs stream' : List UInt8} {rest : LogTransport} : bs ≠ [] → bs.length ≤ count →
      stream = bs ++ stream' → Splits rest stream' → readsLeft rest < readsLeft transport →
      ReadStep count stream transport (.bytes bs) rest

theorem logTransportRead_step {transport : LogTransport} {stream : List UInt8} {count : Nat}
    (h : Splits transport stream) (hc : 0 < count) :
    ReadStep count stream transport (logTransportRead transport count).1
      (logTransportRead transport count).2 := by
  obtain ⟨hfail, rfl⟩ := h
  obtain ⟨n, rfl⟩ : ∃ n, count = n + 1 := ⟨count - 1, by omega⟩
  cases transport with
  | nil => exact .eof rfl rfl
  | cons e rest =>
    have hrest : .fail ∉ rest := fun h => hfail (mem_cons_of_mem _ h)
    cases e with
    | fail => exact absurd mem_cons_self hfail
    | again =>
      show ReadStep _ _ _ .again rest
      exact .again ⟨hrest, rfl⟩ (by simp [readsLeft, streamOf])
    | data b bs =>
      unfold logTransportRead
      rcases hd : bs.drop n with _ | ⟨c, cs⟩
      · have hn : bs.length ≤ n := drop_eq_nil_iff.1 hd
        simp only [hd]
        refine .bytes (by simp) (by simpa using hn) (by simp [streamOf]) ⟨hrest, rfl⟩ ?_
        simp [readsLeft, streamOf]
        omega
      · have hb : bs = bs.take n ++ c :: cs := by rw [← hd, take_append_drop]
        have hsplit : streamOf (.data b bs :: rest) =
            (b :: bs.take n) ++ (c :: cs ++ streamOf rest) := by
          conv_lhs => rw [streamOf, hb]
          simp
        simp only [hd]
        refine .bytes (by simp) (by simp) hsplit ⟨by simpa using hrest, rfl⟩ ?_
        have hl := congrArg List.length hb
        simp at hl
        simp [readsLeft, streamOf]
        omega

/-! ## Writes -/

/-- What the transport does with a write: it takes at most `n` bytes, it takes none (`EAGAIN`,
`EINTR`), or it fails. -/
inductive WriteEvent where
  | accept (n : Nat)
  | again
  | fail
  deriving DecidableEq

/-- The writes to come, and the bytes taken so far. Behind the script nothing is taken. -/
structure WriteTransport where
  script : List WriteEvent
  wire : List UInt8
  deriving DecidableEq

/-- What `log_transport_write` returns. -/
inductive WriteResult where
  | wrote (rc : Nat)
  | again
  | error

def logTransportWrite (transport : WriteTransport) (bs : List UInt8) :
    WriteResult × WriteTransport :=
  match transport.script with
  | [] => (.again, transport)
  | .accept n :: rest => (.wrote (bs.take n).length, ⟨rest, transport.wire ++ bs.take n⟩)
  | .again :: rest => (.again, ⟨rest, transport.wire⟩)
  | .fail :: rest => (.error, ⟨rest, transport.wire⟩)

end SyslogNg.LogProto
