import SyslogNg.LogProto.Transport
import SyslogNg.Lib.CInt
import SyslogNg.Lib.Run

/-!
# The file writer (`modules/affile/logproto-file-writer.c`)

`log_proto_file_writer_post` collects messages in an array of vectors that is written when it is
full, or by `log_proto_file_writer_flush`. What `writev` does not take is copied to `partial` and
written by later calls of `log_proto_file_writer_post`.

The file and the vectors make up the messages consumed so far, in order (`FileInv.bytes`). A flush
does not look at `partial`. `fsync` and `lseek` do not change what is written, and are left out.
-/

namespace SyslogNg.LogProto

open Lib List Option
open List (flatten_append flatten_cons flatten_nil length_append length_drop length_nil)

/-- `buffer` are the first `buf_count` vectors; `sum_len` is a `gint`. -/
structure LogProtoFileWriter where
  partialBuf : Option (List UInt8)
  partialLen : Nat
  partialPos : Nat
  bufSize : Nat
  sumLen : Int
  buffer : List (List UInt8)
  deriving DecidableEq

/-- `log_proto_file_writer_new`; `iovMax` is the `IOV_MAX` of the platform. -/
def logProtoFileWriterNew (flushLines iovMax : Nat) : LogProtoFileWriter where
  partialBuf := none
  partialLen := 0
  partialPos := 0
  bufSize := min (if flushLines = 0 then 1 else flushLines) iovMax
  sumLen := 0
  buffer := []

/-- The writer and the file. `consumed` are the messages that were taken over, and `moments` what
was in the file after each write, with the messages consumed until then. -/
structure FileWorld where
  self : LogProtoFileWriter
  transport : WriteTransport
  consumed : List (List UInt8)
  moments : List (List UInt8 × List (List UInt8))
  deriving DecidableEq

namespace FileWorld

/-- `write` and `writev`. -/
def write (w : FileWorld) (bs : List UInt8) : WriteResult × FileWorld :=
  let r := logTransportWrite w.transport bs
  (r.1, { w with transport := r.2, moments := w.moments ++ [(r.2.wire, w.consumed)] })

/-- The loop that looks for the first vector that has been cut: `i` and `sum` at its end. It is
`none` behind the last vector. -/
def findCut (rc : Int) : Nat → Int → List (List UInt8) → Option (Nat × Int)
  | i, sum, rest =>
    if rc > sum then
      match rest with
      | [] => none
      | vec :: rest => findCut rc (i + 1) (wrap32 (sum + vec.length)) rest
    else some (i, sum)

/-- The remaining data after a `writev` of `rc` bytes: the rest of the vector that has been cut,
and those behind it. -/
def remaining (buffer : List (List UInt8)) (rc : Int) : Option (List UInt8) :=
  match buffer with
  | [] => none
  | first :: rest => (findCut rc 0 (wrap32 first.length) rest).bind fun (i0, sum) =>
    (buffer[i0]?).bind fun vec =>
      let ofs := wrap32 (sum - rc)
      let pos := wrap32 (vec.length - ofs)
      if 0 ≤ ofs ∧ 0 ≤ pos then
        some ((vec.drop pos.toNat).take ofs.toNat ++ (buffer.drop (i0 + 1)).flatten)
      else none

/-- `log_proto_file_writer_flush`. -/
def flush (w : FileWorld) : Option (LogProtoStatus × FileWorld) :=
  if w.self.buffer = [] then some (.success, w)
  else
    match w.write w.self.buffer.flatten with
    | (.error, w) => some (.error, w)
    | (.again, w) => some (.success, w)
    | (.wrote rc, w) =>
      -- a system call does not transfer more than this
      if 2 ^ 31 ≤ rc then none
      else if (rc : Int) ≠ w.self.sumLen then
        (remaining w.self.buffer rc).map fun bs =>
          (.success, { w with self := { w.self with
            partialBuf := some bs, partialLen := bs.length, partialPos := 0
            buffer := [], sumLen := 0 } })
      else some (.success, { w with self := { w.self with buffer := [], sumLen := 0 } })

/-- The write of `partial`. -/
def writePartial (w : FileWorld) (buf : List UInt8) : Option (LogProtoStatus × FileWorld) :=
  let len := w.self.partialLen - w.self.partialPos
  if 2 ^ 31 ≤ len then none
  else
    match w.write ((buf.drop w.self.partialPos).take len) with
    | (.error, w) => some (.error, w)
    | (.again, w) => some (.success, w)
    | (.wrote rc, w) =>
      if rc ≠ len then
        some (.success, { w with self := { w.self with partialPos := w.self.partialPos + rc } })
      else some (.success, { w with self := { w.self with partialBuf := none } })

/-- The new message is registered, and consumed. -/
def register (w : FileWorld) (msg : List UInt8) : FileWorld :=
  { w with
    self := { w.self with
      buffer := w.self.buffer ++ [msg]
      sumLen := wrap32 (w.self.sumLen + msg.length) }
    consumed := w.consumed ++ [msg] }

/-- `log_proto_file_writer_post` behind its first test. -/
def postRoom (w : FileWorld) (msg : List UInt8) : Option (LogProtoStatus × FileWorld) :=
  match w.self.partialBuf with
  | some buf => w.writePartial buf
  | none =>
    let w := w.register msg
    if w.self.buffer.length = w.self.bufSize then w.flush else some (.success, w)

/-- `log_proto_file_writer_post`. -/
def post (w : FileWorld) (msg : List UInt8) : Option (LogProtoStatus × FileWorld) :=
  if w.self.buffer.length ≥ w.self.bufSize then
    w.flush.bind fun (status, w) =>
      if status ≠ .success ∨ w.self.buffer.length ≥ w.self.bufSize then some (status, w)
      else w.postRoom msg
  else w.postRoom msg

end FileWorld

inductive FileOp where
  | post (msg : List UInt8)
  | flush

def fileStep (w : FileWorld) : FileOp → Option FileWorld
  | .post msg => (w.post msg).map Prod.snd
  | .flush => w.flush.map Prod.snd

/-- What is consumed and not written. -/
def LogProtoFileWriter.pending (self : LogProtoFileWriter) : List UInt8 :=
  (self.partialBuf.map fun buf => buf.drop self.partialPos).getD [] ++ self.buffer.flatten

/-- The messages that are buffered at a time have a sum that a `gint` holds. -/
def FileFits (w : FileWorld) : FileOp → Prop
  | .post msg => w.self.buffer.flatten.length + msg.length < 2 ^ 31
  | .flush => True

def FileNext (w : FileWorld) (op : FileOp) (w' : FileWorld) : Prop :=
  FileFits w op ∧ fileStep w op = some w'

/-- A new writer, with the writes that will happen. -/
def fileStart (flushLines iovMax : Nat) (script : List WriteEvent) : FileWorld where
  self := logProtoFileWriterNew flushLines iovMax
  transport := ⟨script, []⟩
  consumed := []
  moments := []

/-! ## The invariant -/

structure FileInv (w : FileWorld) : Prop where
  bytes : w.transport.wire ++ w.self.pending = w.consumed.flatten
  /-- Nothing is collected as long as there is something left of the last write. -/
  partialBuf : ∀ buf, w.self.partialBuf = some buf → w.self.partialLen = buf.length ∧
    w.self.partialPos < buf.length ∧ buf.length < 2 ^ 31 ∧ w.self.buffer = []
  sumLen : w.self.sumLen = w.self.buffer.flatten.length
  sum_lt : w.self.buffer.flatten.length < 2 ^ 31
  moments : ∀ moment ∈ w.moments, moment.1 <+: moment.2.flatten

section

variable {w w' : FileWorld} {status : LogProtoStatus}

/-! ### The vector that has been cut -/

theorem findCut_spec {buffer before rest : List (List UInt8)} {vec : List UInt8} {rc : Nat}
    (hbuf : buffer = before ++ vec :: rest) (hlt : buffer.flatten.length < 2 ^ 31)
    (hlo : before.flatten.length ≤ rc) (hhi : rc ≤ buffer.flatten.length) :
    ∃ before' vec' rest', buffer = before' ++ vec' :: rest' ∧ before'.flatten.length ≤ rc ∧
      rc ≤ before'.flatten.length + vec'.length ∧
      FileWorld.findCut rc before.length ((before.flatten.length + vec.length : Nat) : Int) rest =
        some (before'.length, ((before'.flatten.length + vec'.length : Nat) : Int)) := by
  induction rest generalizing before vec with
  | nil =>
    have hlen := congrArg (fun l => l.flatten.length) hbuf
    simp only [flatten_append, length_append, flatten_cons, flatten_nil, length_nil] at hlen
    refine ⟨before, vec, [], hbuf, hlo, by omega, ?_⟩
    rw [FileWorld.findCut, if_neg (by omega)]
  | cons next rest ih =>
    by_cases hcut : rc ≤ before.flatten.length + vec.length
    · refine ⟨before, vec, next :: rest, hbuf, hlo, hcut, ?_⟩
      rw [FileWorld.findCut, if_neg (by omega)]
    · have hbuf' : buffer = (before ++ [vec]) ++ next :: rest := by rw [hbuf]; simp
      have hlen := congrArg (fun l => l.flatten.length) hbuf'
      simp only [flatten_append, length_append, flatten_cons, flatten_nil, length_nil] at hlen
      have hpassed : (before ++ [vec]).flatten.length ≤ rc := by
        rw [flatten_append, flatten_singleton, length_append]
        omega
      obtain ⟨before', vec', rest', heq, h1, h2, hfind⟩ := ih hbuf' hpassed
      refine ⟨before', vec', rest', heq, h1, h2, ?_⟩
      rw [FileWorld.findCut, if_pos (by omega), ← hfind]
      simp only [flatten_append, length_append, flatten_cons, flatten_nil,
        append_nil, length_singleton]
      rw [wrap32_eq_self (by omega)]
      norm_cast

theorem remaining_eq {buffer : List (List UInt8)} {rc : Nat} (hne : buffer ≠ [])
    (hlt : buffer.flatten.length < 2 ^ 31) (hrc : rc ≤ buffer.flatten.length) :
    FileWorld.remaining buffer rc = some (buffer.flatten.drop rc) := by
  cases buffer with
  | nil => exact absurd rfl hne
  | cons first rest =>
    obtain ⟨before, vec, tail, hbuf, hlo, hhi, hfind⟩ :=
      @findCut_spec (first :: rest) [] rest first rc rfl hlt (Nat.zero_le _) hrc
    have hlen := congrArg (fun l => l.flatten.length) hbuf
    simp only [flatten_append, length_append, flatten_cons] at hlen hlt
    have hfirst : wrap32 (first.length : Int) = (first.length : Int) := wrap32_eq_self (by omega)
    simp only [flatten_nil, length_nil, Nat.zero_add] at hfind
    unfold FileWorld.remaining
    simp only
    rw [hfirst, hfind, bind_some]
    simp only
    rw [hbuf, getElem?_append_right le_rfl, Nat.sub_self, getElem?_cons_zero,
      bind_some, wrap32_eq_self (by omega), wrap32_eq_self (by omega), if_pos (by omega)]
    have hpos : ((vec.length : Int) - ((before.flatten.length + vec.length : Nat) - rc)).toNat =
        rc - before.flatten.length := by omega
    have hofs : (((before.flatten.length + vec.length : Nat) : Int) - rc).toNat =
        before.flatten.length + vec.length - rc := by omega
    have hdrop : (before ++ vec :: tail).drop (before.length + 1) = tail := by
      rw [← drop_drop, drop_left]
      rfl
    have hvec : (before.flatten ++ (vec ++ tail.flatten)).drop rc =
        vec.drop (rc - before.flatten.length) ++ tail.flatten := by
      rw [drop_append, drop_of_length_le hlo, nil_append,
        drop_append_of_le_length (by omega)]
    rw [hpos, hofs, take_of_length_le (by rw [length_drop]; omega), hdrop,
      flatten_append, flatten_cons, hvec]

/-! ### Writes -/

theorem write_cases (w : FileWorld) (bs : List UInt8) : ∃ r w1, w.write bs = (r, w1) ∧
    w1.self = w.self ∧ w1.consumed = w.consumed ∧
    w1.moments = w.moments ++ [(w1.transport.wire, w.consumed)] ∧
    ((r = .error ∨ r = .again) ∧ w1.transport.wire = w.transport.wire ∨
      ∃ rc ≤ bs.length, r = .wrote rc ∧ w1.transport.wire = w.transport.wire ++ bs.take rc) := by
  refine ⟨_, _, rfl, rfl, rfl, rfl, ?_⟩
  simp only
  unfold logTransportWrite
  split
  · exact .inl ⟨.inr rfl, rfl⟩
  · rename_i n rest hscript
    refine .inr ⟨(bs.take n).length, length_take_le' .., rfl, ?_⟩
    simp only
    rw [length_take, take_eq_take_min]
  · exact .inl ⟨.inr rfl, rfl⟩
  · exact .inl ⟨.inl rfl, rfl⟩

theorem FileInv.idle {w1 : FileWorld} (hi : FileInv w) (hself : w1.self = w.self)
    (hcons : w1.consumed = w.consumed)
    (hmom : w1.moments = w.moments ++ [(w1.transport.wire, w.consumed)])
    (hwire : w1.transport.wire = w.transport.wire) : FileInv w1 where
  bytes := by
    rw [hself, hcons, hwire]
    exact hi.bytes
  partialBuf := by
    rw [hself]
    exact hi.partialBuf
  sumLen := by
    rw [hself]
    exact hi.sumLen
  sum_lt := by
    rw [hself]
    exact hi.sum_lt
  moments := by
    intro moment hm
    rw [hmom, hwire] at hm
    rcases mem_append.1 hm with hm | hm
    · exact hi.moments moment hm
    · rw [mem_singleton.1 hm]
      exact ⟨_, hi.bytes⟩

theorem FileInv.wrote {w1 : FileWorld} {self : LogProtoFileWriter} {bs : List UInt8} {rc : Nat}
    (hi : FileInv w) (hcons : w1.consumed = w.consumed)
    (hmom : w1.moments = w.moments ++ [(w1.transport.wire, w.consumed)])
    (hwire : w1.transport.wire = w.transport.wire ++ bs.take rc)
    (hpending : w.self.pending = bs.take rc ++ self.pending)
    (hkept : ∀ buf, self.partialBuf = some buf → self.partialLen = buf.length ∧
      self.partialPos < buf.length ∧ buf.length < 2 ^ 31 ∧ self.buffer = [])
    (hsum : self.sumLen = self.buffer.flatten.length)
    (hlt : self.buffer.flatten.length < 2 ^ 31) : FileInv { w1 with self := self } := by
  have hbytes : w1.transport.wire ++ self.pending = w.consumed.flatten := by
    rw [hwire, append_assoc, ← hpending]
    exact hi.bytes
  refine ⟨?_, hkept, hsum, hlt, ?_⟩
  · rw [hcons]
    exact hbytes
  · intro moment hm
    rw [hmom] at hm
    rcases mem_append.1 hm with hm | hm
    · exact hi.moments moment hm
    · rw [mem_singleton.1 hm]
      exact ⟨_, hbytes⟩

theorem FileInv.flush (hi : FileInv w) : ∃ status w', w.flush = some (status, w') ∧ FileInv w' ∧
    w'.self.buffer.flatten.length ≤ w.self.buffer.flatten.length ∧
    (w.self.buffer = [] → w' = w) ∧
    (w.self.buffer ≠ [] → ∀ n rest, w.transport.script = .accept n :: rest →
      w.self.buffer.flatten.length ≤ n → w'.self.pending = []) := by
  unfold FileWorld.flush
  by_cases hempty : w.self.buffer = []
  · rw [if_pos hempty]
    exact ⟨_, _, rfl, hi, le_rfl, fun _ => rfl, fun hne => absurd hempty hne⟩
  rw [if_neg hempty]
  have hnone : w.self.partialBuf = none := by
    cases hp : w.self.partialBuf with
    | none => rfl
    | some buf => exact absurd (hi.partialBuf buf hp).2.2.2 hempty
  have hpending : w.self.pending = w.self.buffer.flatten := by
    unfold LogProtoFileWriter.pending
    rw [hnone]
    rfl
  have haccept : ∀ n rest, w.transport.script = .accept n :: rest →
      w.self.buffer.flatten.length ≤ n →
      (w.write w.self.buffer.flatten).1 = .wrote w.self.buffer.flatten.length := by
    intro n rest hscript hn
    unfold FileWorld.write logTransportWrite
    rw [hscript]
    simp only [length_take, Nat.min_eq_right hn]
  obtain ⟨r, w1, hw, hself, hcons, hmom, hcase⟩ := write_cases w w.self.buffer.flatten
  rw [hw] at haccept ⊢
  rcases hcase with ⟨hr, hwire⟩ | ⟨rc, hrc, rfl, hwire⟩
  · have hi1 := hi.idle hself hcons hmom hwire
    have hnot : w.self.buffer ≠ [] → ∀ n rest, w.transport.script = .accept n :: rest →
        w.self.buffer.flatten.length ≤ n → w1.self.pending = [] := by
      intro _ n rest hscript hn
      have hcontra := haccept n rest hscript hn
      rcases hr with rfl | rfl
      · cases hcontra
      · cases hcontra
    rcases hr with rfl | rfl
    · exact ⟨_, _, rfl, hi1, by rw [hself], fun h => absurd h hempty, hnot⟩
    · exact ⟨_, _, rfl, hi1, by rw [hself], fun h => absurd h hempty, hnot⟩
  · have hsum := hi.sum_lt
    simp only
    rw [if_neg (by omega), hself]
    by_cases hall : (rc : Int) ≠ w.self.sumLen
    · rw [if_pos hall, remaining_eq hempty hsum hrc, map_some]
      rw [hi.sumLen] at hall
      refine ⟨_, _, rfl, ?_, Nat.zero_le _, fun h => absurd h hempty, ?_⟩
      · refine hi.wrote hcons hmom hwire ?_ ?_ rfl (by simp)
        · rw [hpending]
          simp [LogProtoFileWriter.pending]
        · intro buf hbuf
          cases hbuf
          refine ⟨rfl, ?_, ?_, rfl⟩
          · simp only [length_drop]
            omega
          · rw [length_drop]
            omega
      · intro _ n rest hscript hn
        have hrc' := haccept n rest hscript hn
        cases hrc'
        exact absurd rfl hall
    · rw [if_neg hall]
      rw [hi.sumLen, ne_eq, not_not] at hall
      have hrc' : rc = w.self.buffer.flatten.length := by exact_mod_cast hall
      refine ⟨_, _, rfl, ?_, Nat.zero_le _, fun h => absurd h hempty, fun _ _ _ _ _ => ?_⟩
      · refine hi.wrote hcons hmom hwire ?_ ?_ rfl (by simp)
        · rw [hpending, hrc', take_length]
          simp [LogProtoFileWriter.pending, hnone]
        · intro buf hbuf
          simp only [hnone] at hbuf
          cases hbuf
      · simp [LogProtoFileWriter.pending, hnone]

theorem FileInv.writePartial {buf : List UInt8} (hi : FileInv w)
    (hbuf : w.self.partialBuf = some buf) :
    ∃ status w', w.writePartial buf = some (status, w') ∧ FileInv w' := by
  obtain ⟨hlen, hpos, hlt, hempty⟩ := hi.partialBuf buf hbuf
  have hpending : w.self.pending = buf.drop w.self.partialPos := by
    unfold LogProtoFileWriter.pending
    rw [hbuf, hempty]
    simp
  have hdata : (buf.drop w.self.partialPos).take (w.self.partialLen - w.self.partialPos) =
      buf.drop w.self.partialPos :=
    take_of_length_le (by rw [length_drop, hlen])
  unfold FileWorld.writePartial
  simp only
  rw [if_neg (by omega), hdata]
  obtain ⟨r, w1, hw, hself, hcons, hmom, hcase⟩ := write_cases w (buf.drop w.self.partialPos)
  rw [hw]
  rcases hcase with ⟨hr, hwire⟩ | ⟨rc, hrc, rfl, hwire⟩
  · have hi1 := hi.idle hself hcons hmom hwire
    rcases hr with rfl | rfl
    · exact ⟨_, _, rfl, hi1⟩
    · exact ⟨_, _, rfl, hi1⟩
  · rw [length_drop] at hrc
    have hrest : buf.drop w.self.partialPos =
        (buf.drop w.self.partialPos).take rc ++ buf.drop (w.self.partialPos + rc) := by
      rw [← drop_drop, take_append_drop]
    simp only
    rw [hself]
    by_cases hall : rc = w.self.partialLen - w.self.partialPos
    · rw [if_neg (by omega)]
      refine ⟨_, _, rfl, hi.wrote hcons hmom hwire ?_ ?_ hi.sumLen hi.sum_lt⟩
      · rw [hpending, hrest]
        have hnil : buf.drop (w.self.partialPos + rc) = [] := drop_of_length_le (by omega)
        simp [LogProtoFileWriter.pending, hempty, hnil]
      · intro buf' hbuf'
        cases hbuf'
    · rw [if_pos hall]
      refine ⟨_, _, rfl, hi.wrote hcons hmom hwire ?_ ?_ hi.sumLen hi.sum_lt⟩
      · rw [hpending]
        conv_lhs => rw [hrest]
        simp [LogProtoFileWriter.pending, hempty, hbuf]
      · intro buf' hbuf'
        simp only at hbuf'
        rw [hbuf, some_inj] at hbuf'
        subst hbuf'
        exact ⟨hlen, by show w.self.partialPos + rc < buf.length; omega, hlt, hempty⟩

theorem FileInv.register {msg : List UInt8} (hi : FileInv w) (hnone : w.self.partialBuf = none)
    (hfit : w.self.buffer.flatten.length + msg.length < 2 ^ 31) : FileInv (w.register msg) := by
  have hsum := hi.sumLen
  constructor
  · show w.transport.wire ++ LogProtoFileWriter.pending _ = (w.consumed ++ [msg]).flatten
    rw [flatten_append, ← hi.bytes]
    simp [LogProtoFileWriter.pending, hnone, FileWorld.register]
  · intro buf hbuf
    have hcontra : w.self.partialBuf = some buf := hbuf
    rw [hnone] at hcontra
    cases hcontra
  · show wrap32 (w.self.sumLen + msg.length) = ((w.self.buffer ++ [msg]).flatten.length : Int)
    rw [hsum, wrap32_eq_self (by omega)]
    simp
  · show (w.self.buffer ++ [msg]).flatten.length < 2 ^ 31
    rw [flatten_append, length_append, flatten_singleton]
    exact hfit
  · exact hi.moments

theorem FileInv.postRoom {msg : List UInt8} (hi : FileInv w)
    (hfit : w.self.buffer.flatten.length + msg.length < 2 ^ 31) :
    ∃ status w', w.postRoom msg = some (status, w') ∧ FileInv w' := by
  unfold FileWorld.postRoom
  cases hbuf : w.self.partialBuf with
  | some buf => exact hi.writePartial hbuf
  | none =>
    have hi1 := hi.register hbuf hfit
    simp only
    split
    · obtain ⟨status, w', hflush, hi', -⟩ := hi1.flush
      exact ⟨status, w', hflush, hi'⟩
    · exact ⟨_, _, rfl, hi1⟩

theorem FileInv.post {msg : List UInt8} (hi : FileInv w)
    (hfit : w.self.buffer.flatten.length + msg.length < 2 ^ 31) :
    ∃ status w', w.post msg = some (status, w') ∧ FileInv w' := by
  unfold FileWorld.post
  split
  swap
  · exact hi.postRoom hfit
  obtain ⟨status, w1, hflush, hi1, hless, -⟩ := hi.flush
  rw [hflush, bind_some]
  simp only
  split
  · exact ⟨_, _, rfl, hi1⟩
  · exact hi1.postRoom (by omega)

/-! ### Runs -/

theorem FileInv.start (flushLines iovMax : Nat) (script : List WriteEvent) :
    FileInv (fileStart flushLines iovMax script) where
  bytes := rfl
  partialBuf := by
    intro buf hbuf
    cases hbuf
  sumLen := rfl
  sum_lt := Nat.two_pow_pos 31
  moments := by
    intro moment hm
    cases hm

theorem FileInv.step {op : FileOp} (hi : FileInv w) (hs : FileNext w op w') : FileInv w' := by
  obtain ⟨hfit, hs⟩ := hs
  cases op with
  | post msg =>
    obtain ⟨status, w1, hpost, hi1⟩ := hi.post hfit
    rw [fileStep, hpost] at hs
    cases hs
    exact hi1
  | flush =>
    obtain ⟨status, w1, hflush, hi1, -⟩ := hi.flush
    rw [fileStep, hflush] at hs
    cases hs
    exact hi1

end

/-- **The file writer writes a faithful stream.** In every run in which the messages that are
buffered at a time fit into a `gint`, the file has been, after every write, a prefix of the messages
consumed; and a flush that the file takes as a whole leaves nothing behind if and only if nothing
was left of an earlier write. -/
theorem log_proto_file_writer_faithful {flushLines iovMax : Nat} {script : List WriteEvent}
    {ops : List FileOp} {w : FileWorld}
    (hrun : Run FileNext (fileStart flushLines iovMax script) ops w) :
    w.transport.wire <+: w.consumed.flatten ∧
    (∀ moment ∈ w.moments, moment.1 <+: moment.2.flatten) ∧
    ∃ status w', w.flush = some (status, w') ∧
      ∀ n rest, w.transport.script = .accept n :: rest → w.self.pending.length ≤ n →
        (w'.self.pending = [] ↔ w.self.partialBuf = none) := by
  have hi : FileInv w :=
    hrun.invariant (fun _ _ _ hs hi => FileInv.step hi hs) (FileInv.start _ _ _)
  refine ⟨⟨_, hi.bytes⟩, hi.moments, ?_⟩
  obtain ⟨status, w', hflush, hi', -, hsame, hall⟩ := hi.flush
  refine ⟨status, w', hflush, fun n rest hscript hn => ?_⟩
  cases hbuf : w.self.partialBuf with
  | none =>
    refine ⟨fun _ => rfl, fun _ => ?_⟩
    by_cases hempty : w.self.buffer = []
    · rw [hsame hempty]
      simp [LogProtoFileWriter.pending, hbuf, hempty]
    · refine hall hempty n rest hscript (le_trans ?_ hn)
      simp [LogProtoFileWriter.pending]
  | some buf =>
    obtain ⟨-, hpos, -, hempty⟩ := hi.partialBuf buf hbuf
    rw [hsame hempty]
    refine ⟨fun hnil => ?_, fun hcontra => by cases hcontra⟩
    have hlen := congrArg length hnil
    simp only [LogProtoFileWriter.pending, hbuf, hempty, map_some, getD_some,
      flatten_nil, append_nil, length_drop, length_nil] at hlen
    omega

/-- Two messages in one `writev`. -/
theorem log_proto_file_writer_faithful_two : ∃ w,
    Run FileNext (fileStart 2 1024 [.accept 9]) [.post [97, 98], .post [99]] w ∧
    w.transport.wire = [97, 98, 99] ∧ w.transport.wire <+: w.consumed.flatten := by
  obtain ⟨w1, h1, hbuf1⟩ := map_eq_some_iff.1 (show (fileStep (fileStart 2 1024 [.accept 9])
    (.post [97, 98])).map (·.self.buffer) = some [[97, 98]] by decide +kernel)
  obtain ⟨w2, h2, hwire⟩ := map_eq_some_iff.1 (show ((fileStep
    (fileStart 2 1024 [.accept 9]) (.post [97, 98])).bind (fileStep · (.post [99]))).map
      (·.transport.wire) = some [97, 98, 99] by decide +kernel)
  rw [h1, bind_some] at h2
  have hrun : Run FileNext (fileStart 2 1024 [.accept 9]) [.post [97, 98], .post [99]] w2 := by
    refine .step ⟨by show _ < _; decide, h1⟩ (.single ⟨?_, h2⟩)
    show w1.self.buffer.flatten.length + 1 < 2 ^ 31
    rw [hbuf1]
    decide
  exact ⟨w2, hrun, hwire, (log_proto_file_writer_faithful hrun).1⟩

/-- One byte of a message is written, and a flush does not try to write the other one. -/
theorem log_proto_file_writer_flush_forgets : ∃ w w',
    exec fileStep (fileStart 1 1024 [.accept 1, .accept 9]) [.post [97, 98]] = some w ∧
    w.flush = some (.success, w') ∧ w'.transport.script = [.accept 9] ∧ w'.consumed = [[97, 98]] ∧
    w'.transport.wire = [97] ∧ w'.self.pending = [98] := by
  obtain ⟨w, hw, hflush⟩ := bind_eq_some_iff.1 (show (exec fileStep
    (fileStart 1 1024 [.accept 1, .accept 9]) [.post [97, 98]]).bind (fun w => w.flush) =
      some (.success, { self := ⟨some [98], 1, 0, 1, 0, []⟩
                        transport := ⟨[.accept 9], [97]⟩
                        consumed := [[97, 98]]
                        moments := [([97], [[97, 98]])] }) by decide +kernel)
  exact ⟨w, _, hw, hflush, rfl, rfl, rfl, rfl⟩

end SyslogNg.LogProto
