import SyslogNg.LogProto.FramedTold
import SyslogNg.LogProto.TextTold
import SyslogNg.LogReader.Awake

/-!
# Readers over the text server and the framed server

`reader_stays_awake`: the invariant of the reader, at the two protocol servers. The owner of a reader
over a framed server closes the connection after an error; a file source keeps its reader.
-/

namespace SyslogNg.LogReader

open Lib LogProto

/-- `rawSize` is the size of the unfinished line in the file. -/
def textServer (options : LogProtoServerOptions) (junk : UInt8) (addr : Nat)
    (rawSize : List UInt8 → Nat) (outlivesError : Bool) : ProtoServer ConvertingServer TextEnv where
  fetch self mayRead env := self.fetch options junk addr rawSize mayRead env
  queued := ConvertingServer.queued
  resetError := ConvertingServer.resetError
  prepare := ConvertingServer.prepare
  isPreemptable := ConvertingServer.isPreemptable
  HoldsMessage := ConvertingServer.HoldsMessage
  outlivesError := outlivesError

def framedServer (options : LogProtoServerOptions) (junk : UInt8) :
    ProtoServer LogProtoFramedServer LogTransport where
  fetch self mayRead transport :=
    (self.fetch options junk transport mayRead).map fun (status, msg, self, _) => (status, msg, self)
  queued := id
  resetError := id
  prepare := LogProtoFramedServer.prepare
  isPreemptable _ := true
  HoldsMessage := LogProtoFramedServer.HoldsMessage
  outlivesError := false

/-- The sizes are positive numbers of type `gint`. -/
structure SizesOk (options : LogProtoServerOptions) : Prop where
  pos : 0 < options.initBufferSize
  init : options.initBufferSize < 2 ^ 31
  max : options.maxBufferSize < 2 ^ 31

/-- No conversion of a chunk fails once it has put something into the buffer. -/
def TextMeets (options : LogProtoServerOptions) (self : ConvertingServer) (env : TextEnv) : Prop :=
  self.encoding = true →
    ConvertingServer.ConvertsAll options (ConvertingServer.sizeBefore options self) env.iconvs

theorem textServer_lawful {options : LogProtoServerOptions} (h : SizesOk options) (junk : UInt8)
    (addr : Nat) (rawSize : List UInt8 → Nat) (outlivesError : Bool) :
    Lawful (textServer options junk addr rawSize outlivesError) (fun self => self.server.Good)
      (TextMeets options) where
  fetch hgood hmeets ht _ :=
    ConvertingServer.fetch_good hgood h.pos h.init h.max hmeets ht
  queued hgood := hgood.queued
  resetError hgood := hgood.status .success
  told hgood hm := ConvertingServer.prepare_of_holdsMessage hgood hm

theorem framedServer_lawful (options : LogProtoServerOptions) (junk : UInt8) :
    Lawful (framedServer options junk) LogProtoFramedServer.Told fun _ _ => True where
  fetch := by
    intro proto mayRead env status msg proto' _ _ ht hst
    obtain ⟨⟨st, m, t, tr⟩, hf, hres⟩ := Option.map_eq_some_iff.1 ht
    cases hres
    obtain rfl | hno := hst
    · exact LogProtoFramedServer.fetch_told hf
    · cases hno
  queued hgood := hgood
  resetError hgood := hgood
  told hgood hm := hgood hm

section

variable {P E : Type} {server : ProtoServer P E} {options : LogReaderOptions} {Good : P → Prop}
  {Meets : P → E → Prop} {r r' : LogReader P}

/-- The steps of a run that keeps to what the server is good for. -/
def Next (server : ProtoServer P E) (options : LogReaderOptions) (Good : P → Prop)
    (Meets : P → E → Prop) (r : LogReader P) (action : Action P E) (r' : LogReader P) : Prop :=
  step server options r action = some (.ok r') ∧ action.Keeps server Good Meets r

/-- No assertion fails, whatever happens next; a reader with room in its window that is not in a job
waits for input, for its task or for a wakeup, and for one of the last two when a message is there. -/
structure Awake (server : ProtoServer P E) (options : LogReaderOptions) (r : LogReader P) : Prop where
  safe : ∀ action fault, step server options r action ≠ some (.error fault)
  armed : r.initialized = true → r.job = .idle → 0 < r.windowSize →
    r.wakeupPosted = true ∨ Armed r
  prompt : r.initialized = true → r.job = .idle → 0 < r.windowSize →
    server.HoldsMessage r.proto → r.restartTask = true ∨ r.wakeupPosted = true

theorem Inv.awake (hlaw : Lawful server Good Meets) (h : Inv server options Good True r)
    (h' : Inv server options Good False r) : Awake server options r := by
  refine ⟨fun action fault hs => ?_, fun hinit hidle hroom => ?_, fun hinit hidle hroom hm => ?_⟩
  · obtain ⟨r', hr, -⟩ := step_inv hlaw h' (fun hf => hf.elim) hs
    cases hr
  · have hw := h.idle hidle hinit
    cases hsusp : r.suspended with
    | true => exact .inl ((hw.suspended hsusp).1 hroom)
    | false =>
      obtain htask | ⟨harmed, -⟩ := (hw.awake hsusp).2
      · exact .inr (.inr (.inr htask))
      · exact .inr harmed
  · have hw := h.idle hidle hinit
    cases hsusp : r.suspended with
    | true => exact .inr ((hw.suspended hsusp).1 hroom)
    | false =>
      obtain htask | ⟨-, hnone⟩ := (hw.awake hsusp).2
      · exact .inl htask
      · exact absurd hm (hnone trivial)

theorem awake_of_run (hlaw : Lawful server Good Meets) {proto : P} (hgood : Good proto)
    {windowSize : Nat} {immediateCheck : Bool} {actions : List (Action P E)}
    (hinit : readerInit server options proto windowSize immediateCheck = .ok r)
    (hrun : Run (Next server options Good Meets) r actions r') : Awake server options r' := by
  have hstart : ∀ told : Prop, Inv server options Good told r := fun told => by
    have hspec : ∃ r0, readerInit server options proto windowSize immediateCheck = .ok r0 ∧
        Inv server options Good told r0 :=
      startWatches_spec hlaw rfl rfl rfl (fun _ => hgood) rfl rfl
    obtain ⟨r0, h0, hinv⟩ := hspec
    cases hinit.symm.trans h0
    exact hinv
  have hinv : ∀ told : Prop, Inv server options Good told r' := fun told =>
    hrun.invariant (fun _ _ _ hn h => by
      obtain ⟨next, hnext, hinv⟩ := step_inv hlaw h (fun _ => hn.2) hn.1
      cases hnext
      exact hinv) (hstart told)
  exact Inv.awake hlaw (hinv True) (hinv False)

end

/-- **A reader is awake** and never overruns its window, over a text server and over a framed one, in
every run in which no conversion fails half way and no driver restores a complete message behind the
back of the reader. -/
theorem reader_stays_awake (serverOptions : LogProtoServerOptions) (junk : UInt8)
    (options : LogReaderOptions) (windowSize : Nat) (immediateCheck : Bool) :
    (∀ (addr : Nat) (rawSize : List UInt8 → Nat) (outlivesError encoding noMultiRead : Bool) r r'
      actions, SizesOk serverOptions →
      readerInit (textServer serverOptions junk addr rawSize outlivesError) options
        ⟨logProtoTextServerNew noMultiRead, encoding, []⟩ windowSize immediateCheck = .ok r →
      Run (Next (textServer serverOptions junk addr rawSize outlivesError) options
        (fun self => self.server.Good) (TextMeets serverOptions)) r actions r' →
      Awake (textServer serverOptions junk addr rawSize outlivesError) options r') ∧
    ∀ r r' actions,
      readerInit (framedServer serverOptions junk) options logProtoFramedServerNew windowSize
        immediateCheck = .ok r →
      Run (Next (framedServer serverOptions junk) options LogProtoFramedServer.Told
        fun _ _ => True) r actions r' →
      Awake (framedServer serverOptions junk) options r' := by
  refine ⟨fun addr rawSize outlivesError encoding noMultiRead r r' actions hsizes hinit hrun => ?_,
    fun r r' actions hinit hrun => ?_⟩
  · exact awake_of_run (textServer_lawful hsizes junk addr rawSize outlivesError)
      (.inl ⟨rfl, rfl, rfl, rfl⟩) hinit hrun
  · refine awake_of_run (framedServer_lawful serverOptions junk) ?_ hinit hrun
    rintro (⟨hm, -⟩ | ⟨-, pos, frameLen, hfound, -⟩)
    · cases hm
    · cases hfound

/-- Buffers of four bytes that grow to eight. -/
def fourBytes : LogProtoServerOptions := ⟨4, 8, 4⟩

/-- A followed file, in the main thread. -/
def followed : LogReaderOptions := ⟨1, 10, false, false, false⟩

/-- The text server of a file. -/
def fileTextServer : ProtoServer ConvertingServer TextEnv := textServer fourBytes 0 0 List.length true

/-- A file with one line. -/
theorem reader_stays_awake_line : ∃ r r',
    readerInit fileTextServer followed ⟨logProtoTextServerNew false, true, []⟩ 1 false = .ok r ∧
    Run (Next fileTextServer followed (fun self => self.server.Good) (TextMeets fourBytes)) r
      [.followTimer true, .fetch ⟨[.data 97 [10]], [[⟨[97, 10], [], .ok⟩]]⟩, .lineHandled, .workFinished]
      r' ∧ r'.suspended = true ∧ Awake fileTextServer followed r' := by
  have hrun : ∃ r r',
      readerInit fileTextServer followed ⟨logProtoTextServerNew false, true, []⟩ 1 false = .ok r ∧
      Run (Next fileTextServer followed (fun self => self.server.Good) (TextMeets fourBytes)) r
        [.followTimer true, .fetch ⟨[.data 97 [10]], [[⟨[97, 10], [], .ok⟩]]⟩, .lineHandled,
          .workFinished] r' ∧ r'.suspended = true := by
    refine ⟨_, _, rfl, .step ⟨rfl, trivial⟩ (.step ⟨rfl, fun _ => ?_⟩ (.step ⟨rfl, trivial⟩
      (.step ⟨rfl, trivial⟩ (.refl _)))), rfl⟩
    exact ⟨⟨by simp, by simp, by simp, fun _ => trivial⟩, trivial⟩
  obtain ⟨r, r', hinit, hrun, hsusp⟩ := hrun
  exact ⟨r, r', hinit, hrun, hsusp, (reader_stays_awake fourBytes 0 followed 1 false).1 0 List.length
    true true false r r' _ ⟨by decide, by decide, by decide⟩ hinit hrun⟩

/-- A step that does not fail. -/
def stepOk {P E : Type} (server : ProtoServer P E) (options : LogReaderOptions) (r : LogReader P)
    (action : Action P E) : Option (LogReader P) :=
  (step server options r action).bind Except.toOption

/-- Two chunks `ab` and `c NL e 0xff` of a file in UTF-8: the second one grows the buffer, and then
meets the illegal byte. -/
def illegalByte : List (Action ConvertingServer TextEnv) :=
  [.followTimer true, .fetch ⟨[.data 97 [98], .again], [[⟨[97, 98], [], .ok⟩]]⟩, .workFinished,
    .followTimer true,
    .fetch ⟨[.data 99 [10, 101, 255]],
      [[⟨[99, 10], [101, 255], .full⟩, ⟨[101], [255], .illegal⟩]]⟩, .workFinished]

/-- The record of a file with the lines `x` and `a`, of which the first one has been queued. -/
def secondLine : LogProtoBufferedServerState where
  bufferPos := 2
  pendingBufferEnd := 4
  bufferSize := 4
  bufferCachedEol := 3
  pendingBufferPos := 2
  rawStreamPos := 0
  pendingRawStreamPos := 0
  rawBufferSize := 4
  pendingRawBufferSize := 4
  fileSize := 4
  fileInode := 1

/-- The reader waits for the file to grow although its buffer holds the line `abc`, after a
conversion that has failed half way; it waits for the follow timer with the line `a` in the buffer
that the driver has restored. -/
theorem reader_falls_asleep :
    (((readerInit fileTextServer followed ⟨logProtoTextServerNew false, true, []⟩ 10 false).toOption.bind
      fun r => exec (stepOk fileTextServer followed) r illegalByte).map fun r =>
        (r.initialized, r.job, r.windowSize, r.restartTask, r.wakeupPosted, r.proto.server.pending)) =
      some (true, .idle, 10, false, false, [97, 98, 99, 10]) ∧
    ((LogProtoTextServer.restartWithState 0 false secondLine ⟨[120, 10, 97, 10], 1, 0⟩).bind
      fun (restored, _) =>
        ((readerInit fileTextServer followed ⟨logProtoTextServerNew false, false, []⟩ 10
          false).toOption.bind fun r =>
            exec (stepOk fileTextServer followed) r [.restart ⟨restored, false, []⟩]).map fun r =>
        (r.initialized, r.job, r.windowSize, r.restartTask, r.wakeupPosted, r.proto.server.pending)) =
      some (true, .idle, 10, false, false, [97, 10]) := by
  constructor <;> rfl

end SyslogNg.LogReader
