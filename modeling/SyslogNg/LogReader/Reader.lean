import SyslogNg.Lib.Run
import SyslogNg.LogProto.Transport

/-!
# The log reader (`lib/logreader.c`, `lib/logsource.c`)

The window, the watches and the job of a `LogReader`, over any protocol server. A job runs round by
round, in a worker thread or in the main thread, while destinations acknowledge messages; what is
left of `log_pipe_notify` is whether the owner of the reader lets it go. Nothing is reopened and no
reload or shutdown is pending.
-/

namespace SyslogNg.LogReader

open Lib LogProto

/-- `LogProtoServer`, as the reader sees it: `E` is what happens during a fetch. -/
structure ProtoServer (P E : Type) where
  /-- `log_proto_server_fetch`; `none` is for what cannot happen. -/
  fetch : P → Bool → E → Option (LogProtoStatus × Option (List UInt8) × P)
  queued : P → P
  resetError : P → P
  prepare : P → Bool
  isPreemptable : P → Bool
  /-- The buffer holds a complete message. -/
  HoldsMessage : P → Prop
  /-- The owner of the reader keeps it when it is told of an error or of the end of the input. -/
  outlivesError : Bool

structure LogReaderOptions where
  followFreq : Nat
  fetchLimit : Nat
  /-- `LR_THREADED`. -/
  threaded : Bool
  /-- `LR_PREEMPT`. -/
  preempt : Bool
  /-- `LR_EMPTY_LINES`. -/
  emptyLines : Bool

/-- `NC_CLOSE` and `NC_READ_ERROR`. -/
inductive NotifyCode where
  | close
  | readError
  deriving DecidableEq

/-- Where the job of the reader is: `log_reader_work_perform`. -/
inductive Job where
  | idle
  /-- The next round of `log_reader_fetch_log`, after this many messages. -/
  | fetching (msgCount : Nat)
  /-- A message has been queued. -/
  | queueing (msgCount : Nat)
  | performed (notifyCode : Option NotifyCode)
  deriving DecidableEq

/-- The assertions that the claim of a sound window and of sound watches is about. -/
inductive Fault where
  /-- `g_assert(old_window_size > 0)` in `log_source_queue`. -/
  | windowExhausted
  /-- A watch or timer is registered twice. -/
  | alreadyRegistered
  /-- `g_assert(self->working == FALSE)` in `main_loop_io_worker_job_submit`. -/
  | jobWorking
  deriving DecidableEq

structure LogReader (P : Type) where
  proto : P
  windowSize : Nat
  /-- The messages that have not been acknowledged. -/
  unacked : Nat
  initialized : Bool
  immediateCheck : Bool
  waitingForPreemption : Bool
  suspended : Bool
  /-- `fd_watch` is registered. -/
  fdWatch : Bool
  /-- `fd_watch` has a handler. -/
  fdHandler : Bool
  followTimer : Bool
  restartTask : Bool
  /-- `schedule_wakeup` has been posted. -/
  wakeupPosted : Bool
  job : Job

section

variable {P E : Type} (server : ProtoServer P E) (options : LogReaderOptions)

/-- `log_source_free_to_send`. -/
def freeToSend (self : LogReader P) : Bool := decide (0 < self.windowSize)

/-- The first half of `log_reader_update_watches`: nothing is watched, for we know that we can go on
or that we cannot. -/
def disableWatches (self : LogReader P) : LogReader P :=
  let self := { self with
    immediateCheck := false
    fdHandler := self.fdHandler && !self.fdWatch
    followTimer := false }
  if freeToSend self then { self with restartTask := true } else { self with suspended := true }

/-- The second half: we wait for input. -/
def enableWatches (self : LogReader P) : LogReader P :=
  if self.fdWatch then { self with fdHandler := true }
  else if 0 < options.followFreq then { self with followTimer := true }
  else self

def updateWatches (self : LogReader P) : LogReader P :=
  let self := { self with suspended := false }
  if !freeToSend self || self.immediateCheck || server.prepare self.proto then disableWatches self
  else enableWatches options self

def startWatches (self : LogReader P) : Except Fault (LogReader P) :=
  if 0 < options.followFreq then
    if self.followTimer then .error .alreadyRegistered
    else .ok (updateWatches server options { self with followTimer := true })
  else if self.fdWatch then .error .alreadyRegistered
  else .ok (updateWatches server options { self with fdWatch := true })

def stopWatches (self : LogReader P) : LogReader P :=
  { self with fdWatch := false, followTimer := false, restartTask := false }

def ioProcessInput (self : LogReader P) : Except Fault (LogReader P) :=
  let self := stopWatches self
  if self.job = .idle then .ok { self with job := .fetching 0 } else .error .jobWorking

/-- The end of `log_reader_fetch_log`. -/
def fetchDone (msgCount : Nat) (self : LogReader P) : LogReader P :=
  let self := if options.preempt then
    { self with waitingForPreemption := !server.isPreemptable self.proto } else self
  { self with
    immediateCheck := self.immediateCheck || msgCount = options.fetchLimit
    job := .performed none }

/-- `log_source_queue`, as far as the window goes. -/
def sourceQueue (self : LogReader P) : Except Fault (LogReader P) :=
  if self.windowSize = 0 then .error .windowExhausted
  else .ok { self with windowSize := self.windowSize - 1, unacked := self.unacked + 1 }

/-- One round of the loop of `log_reader_fetch_log`. -/
def fetchLog (msgCount : Nat) (env : E) (self : LogReader P) :
    Option (Except Fault (LogReader P)) :=
  if msgCount < options.fetchLimit then
    (server.fetch self.proto (!self.waitingForPreemption) env).map fun
    | (.success, none, proto) => .ok (fetchDone server options msgCount { self with proto := proto })
    | (.success, some msg, proto) =>
      if 0 < msg.length || options.emptyLines then
        (sourceQueue { self with proto := proto }).map fun self =>
          { self with job := .queueing (msgCount + 1) }
      else .ok { self with proto := server.queued proto }
    | (.error, _, proto) => .ok { self with proto := proto, job := .performed (some .readError) }
    | (.eof, _, proto) => .ok { self with proto := proto, job := .performed (some .close) }
  else some (.ok (fetchDone server options msgCount self))

/-- `log_reader_handle_line` returns; a full window ends the loop. -/
def lineHandled (msgCount : Nat) (self : LogReader P) : LogReader P :=
  let free := freeToSend self
  let self := { self with proto := server.queued self.proto }
  if free then { self with job := .fetching msgCount } else fetchDone server options msgCount self

def workFinished (notifyCode : Option NotifyCode) (self : LogReader P) :
    Except Fault (LogReader P) :=
  let self := { self with job := .idle }
  if notifyCode.isSome && !server.outlivesError then
    -- the owner calls log_reader_deinit
    .ok { stopWatches self with initialized := false, wakeupPosted := false }
  else if self.initialized then
    startWatches server options { self with proto := server.resetError self.proto }
  else .ok self

/-- `log_source_msg_ack` with `log_reader_wakeup`. -/
def msgAck (self : LogReader P) : LogReader P :=
  { self with
    windowSize := self.windowSize + 1
    unacked := self.unacked - 1
    wakeupPosted := self.wakeupPosted || (self.windowSize = 0 && self.initialized) }

/-- `log_reader_wakeup_triggered`; the job does not count as working when it runs in the main
thread. -/
def wakeupTriggered (self : LogReader P) : LogReader P :=
  let self := { self with wakeupPosted := false }
  if !(options.threaded && self.job ≠ .idle) && self.suspended then updateWatches server options self
  else self

inductive Action (P E : Type) where
  /-- A handler of `fd_watch` is called. -/
  | ioEvent
  /-- `follow_timer` elapses; `hasData` is what `log_reader_io_follow_file` finds. -/
  | followTimer (hasData : Bool)
  | restartTask
  | fetch (env : E)
  | lineHandled
  | workFinished
  | msgAck
  | wakeupTriggered
  /-- The driver restores the position in the file, and with it the buffer. -/
  | restart (proto : P)

/-- The main thread is not in a job. -/
def MainFree (self : LogReader P) : Prop := options.threaded = true ∨ self.job = .idle

instance (self : LogReader P) : Decidable (MainFree options self) :=
  inferInstanceAs (Decidable (_ ∨ _))

/-- `none` is for what cannot happen. -/
def step (self : LogReader P) : Action P E → Option (Except Fault (LogReader P))
  | .ioEvent =>
    if MainFree options self ∧ self.fdWatch = true ∧ self.fdHandler = true then
      some (ioProcessInput self)
    else none
  | .followTimer hasData =>
    if MainFree options self ∧ self.followTimer = true then
      let self := { self with followTimer := false }
      some (if hasData then ioProcessInput self else .ok (updateWatches server options self))
    else none
  | .restartTask =>
    if MainFree options self ∧ self.restartTask = true then
      some (ioProcessInput { self with restartTask := false })
    else none
  | .fetch env =>
    match self.job with
    | .fetching msgCount => fetchLog server options msgCount env self
    | _ => none
  | .lineHandled =>
    match self.job with
    | .queueing msgCount => some (.ok (lineHandled server options msgCount self))
    | _ => none
  | .workFinished =>
    match self.job with
    | .performed notifyCode => some (workFinished server options notifyCode self)
    | _ => none
  | .msgAck => if 0 < self.unacked then some (.ok (msgAck self)) else none
  | .wakeupTriggered =>
    if MainFree options self ∧ self.wakeupPosted = true then
      some (.ok (wakeupTriggered server options self))
    else none
  | .restart proto =>
    if self.job = .idle then some (.ok { self with proto := proto }) else none

/-- `log_reader_init`; `immediateCheck` is what `log_reader_set_immediate_check` has left. -/
def readerInit (proto : P) (windowSize : Nat) (immediateCheck : Bool) :
    Except Fault (LogReader P) :=
  startWatches server options
    { proto := proto
      windowSize := windowSize
      unacked := 0
      initialized := true
      immediateCheck := immediateCheck
      waitingForPreemption := false
      suspended := false
      fdWatch := false
      fdHandler := false
      followTimer := false
      restartTask := false
      wakeupPosted := false
      job := .idle }

end

end SyslogNg.LogReader
