import Mathlib.Data.Finset.Card
import SyslogNg.Lib.Run

/-!
# The main loop and its I/O workers (`lib/mainloop.c`)

The state that reload, shutdown and I/O jobs share, and what happens in the main thread: signals,
commands of the control channel, the exit timer, the deferred task that enables jobs again, the
watches of a job's owner and the completion of a job. A job is a number, and so is a configuration.

An owner (`lib/logreader.c`, `lib/logwriter.c`) stops its watches before it submits its job, and
starts them again only in the completion of the job or when it is not working.
-/

namespace SyslogNg.MainLoop

open Lib

inductive SyncFunc where
  | reloadConfigApply
  | exitFinish
  deriving DecidableEq

/-- How the process dies. -/
inductive Fault where
  /-- `g_assert(self->working == FALSE)` in `main_loop_io_worker_job_submit`. -/
  | jobWorking
  /-- The assertion of `main_loop_io_worker_sync_call`. -/
  | syncFuncPending
  /-- `main_loop_reload_config_apply` uses a configuration that is `NULL`. -/
  | noConfig
  /-- `main_loop_io_worker_job_complete` calls a `NULL` pointer. -/
  | noSyncFunc
  /-- The old configuration cannot be initialised again: `kill(getpid(), SIGQUIT)`. -/
  | hosed
  deriving DecidableEq

structure MainLoop where
  running : Nat
  quit : Bool
  syncFunc : Option SyncFunc
  /-- `main_loop_io_workers_reenable_jobs_task` is registered. -/
  reenableJobs : Bool
  currentConfiguration : Nat
  oldConfig : Option Nat
  newConfig : Option Nat
  underTermination : Bool
  /-- `main_loop_exit_timer` is registered. -/
  exitTimer : Bool
  /-- The jobs with `working` set. -/
  working : Finset Nat
  /-- The jobs whose owners have their watches running. -/
  watched : Finset Nat
  /-- `iv_quit` has been called. -/
  left : Bool
  /-- How many configurations there have been. -/
  configs : Nat
  /-- The configurations that initialised successfully, the last one first. -/
  initialized : List Nat
  /-- `running`, for every call of `main_loop_reload_config_apply`. -/
  applied : List Nat

/-- What `cfg_init` says of the new and of the old configuration, and the jobs that are watched
afterwards. -/
structure ApplyEnv where
  initNew : Bool
  initOld : Bool
  watched : Finset Nat

/-- A configuration has been initialised; no job runs. -/
def mainLoopStart (watched : Finset Nat) : MainLoop where
  running := 0
  quit := false
  syncFunc := none
  reenableJobs := false
  currentConfiguration := 0
  oldConfig := none
  newConfig := none
  underTermination := false
  exitTimer := false
  working := ∅
  watched := watched
  left := false
  configs := 1
  initialized := [0]
  applied := []

def reloadConfigApply (env : ApplyEnv) (s : MainLoop) : Except Fault MainLoop :=
  match s.oldConfig, s.newConfig with
  | some old, some new =>
    let s := { s with
      applied := s.running :: s.applied
      watched := env.watched
      newConfig := none
      oldConfig := none }
    if env.initNew then
      .ok { s with currentConfiguration := new, initialized := new :: s.initialized }
    else if env.initOld then
      .ok { s with currentConfiguration := old, initialized := old :: s.initialized }
    else .error .hosed
  | _, _ => .error .noConfig

/-- `main_loop_exit_finish`; the watches go with the configuration. -/
def exitFinish (s : MainLoop) : MainLoop := { s with watched := ∅, left := true }

def SyncFunc.call (func : SyncFunc) (env : ApplyEnv) (s : MainLoop) : Except Fault MainLoop :=
  match func with
  | .reloadConfigApply => MainLoop.reloadConfigApply env s
  | .exitFinish => .ok (MainLoop.exitFinish s)

def ioWorkerSyncCall (func : SyncFunc) (env : ApplyEnv) (s : MainLoop) : Except Fault MainLoop :=
  if s.syncFunc = none ∨ s.syncFunc = some func then
    if s.running = 0 then func.call env s
    else .ok { s with quit := true, syncFunc := some func }
  else .error .syncFuncPending

/-- `main_loop_reload_config_initiate`; `parses` is what `cfg_read_config` returns. -/
def reloadConfigInitiate (parses : Bool) (env : ApplyEnv) (s : MainLoop) : Except Fault MainLoop :=
  -- a configuration that is still waiting is dropped
  let s := { s with
    oldConfig := some s.currentConfiguration
    newConfig := some s.configs
    configs := s.configs + 1 }
  if parses then ioWorkerSyncCall .reloadConfigApply env s
  else .ok { s with newConfig := none, oldConfig := none }

def ioWorkerJobSubmit (job : Nat) (s : MainLoop) : Except Fault MainLoop :=
  if job ∈ s.working then .error .jobWorking
  else if s.quit then .ok s
  else .ok { s with running := s.running + 1, working := insert job s.working }

/-- `main_loop_io_worker_job_complete`; the completion of the job starts the watches of its owner
again if that is `rewatched`. -/
def ioWorkerJobComplete (job : Nat) (rewatched : Bool) (env : ApplyEnv) (s : MainLoop) :
    Except Fault MainLoop :=
  let s := { s with working := s.working.erase job, running := s.running - 1 }
  let s := if rewatched then { s with watched := insert job s.watched } else s
  if s.quit && s.running = 0 then
    match s.syncFunc with
    | none => .error .noSyncFunc
    | some func => func.call env { s with reenableJobs := true }
  else .ok s

def ioWorkerReenableJobs (s : MainLoop) : MainLoop :=
  { s with quit := false, syncFunc := none, reenableJobs := false }

/-- What happens in the main thread. -/
inductive Action where
  | sigHup (parses : Bool) (env : ApplyEnv)
  | controlReload (parses : Bool) (env : ApplyEnv)
  | sigTerm
  | exitTimerElapsed (env : ApplyEnv)
  | reenableJobs
  /-- A watch fires, and its owner submits the job. -/
  | submit (job : Nat)
  | complete (job : Nat) (rewatched : Bool) (env : ApplyEnv)
  /-- An owner whose job is not working starts its watches. -/
  | watch (job : Nat)

/-- `none` is for what cannot happen; nothing happens any more when the loop has been left. -/
def step (s : MainLoop) (action : Action) : Option (Except Fault MainLoop) :=
  if s.left then none
  else match action with
    | .sigHup parses env =>
      some (if s.underTermination then .ok s else reloadConfigInitiate parses env s)
    | .controlReload parses env => some (reloadConfigInitiate parses env s)
    | .sigTerm =>
      some (.ok (if s.underTermination then s
        else { s with exitTimer := true, underTermination := true }))
    | .exitTimerElapsed env =>
      if s.exitTimer then some (ioWorkerSyncCall .exitFinish env { s with exitTimer := false })
      else none
    | .reenableJobs => if s.reenableJobs then some (.ok (ioWorkerReenableJobs s)) else none
    | .submit job =>
      if job ∈ s.watched then
        some (ioWorkerJobSubmit job { s with watched := s.watched.erase job })
      else none
    | .complete job rewatched env =>
      if job ∈ s.working then some (ioWorkerJobComplete job rewatched env s) else none
    | .watch job =>
      if job ∈ s.working then none else some (.ok { s with watched := insert job s.watched })

/-- The exit timer does not elapse while a reload is pending, the control channel does not ask for a
reload while the exit is pending, and no file that does not parse is read while a reload waits for
the jobs to finish. -/
def Action.Meets (s : MainLoop) : Action → Prop
  | .sigHup parses _ => s.underTermination = true ∨ parses = true ∨ s.newConfig = none
  | .controlReload parses _ =>
    if parses then s.syncFunc ≠ some .exitFinish else s.newConfig = none
  | .exitTimerElapsed _ => s.syncFunc ≠ some .reloadConfigApply
  | _ => True

def Next (s : MainLoop) (action : Action) (s' : MainLoop) : Prop :=
  step s action = some (.ok s') ∧ action.Meets s

end SyslogNg.MainLoop
