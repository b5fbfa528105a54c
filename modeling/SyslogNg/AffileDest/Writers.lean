import Mathlib.Data.Finset.Card
import SyslogNg.Lib.Run

/-!
# The writers of a file destination (`modules/affile/affile-dest.c`)

The source threads in `affile_dd_queue`, the main thread in `affile_dw_reap`, and the writers they
share. A step is what one thread does between two locks, or in one call of the main loop; the clock
is what the thread reads. Threads and writers are numbers, and a name of a file is anything that can
be compared.
-/

namespace SyslogNg.AffileDest

open Lib Function

variable {F : Type} [DecidableEq F]

/-- `AFFileDestWriter` with its `LogWriter` and the queue of that. -/
structure FileWriter (F : Type) where
  filename : F
  refs : Nat
  initialized : Bool
  lastMsgStamp : Int
  lastOpenStamp : Int
  timeReopen : Int
  /-- `reap_timer` is registered. -/
  reapTimer : Bool
  reopenPending : Bool
  queuePending : Bool
  /-- The `LogWriter` has a `proto`. -/
  opened : Bool
  watchesRunning : Bool
  /-- `log_queue_get_length`. -/
  length : Nat
  /-- The lengths of the input queues of the worker threads. -/
  input : Nat → Nat

/-- Where a source thread is in `affile_dd_queue`. -/
inductive Source (F : Type) where
  | idle
  /-- It waits for `affile_dd_open_writer`. -/
  | opening (filename : F)
  /-- It has a reference, and is about to call `affile_dw_queue`. -/
  | entering (dw : Nat)
  | reopening (dw : Nat)
  | reopened (dw : Nat)
  | forwarding (dw : Nat)
  | forwarded (dw : Nat)
  /-- `queue_pending` has been cleared. -/
  | leaving (dw : Nat)
  deriving DecidableEq

inductive Reaper where
  | idle
  /-- `affile_dw_reap` has decided to reap the writer. -/
  | removing (dw : Nat)
  /-- `affile_dd_reap_writer` has removed it from the table. -/
  | deiniting (dw : Nat)
  deriving DecidableEq

/-- `AFFileDestDriver`, as it is configured. -/
structure Options (F : Type) where
  /-- `AFFILE_NO_EXPAND`: the template has no macros. -/
  noExpand : Bool
  template : F
  optional : Bool
  timeReap : Int
  timeReopen : Int

structure FileDest (F : Type) where
  singleWriter : Option Nat
  writerHash : F → Option Nat
  /-- The writers below `created` exist. -/
  writers : Nat → FileWriter F
  created : Nat
  sources : Nat → Source F
  reaper : Reaper

def FileDest.setWriter (s : FileDest F) (dw : Nat) (w : FileWriter F) : FileDest F :=
  { s with writers := update s.writers dw w }

def FileDest.setSource (s : FileDest F) (t : Nat) (src : Source F) : FileDest F :=
  { s with sources := update s.sources t src }

/-- The writer of a file; there is but one when the name is not expanded. -/
def FileDest.find (o : Options F) (s : FileDest F) (filename : F) : Option Nat :=
  if o.noExpand then s.singleWriter else s.writerHash filename

def FileDest.insert (o : Options F) (s : FileDest F) (filename : F) (dw : Nat) : FileDest F :=
  if o.noExpand then { s with singleWriter := some dw }
  else { s with writerHash := update s.writerHash filename (some dw) }

/-- `none` is the assertion of `affile_dd_reap_writer`. -/
def FileDest.remove (o : Options F) (s : FileDest F) (dw : Nat) : Option (FileDest F) :=
  if o.noExpand then
    if s.singleWriter = some dw then some { s with singleWriter := none } else none
  else some { s with writerHash := update s.writerHash (s.writers dw).filename none }

/-- `affile_dw_new`. -/
def dwNew (filename : F) : FileWriter F where
  filename := filename
  refs := 1
  initialized := false
  lastMsgStamp := 0
  lastOpenStamp := 0
  timeReopen := 60
  reapTimer := false
  reopenPending := false
  queuePending := false
  opened := false
  watchesRunning := false
  length := 0
  input := fun _ => 0

/-- `affile_dw_reopen`, when `affile_open_file` returns `opens`. -/
def dwReopen (opens : Bool) (w : FileWriter F) : FileWriter F :=
  let w := { w with lastOpenStamp := w.lastMsgStamp }
  if opens then { w with opened := true, watchesRunning := true, reapTimer := true } else w

/-- `affile_dw_init`, when `log_pipe_init` of the `LogWriter` returns `inits`. -/
def dwInit (o : Options F) (inits opens : Bool) (w : FileWriter F) : Option (FileWriter F) :=
  if inits && (opens || o.optional) then
    some { dwReopen opens { w with timeReopen := o.timeReopen } with initialized := true }
  else none

def hasPendingWrites (w : FileWriter F) : Bool := decide (0 < w.length) || !w.watchesRunning

/-- `affile_dw_deinit`, and the reference of the table. -/
def dwDeinit (w : FileWriter F) : FileWriter F :=
  { w with initialized := false, reapTimer := false, watchesRunning := false, refs := w.refs - 1 }

/-- A reference for a thread that is about to queue its message. -/
def dwExpect (w : FileWriter F) : FileWriter F := { w with refs := w.refs + 1, queuePending := true }

/-- `affile_dw_queue` wants to reopen the file. -/
def wantsReopen (w : FileWriter F) : Bool :=
  !w.opened && !w.reopenPending && decide (w.lastOpenStamp < w.lastMsgStamp - w.timeReopen)

/-- The stamps that `affile_dw_queue` sets. -/
def dwStamp (now : Int) (w : FileWriter F) : FileWriter F :=
  { w with
    lastMsgStamp := now
    lastOpenStamp := if w.lastOpenStamp = 0 then now else w.lastOpenStamp }

/-- What `log_writer_queue` and `log_queue_fifo_push_tail` do with a message. -/
inductive Put where
  | drop
  /-- The thread is a worker: the message goes to its input queue. -/
  | input
  | wait
  deriving DecidableEq

def dwPut (t : Nat) (put : Put) (w : FileWriter F) : FileWriter F :=
  match put with
  | .drop => w
  | .input => { w with input := update w.input t (w.input t + 1) }
  | .wait => { w with length := w.length + 1 }

/-- `log_queue_fifo_move_input`, which may drop messages. -/
def dwMoveInput (t dropped : Nat) (w : FileWriter F) : FileWriter F :=
  { w with length := w.length + (w.input t - dropped), input := update w.input t 0 }

inductive Action (F : Type) where
  /-- `affile_dd_queue` looks the writer up. -/
  | lookUp (t : Nat) (filename : F)
  /-- `affile_dd_open_writer`. -/
  | openWriter (t : Nat) (inits opens : Bool)
  /-- `affile_dw_queue`, under the lock of the writer. -/
  | enter (t : Nat) (now : Int)
  | reopen (t : Nat) (opens : Bool)
  | reopened (t : Nat)
  | forward (t : Nat) (put : Put)
  /-- `queue_pending` is cleared. -/
  | clear (t : Nat)
  | unref (t : Nat)
  /-- The job of a worker thread ends; `dropped` says how many messages do not fit. -/
  | moveInput (t : Nat) (dropped : Nat → Nat)
  /-- The timer of the writer elapses: `affile_dw_reap`. -/
  | reap (dw : Nat) (now : Int)
  /-- `affile_dd_reap_writer`, until it unlocks the driver. -/
  | remove
  | deinit
  /-- The `LogWriter` starts or stops its watches. -/
  | watch (dw : Nat) (running : Bool)
  /-- The `LogWriter` takes a message off its queue. -/
  | consume (dw : Nat)

/-- `none` is for what cannot happen. -/
def step (o : Options F) (s : FileDest F) : Action F → Option (FileDest F)
  | .lookUp t filename =>
    if s.sources t = .idle then
      match s.find o filename with
      | some dw => some ((s.setWriter dw (dwExpect (s.writers dw))).setSource t (.entering dw))
      | none => some (s.setSource t (.opening filename))
    else none
  | .openWriter t inits opens =>
    match s.sources t, s.reaper with
    | .opening filename, .idle =>
      match s.find o filename with
      | some dw => some ((s.setWriter dw (dwExpect (s.writers dw))).setSource t (.entering dw))
      | none =>
        let filename := if o.noExpand then o.template else filename
        match dwInit o inits opens (dwNew filename) with
        | some w =>
          let s := { s.setWriter s.created (dwExpect w) with created := s.created + 1 }
          some ((s.insert o filename (s.created - 1)).setSource t (.entering (s.created - 1)))
        -- the message is not forwarded
        | none => some (s.setSource t .idle)
    | _, _ => none
  | .enter t now =>
    match s.sources t with
    | .entering dw =>
      let w := dwStamp now (s.writers dw)
      if wantsReopen w then
        some ((s.setWriter dw { w with reopenPending := true }).setSource t (.reopening dw))
      else some ((s.setWriter dw w).setSource t (.forwarding dw))
    | _ => none
  | .reopen t opens =>
    match s.sources t, s.reaper with
    -- the timer is registered in the main thread
    | .reopening dw, .idle =>
      some ((s.setWriter dw (dwReopen opens (s.writers dw))).setSource t (.reopened dw))
    | _, _ => none
  | .reopened t =>
    match s.sources t with
    | .reopened dw =>
      some ((s.setWriter dw { s.writers dw with reopenPending := false }).setSource t
        (.forwarding dw))
    | _ => none
  | .forward t put =>
    match s.sources t with
    | .forwarding dw =>
      some ((s.setWriter dw (dwPut t put (s.writers dw))).setSource t (.forwarded dw))
    | _ => none
  | .clear t =>
    match s.sources t with
    | .forwarded dw =>
      some ((s.setWriter dw { s.writers dw with queuePending := false }).setSource t (.leaving dw))
    | _ => none
  | .unref t =>
    match s.sources t with
    | .leaving dw =>
      some ((s.setWriter dw { s.writers dw with refs := (s.writers dw).refs - 1 }).setSource t .idle)
    | _ => none
  | .moveInput t dropped =>
    if s.sources t = .idle then
      some { s with writers := fun dw => dwMoveInput t (dropped dw) (s.writers dw) }
    else none
  | .reap dw now =>
    let w := s.writers dw
    if s.reaper = .idle ∧ w.reapTimer = true then
      -- the timer is no longer registered when its handler runs
      if hasPendingWrites w = false ∧ w.queuePending = false ∧ o.timeReap ≤ now - w.lastMsgStamp then
        some { s.setWriter dw { w with reapTimer := false } with reaper := .removing dw }
      else some (s.setWriter dw { w with reapTimer := true })
    else none
  | .remove =>
    match s.reaper with
    | .removing dw => (s.remove o dw).map fun s => { s with reaper := .deiniting dw }
    | _ => none
  | .deinit =>
    match s.reaper with
    | .deiniting dw => some { s.setWriter dw (dwDeinit (s.writers dw)) with reaper := .idle }
    | _ => none
  | .watch dw running =>
    let w := s.writers dw
    -- the main thread does it, when there is something to watch
    if s.reaper = .idle ∧ w.initialized = true ∧ w.opened = true then
      some (s.setWriter dw { w with watchesRunning := running })
    else none
  | .consume dw =>
    let w := s.writers dw
    -- in a job, while the watches are stopped
    if w.watchesRunning = false ∧ 0 < w.length then
      some (s.setWriter dw { w with length := w.length - 1 })
    else none

/-- The driver has been initialised and has no writers. -/
def fileDestStart (o : Options F) : FileDest F where
  singleWriter := none
  writerHash := fun _ => none
  writers := fun _ => { dwNew o.template with refs := 0 }
  created := 0
  sources := fun _ => .idle
  reaper := .idle

/-- The thread has looked the writer up and not yet forwarded its message. -/
def Source.OnWay (dw : Nat) (src : Source F) : Prop :=
  src = .entering dw ∨ src = .reopening dw ∨ src = .reopened dw ∨ src = .forwarding dw

/-- No thread looks a writer up that is being reaped, no thread clears `queue_pending` of a writer
that another thread is on its way to, and no writer is reaped with messages left in an input queue. -/
def Action.Meets (o : Options F) (s : FileDest F) : Action F → Prop
  | .lookUp _ filename => ∀ dw, s.find o filename = some dw → s.reaper ≠ .removing dw
  | .clear t =>
    ∀ dw t', s.sources t = .forwarded dw → t' ≠ t → ¬ (s.sources t').OnWay dw
  | .reap dw now =>
    hasPendingWrites (s.writers dw) = false → (s.writers dw).queuePending = false →
      o.timeReap ≤ now - (s.writers dw).lastMsgStamp → ∀ t, (s.writers dw).input t = 0
  | _ => True

def Next (o : Options F) (s : FileDest F) (action : Action F) (s' : FileDest F) : Prop :=
  step o s action = some s' ∧ action.Meets o s

end SyslogNg.AffileDest
