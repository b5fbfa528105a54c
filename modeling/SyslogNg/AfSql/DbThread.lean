import SyslogNg.LogQueue.FifoRun

/-!
# The database thread of the SQL destination (`modules/afsql/afsql.c`)

The thread takes messages off the queue and inserts them one by one. With explicit commits a
message is popped into the backlog, its INSERT is part of a transaction, and the backlog is
acked at the COMMIT; without them every INSERT is a transaction of its own.

A step of the thread ends where the source asks the database something or waits, `ThreadAt`
says where that is, and the answer of the database is the label of the next step. In between
other threads queue messages. The database drops the inserts of a transaction whose COMMIT
failed or whose connection was closed.
-/

namespace SyslogNg.AfSql

open Lib LogQueue

variable {M : Type}

/-- The members of `AFSqlDestDriver` that decide what happens to a message. `oracle` is whether
`type` is `"oracle"`. The counter `dropped_messages` is that of the queue
(`log_queue_set_counters`). -/
structure AFSqlDestDriver (M : Type) where
  oracle : Bool
  explicitCommits : Bool
  numRetries : Int
  flushLines : Int
  flushTimeout : Int
  flushLinesQueued : Int
  failedMessageCounter : Nat
  dbThreadTerminate : Bool
  dbThreadSuspended : Bool
  queue : LogQueueFifo M

/-- The settings of a driver, with the defaults of the configuration already filled in. -/
structure SqlOptions where
  oracle : Bool
  explicitCommits : Bool
  numRetries : Int
  flushLines : Int
  flushTimeout : Int
  logFifoSize : Int
  throttle : Int

/-- Are the inserts counted and committed from time to time? -/
def SqlOptions.batches (o : SqlOptions) : Bool :=
  o.explicitCommits && (o.flushLines > 0 || o.flushTimeout > 0)

/-- `afsql_dd_new` followed by `afsql_dd_init`. -/
def afsqlDdInit (o : SqlOptions) (storedMessages droppedMessages : StatsCounterItem) :
    AFSqlDestDriver M where
  oracle := o.oracle
  explicitCommits := o.explicitCommits
  numRetries := o.numRetries
  flushLines := o.flushLines
  flushTimeout := o.flushTimeout
  flushLinesQueued := if o.batches then 0 else -1
  failedMessageCounter := 0
  dbThreadTerminate := false
  dbThreadSuspended := false
  queue := logQueueSetThrottle (logQueueFifoNew o.logFifoSize storedMessages droppedMessages)
    o.throttle

/-- Where the database thread is. `commitIdle`, `commitFull` and `commitLast` are the three calls
of `afsql_dd_commit_txn`: in a wait that timed out, after the last INSERT that fits in, and when
the thread finishes. -/
inductive ThreadAt (M : Type) where
  | loop
  | suspendedWait
  | wait (timed : Bool)
  | commitIdle
  | terminateCheck
  | insertDb
  | validateTable (node : LogMessageQueueNode M)
  | beginTxn (node : LogMessageQueueNode M)
  | runInsert (node : LogMessageQueueNode M)
  | commitFull (node : LogMessageQueueNode M)
  | commitLast
  | finished

/-- The message `afsql_dd_insert_db` has popped and not inserted yet. -/
def ThreadAt.current : ThreadAt M → List (LogMessageQueueNode M)
  | .validateTable node | .beginTxn node | .runInsert node => [node]
  | _ => []

/-- The driver, its thread and the database: `inserted` by the open transaction and
`permanent`. `pushed`, `acked` and `dropped` are the messages that came in and that left. -/
structure SqlWorld (M : Type) where
  self : AFSqlDestDriver M
  threadAt : ThreadAt M
  inserted : List (LogMessageQueueNode M)
  permanent : List (LogMessageQueueNode M)
  pushed : List (LogMessageQueueNode M)
  acked : List (LogMessageQueueNode M)
  dropped : List (LogMessageQueueNode M)

def SqlWorld.new (o : SqlOptions) (storedMessages droppedMessages : StatsCounterItem) :
    SqlWorld M :=
  ⟨afsqlDdInit o storedMessages droppedMessages, .loop, [], [], [], [], []⟩

def SqlWorld.goto (w : SqlWorld M) (threadAt : ThreadAt M) : SqlWorld M :=
  { w with threadAt := threadAt }

def SqlWorld.setQueue (w : SqlWorld M) (queue : LogQueueFifo M) : SqlWorld M :=
  { w with self := { w.self with queue := queue } }

def logQueueResetParallelPush (queue : LogQueueFifo M) : LogQueueFifo M :=
  { queue with parallelPushNotify := none }

def logQueueSetParallelPush (queue : LogQueueFifo M) (notifyLimit : Int) : LogQueueFifo M :=
  { queue with parallelPushNotify := some notifyLimit }

/-- What `afsql_dd_commit_txn` does once the COMMIT has been answered. -/
def afsqlDdCommitTxn (w : SqlWorld M) (success : Bool) : Option (SqlWorld M) :=
  let queue := logQueueResetParallelPush w.self.queue
  if success then
    (logQueueFifoAckBacklog queue w.self.flushLinesQueued).map fun (queue, acked) =>
      { w with
        self := { w.self with queue := queue, flushLinesQueued := 0 }
        inserted := []
        permanent := w.permanent ++ w.inserted
        acked := w.acked ++ acked }
  else
    (logQueueFifoRewindBacklog queue).map fun queue =>
      { w with
        self := { w.self with queue := queue, flushLinesQueued := 0 }
        inserted := [] }

def afsqlDdDisconnect (w : SqlWorld M) : SqlWorld M := { w with inserted := [] }

def afsqlDdSuspend (w : SqlWorld M) : SqlWorld M :=
  { w with self := { w.self with dbThreadSuspended := true } }

/-- The loop of `afsql_dd_database_thread` goes on after `afsql_dd_insert_db` (or the COMMIT of
an idle connection) returned `success`. -/
def nextRound (w : SqlWorld M) (success : Bool) (threadAt : ThreadAt M) : SqlWorld M :=
  if success then w.goto threadAt else (afsqlDdSuspend (afsqlDdDisconnect w)).goto .loop

/-- `afsql_dd_insert_fail_handler`, with the answer of `dbi_conn_ping`. `failed_message_counter`
is unsigned, so that `num_retries - 1` is compared as an unsigned number too. -/
def afsqlDdInsertFailHandler (w : SqlWorld M) (node : LogMessageQueueNode M) (ping : Bool) :
    Option (SqlWorld M × Bool) :=
  let self := w.self
  if self.failedMessageCounter < ((self.numRetries - 1) % 2 ^ 32).toNat then
    (logQueueFifoPushHead self.queue node).map fun queue =>
      ({ w with self := { self with
          queue := queue
          failedMessageCounter :=
            if ping then (self.failedMessageCounter + 1) % 2 ^ 32
            else self.failedMessageCounter } }, false)
  else
    some ({ w with
      self := { self with
        queue := { self.queue with
          droppedMessages := statsCounterAdd self.queue.droppedMessages 1 }
        failedMessageCounter := 0 }
      dropped := w.dropped ++ [node] }, true)

/-- `afsql_dd_insert_db` up to the validation of the table. -/
def afsqlDdInsertDb (w : SqlWorld M) : Option (SqlWorld M) :=
  (logQueueFifoPopHead (logQueueResetParallelPush w.self.queue) w.self.explicitCommits false).map
    fun (queue, node) =>
      match node with
      | none => (w.setQueue queue).goto .loop
      | some node => (w.setQueue queue).goto (.validateTable node)

/-- An INSERT was done: it is permanent, or part of the open transaction. -/
def insertDone (w : SqlWorld M) (node : LogMessageQueueNode M) : SqlWorld M :=
  if w.self.explicitCommits then { w with inserted := w.inserted ++ [node] }
  else { w with permanent := w.permanent ++ [node] }

/-- The end of `afsql_dd_insert_db`: the message is acked only if each INSERT is a separate
transaction. -/
def insertDbDone (w : SqlWorld M) (node : LogMessageQueueNode M) : SqlWorld M :=
  { w with
    self := { w.self with failedMessageCounter := 0 }
    acked := if w.self.explicitCommits then w.acked else w.acked ++ [node] }

def countInsert (w : SqlWorld M) : SqlWorld M :=
  if w.self.flushLinesQueued ≠ -1 then
    { w with self := { w.self with flushLinesQueued := wrap32 (w.self.flushLinesQueued + 1) } }
  else w

/-- `afsql_dd_insert_db` after an INSERT that was done. -/
def afterInsert (w : SqlWorld M) (node : LogMessageQueueNode M) : SqlWorld M :=
  let w := countInsert (insertDone w node)
  let self := w.self
  if self.flushLinesQueued ≠ -1 ∧ self.flushLines ≠ 0 ∧ self.flushLinesQueued = self.flushLines then
    w.goto (.commitFull node)
  else (insertDbDone w node).goto .loop

/-- What the database thread is told: to go on, that it was woken up, that its wait timed out,
or what the database answered. -/
inductive ThreadOp where
  | proceed
  | wakeup
  | timeout
  | answer (success ping : Bool)

/-- One step of the database thread. `none` also stands for an assertion of the queue that
fails. `db_thread_terminate` stays set, so leaving the loop is left to its head. -/
def databaseThread (w : SqlWorld M) (op : ThreadOp) : Option (SqlWorld M) :=
  let self := w.self
  match w.threadAt, op with
  | .loop, .proceed =>
    if self.dbThreadTerminate then
      if self.flushLinesQueued > 0 then some (w.goto .commitLast)
      else some ((afsqlDdDisconnect w).goto .finished)
    else if self.dbThreadSuspended then some (w.goto .suspendedWait)
    else if logQueueFifoGetLength self.queue self.queue.qoverflowOutputLen = 0 then
      some (w.goto (.wait (self.flushLinesQueued > 0 && self.flushTimeout > 0)))
    else some (w.goto .terminateCheck)
  | .suspendedWait, .wakeup =>
    some ({ w with self := { self with dbThreadSuspended := false } }.goto .terminateCheck)
  | .suspendedWait, .timeout =>
    some ({ w with self := { self with dbThreadSuspended := false } }.goto .terminateCheck)
  | .wait _, .wakeup => some (w.goto .terminateCheck)
  | .wait true, .timeout => some (w.goto .commitIdle)
  | .commitIdle, .answer success _ =>
    (afsqlDdCommitTxn w success).map fun w => nextRound w success .terminateCheck
  | .terminateCheck, .proceed =>
    if self.dbThreadTerminate then some (w.goto .loop) else some (w.goto .insertDb)
  | .insertDb, .proceed => afsqlDdInsertDb w
  | .validateTable node, .answer success ping =>
    if success then
      if self.flushLinesQueued = 0 ∧ ¬ self.oracle then some (w.goto (.beginTxn node))
      else some (w.goto (.runInsert node))
    else (afsqlDdInsertFailHandler w node ping).map fun (w, success) => nextRound w success .loop
  | .beginTxn node, .answer success _ => some (nextRound w success (.runInsert node))
  | .runInsert node, .answer success ping =>
    if success then some (afterInsert w node)
    else (afsqlDdInsertFailHandler w node ping).map fun (w, success) => nextRound w success .loop
  | .commitFull node, .answer success _ =>
    (afsqlDdCommitTxn w success).map fun w =>
      nextRound (if success then insertDbDone w node else w) success .loop
  | .commitLast, .answer success _ =>
    (afsqlDdCommitTxn w success).map fun w => (afsqlDdDisconnect w).goto .finished
  | _, _ => none

/-- A step of another thread, or of the database thread. -/
inductive SqlOp (M : Type) where
  | pushTail (threadId : Option Nat) (node : LogMessageQueueNode M) (outputLen notifyLen : Int)
  | moveInput (threadId : Nat) (outputLen notifyLen : Int)
  | setParallelPush (outputLen : Int)
  | resetParallelPush
  | stopThread
  | thread (op : ThreadOp)

/-- The other threads: `afsql_dd_queue` arms the notification of an empty queue and puts its
message to the tail, `afsql_dd_queue_notify` takes the notification back, and
`afsql_dd_stop_thread` asks the thread to finish. -/
def sqlStep (maxThreads : Nat) (w : SqlWorld M) : SqlOp M → Option (SqlWorld M)
  | .pushTail t node outputLen notifyLen =>
    (logQueueFifoPushTail maxThreads w.self.queue t node outputLen notifyLen).map fun r =>
      { w.setQueue r.1 with pushed := w.pushed ++ [node], dropped := w.dropped ++ r.2 }
  | .moveInput t outputLen notifyLen =>
    if t < maxThreads then
      (logQueueFifoMoveInput w.self.queue t outputLen notifyLen).map fun r =>
        { w.setQueue r.1 with dropped := w.dropped ++ r.2 }
    else none
  | .setParallelPush outputLen =>
    if logQueueFifoGetLength w.self.queue outputLen = 0 ∧ ¬ w.self.dbThreadSuspended then
      some (w.setQueue (logQueueSetParallelPush w.self.queue 1))
    else none
  | .resetParallelPush => some (w.setQueue (logQueueResetParallelPush w.self.queue))
  | .stopThread => some { w with self := { w.self with dbThreadTerminate := true } }
  | .thread op => databaseThread w op

def SqlNext (maxThreads : Nat) (w : SqlWorld M) (op : SqlOp M) (w' : SqlWorld M) : Prop :=
  sqlStep maxThreads w op = some w'

end SyslogNg.AfSql
