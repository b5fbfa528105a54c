import SyslogNg.Lib.CInt
import Mathlib.Logic.Function.Basic

/-!
# The memory queue (`lib/logqueue-fifo.c`)

Items flow from the per-thread input lists to the wait list and from there to the output
list; an item popped with `push_to_backlog` moves to the backlog until it is acked or
rewound. Every list has its own length counter, and the code reads the counters, not the
lists: `guint16` for an input list, `gint` for the others.

An operation returns `none` where the code aborts in a `g_assert` or takes the first entry
of an empty list. `log_queue_fifo_get_length` reads `qoverflow_output_len` without holding
the lock of the output thread, so in the input threads the value read is an argument
(`outputLen`) and may be anything.
-/

namespace SyslogNg.LogQueue

open Lib

/-- `LogMessageQueueNode`: the message and the `ack_needed` of its path options. -/
structure LogMessageQueueNode (M : Type) where
  msg : M
  ackNeeded : Bool
  deriving DecidableEq

structure QoverflowInput (M : Type) where
  items : List (LogMessageQueueNode M)
  len : Nat
  finishCbRegistered : Bool

/-- A statistics counter; `none` is the `NULL` of a counter that is not registered. -/
abbrev StatsCounterItem := Option Int

def statsCounterAdd (counter : StatsCounterItem) (add : Int) : StatsCounterItem :=
  counter.map fun v => wrap32 (v + add)

/-- `LogQueueFifo` with the members of `LogQueue` it uses. `parallelPushNotify` is the limit of
the notification the output thread waits for; it is `none` while that thread works. -/
structure LogQueueFifo (M : Type) where
  throttle : Int
  throttleBuckets : Int
  storedMessages : StatsCounterItem
  droppedMessages : StatsCounterItem
  parallelPushNotify : Option Int
  qoverflowOutput : List (LogMessageQueueNode M)
  qoverflowWait : List (LogMessageQueueNode M)
  qoverflowWaitLen : Int
  qoverflowOutputLen : Int
  qoverflowSize : Int
  qbacklog : List (LogMessageQueueNode M)
  qbacklogLen : Int
  qoverflowInput : Nat → QoverflowInput M

variable {M : Type}

def logQueueFifoNew (qoverflowSize : Int) (storedMessages droppedMessages : StatsCounterItem) :
    LogQueueFifo M where
  throttle := 0
  throttleBuckets := 0
  storedMessages := storedMessages
  droppedMessages := droppedMessages
  parallelPushNotify := none
  qoverflowOutput := []
  qoverflowWait := []
  qoverflowWaitLen := 0
  qoverflowOutputLen := 0
  qoverflowSize := qoverflowSize
  qbacklog := []
  qbacklogLen := 0
  qoverflowInput := fun _ => ⟨[], 0, false⟩

def logQueueSetThrottle (self : LogQueueFifo M) (throttle : Int) : LogQueueFifo M :=
  { self with throttle := throttle, throttleBuckets := throttle }

/-- `log_queue_fifo_get_length`, with the value read from `qoverflow_output_len`. -/
def logQueueFifoGetLength (self : LogQueueFifo M) (outputLen : Int) : Int :=
  wrap32 (self.qoverflowWaitLen + outputLen)

/-- `log_queue_push_notify`: the callback is forgotten once it has been called. -/
def logQueuePushNotify (self : LogQueueFifo M) (outputLen : Int) : LogQueueFifo M :=
  match self.parallelPushNotify with
  | some limit =>
    if logQueueFifoGetLength self outputLen ≥ limit then
      { self with parallelPushNotify := none }
    else self
  | none => self

/-- The drop loop of `log_queue_fifo_move_input_unlocked`: `n` nodes leave the front of the
input list, each counted in `dropped_messages` and given to `log_msg_drop`. -/
def dropInput : Nat → QoverflowInput M → StatsCounterItem →
    Option (QoverflowInput M × StatsCounterItem × List (LogMessageQueueNode M))
  | 0, input, counter => some (input, counter, [])
  | n + 1, input, counter =>
    match input.items with
    | [] => none
    | node :: items =>
      (dropInput n { input with items := items, len := (input.len + (2 ^ 16 - 1)) % 2 ^ 16 }
        (statsCounterAdd counter 1)).map fun r => (r.1, r.2.1, node :: r.2.2)

/-- The number of nodes `log_queue_fifo_move_input_unlocked` drops. -/
def moveInputDrops (self : LogQueueFifo M) (threadId : Nat) (outputLen : Int) : Nat :=
  let queueLen := logQueueFifoGetLength self outputLen
  let len : Int := (self.qoverflowInput threadId).len
  if wrap32 (queueLen + len) > self.qoverflowSize then
    (wrap32 (len - max 0 (wrap32 (self.qoverflowSize - queueLen)))).toNat
  else 0

/-- `log_queue_fifo_move_input_unlocked`, with the dropped nodes. -/
def logQueueFifoMoveInputUnlocked (self : LogQueueFifo M) (threadId : Nat) (outputLen : Int) :
    Option (LogQueueFifo M × List (LogMessageQueueNode M)) :=
  (dropInput (moveInputDrops self threadId outputLen) (self.qoverflowInput threadId)
    self.droppedMessages).map fun (input, counter, dropped) =>
      ({ self with
          droppedMessages := counter
          storedMessages := statsCounterAdd self.storedMessages input.len
          qoverflowWait := self.qoverflowWait ++ input.items
          qoverflowWaitLen := wrap32 (self.qoverflowWaitLen + input.len)
          qoverflowInput :=
            Function.update self.qoverflowInput threadId { input with items := [], len := 0 } },
        dropped)

/-- `log_queue_fifo_move_input`, run by the worker `threadId` when it finishes its job. The
length is read once for the overflow check and once more for the notification. -/
def logQueueFifoMoveInput (self : LogQueueFifo M) (threadId : Nat) (outputLen notifyLen : Int) :
    Option (LogQueueFifo M × List (LogMessageQueueNode M)) :=
  (logQueueFifoMoveInputUnlocked self threadId outputLen).map fun (self, dropped) =>
    let self := logQueuePushNotify self notifyLen
    let input := self.qoverflowInput threadId
    ({ self with
        qoverflowInput :=
          Function.update self.qoverflowInput threadId { input with finishCbRegistered := false } },
      dropped)

/-- `log_queue_fifo_push_tail`: `threadId` is `none` outside the worker threads. The message
is returned among the dropped ones when the queue is full. -/
def logQueueFifoPushTail (logQueueMaxThreads : Nat) (self : LogQueueFifo M)
    (threadId : Option Nat) (node : LogMessageQueueNode M) (outputLen notifyLen : Int) :
    Option (LogQueueFifo M × List (LogMessageQueueNode M)) :=
  match threadId with
  | some t =>
    if t < logQueueMaxThreads then
      let input := self.qoverflowInput t
      some ({ self with
          qoverflowInput := Function.update self.qoverflowInput t
            { items := input.items ++ [node]
              len := (input.len + 1) % 2 ^ 16
              finishCbRegistered := true } }, [])
    else none
  | none =>
    if logQueueFifoGetLength self outputLen < self.qoverflowSize then
      let self := logQueuePushNotify
        { self with
            qoverflowWait := self.qoverflowWait ++ [node]
            qoverflowWaitLen := wrap32 (self.qoverflowWaitLen + 1) } notifyLen
      some ({ self with storedMessages := statsCounterAdd self.storedMessages 1 }, [])
    else
      some ({ self with droppedMessages := statsCounterAdd self.droppedMessages 1 }, [node])

def logQueueFifoPushHead (self : LogQueueFifo M) (node : LogMessageQueueNode M) :
    Option (LogQueueFifo M) :=
  if self.parallelPushNotify.isSome then none
  else some { self with
    qoverflowOutput := node :: self.qoverflowOutput
    qoverflowOutputLen := wrap32 (self.qoverflowOutputLen + 1)
    storedMessages := statsCounterAdd self.storedMessages 1 }

/-- The slow path of `log_queue_fifo_pop_head`: an empty output list takes the wait list. -/
def popHeadRefill (self : LogQueueFifo M) : LogQueueFifo M :=
  if self.qoverflowOutputLen = 0 then
    { self with
        qoverflowOutput := self.qoverflowOutput ++ self.qoverflowWait
        qoverflowWait := []
        qoverflowOutputLen := self.qoverflowWaitLen
        qoverflowWaitLen := 0 }
  else self

/-- `log_queue_fifo_pop_head`: the popped node, or `none` inside when it returns `FALSE`. -/
def logQueueFifoPopHead (self : LogQueueFifo M) (pushToBacklog ignoreThrottle : Bool) :
    Option (LogQueueFifo M × Option (LogMessageQueueNode M)) :=
  if self.parallelPushNotify.isSome then none
  else if !ignoreThrottle && self.throttle ≠ 0 && self.throttleBuckets = 0 then
    some (self, none)
  else
    let self := popHeadRefill self
    if self.qoverflowOutputLen > 0 then
      match self.qoverflowOutput with
      | [] => none
      | node :: rest =>
        let self := { self with
          qoverflowOutput := rest
          qoverflowOutputLen := self.qoverflowOutputLen - 1
          storedMessages := statsCounterAdd self.storedMessages (-1)
          throttleBuckets :=
            if !ignoreThrottle && self.throttleBuckets > 0 then self.throttleBuckets - 1
            else self.throttleBuckets }
        if pushToBacklog then
          some ({ self with
            qbacklog := self.qbacklog ++ [node]
            qbacklogLen := wrap32 (self.qbacklogLen + 1) }, some node)
        else some (self, some node)
    else some (self, none)

/-- The loop of `log_queue_fifo_ack_backlog`, with the acked nodes. -/
def ackBacklogLoop : Nat → LogQueueFifo M →
    Option (LogQueueFifo M × List (LogMessageQueueNode M))
  | 0, self => some (self, [])
  | n + 1, self =>
    if self.qbacklogLen > 0 then
      match self.qbacklog with
      | [] => none
      | node :: rest =>
        (ackBacklogLoop n { self with qbacklog := rest, qbacklogLen := self.qbacklogLen - 1 }).map
          fun r => (r.1, node :: r.2)
    else some (self, [])

def logQueueFifoAckBacklog (self : LogQueueFifo M) (n : Int) :
    Option (LogQueueFifo M × List (LogMessageQueueNode M)) :=
  if self.parallelPushNotify.isSome then none else ackBacklogLoop n.toNat self

/-- `log_queue_fifo_rewind_backlog`: the backlog goes behind what the output list holds. -/
def logQueueFifoRewindBacklog (self : LogQueueFifo M) : Option (LogQueueFifo M) :=
  if self.parallelPushNotify.isSome then none
  else some { self with
    qoverflowOutput := self.qoverflowOutput ++ self.qbacklog
    qbacklog := []
    qoverflowOutputLen := wrap32 (self.qoverflowOutputLen + self.qbacklogLen)
    storedMessages := statsCounterAdd self.storedMessages self.qbacklogLen
    qbacklogLen := 0 }

end SyslogNg.LogQueue
