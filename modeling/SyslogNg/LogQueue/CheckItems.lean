import SyslogNg.LogQueue.FifoRun
import SyslogNg.DbParser.PatternDb

/-!
# The consumer's side of a queue (`lib/logqueue.c`)

`log_queue_check_items` asks whether a batch is there. When there is not, it leaves a callback
in the queue, and the push or move that completes the batch calls it; when there is, it refills
the buckets that `log_queue_pop_head` draws from. `LogQueue` is the memory queue with the
members of the base class that these calls use.

`log_queue_push_notify` takes the callback out of the queue under the lock, and calls it only
after it dropped the lock. So a push or move returns the callback it took, and whoever runs it
decides what other threads do in between. The functions that `log_queue_check_items` calls under
the lock are part of its result.
-/

namespace SyslogNg.LogQueue

open Lib
open DbParser (GTimeVal)
open DbParser.PatternDB (timeValDiff)

/-- A callback as it is handed over: `parallel_push_notify`, `user_data` and
`user_data_destroy`; `none` is `NULL`. -/
structure Callback (F U D : Type) where
  parallelPushNotify : Option F
  userData : Option U
  userDataDestroy : Option D

/-- `LogQueue` over `LogQueueFifo`. The limit of the notification is in the memory queue and
stands there exactly while `callback.parallelPushNotify` is set. -/
structure LogQueue (M F U D : Type) where
  fifo : LogQueueFifo M
  lastThrottleCheck : GTimeVal
  callback : Callback F U D

variable {M F U D : Type}

/-- `log_queue_init_instance` and `log_queue_set_throttle` on a queue of zeros. -/
def logQueueNew (qoverflowSize throttle : Int) (storedMessages droppedMessages : StatsCounterItem) :
    LogQueue M F U D where
  fifo := logQueueSetThrottle (logQueueFifoNew qoverflowSize storedMessages droppedMessages) throttle
  lastThrottleCheck := ⟨0, 0⟩
  callback := ⟨none, none, none⟩

/-- `log_queue_get_length` in the output thread, or under the lock while that thread waits. -/
def logQueueGetLength (self : LogQueue M F U D) : Int :=
  logQueueFifoGetLength self.fifo self.fifo.qoverflowOutputLen

/-- The reference to `user_data` that goes with a callback, with the function to release it. -/
def Callback.reference (c : Callback F U D) : Option (D × U) :=
  match c.userDataDestroy, c.userData with
  | some d, some u => some (d, u)
  | _, _ => none

/-- The callback is stored with its limit. -/
def LogQueue.register (self : LogQueue M F U D) (limit : Int) (c : Callback F U D) :
    LogQueue M F U D :=
  { self with
    fifo := { self.fifo with parallelPushNotify := c.parallelPushNotify.map fun _ => limit }
    callback := c }

/-- The function and its data are taken away; `parallel_push_data_destroy` stays. -/
def LogQueue.forget (self : LogQueue M F U D) : LogQueue M F U D :=
  { self with
    fifo := { self.fifo with parallelPushNotify := none }
    callback := { self.callback with parallelPushNotify := none, userData := none } }

def logQueueResetParallelPush (self : LogQueue M F U D) : LogQueue M F U D := self.forget

def logQueueSetParallelPush (self : LogQueue M F U D) (notifyLimit : Int) (c : Callback F U D) :
    LogQueue M F U D :=
  self.register notifyLimit c

/-- `log_queue_push_notify` has run on the memory queue, which is now `fifo`: where the limit is
gone, the callback was taken and all three of its members are `NULL`. -/
def LogQueue.notified (self : LogQueue M F U D) (fifo : LogQueueFifo M) :
    LogQueue M F U D × Option (Callback F U D) :=
  if self.fifo.parallelPushNotify.isSome && fifo.parallelPushNotify.isNone then
    ({ self with fifo := fifo, callback := ⟨none, none, none⟩ }, some self.callback)
  else ({ self with fifo := fifo }, none)

/-- The buckets that a clock reading `diff` microseconds after the last check earns, as a
`gint`. -/
def newBuckets (throttle diff : Int) : Int :=
  wrap32 (((throttle * diff).bmod (2 ^ 64)).tdiv 1000000)

/-- The recalculation of the buckets in `log_queue_check_items`. A `last_throttle_check` with
`tv_sec` 0 was never set. -/
def recalculateBuckets (self : LogQueue M F U D) (now : GTimeVal) : LogQueue M F U D :=
  let lastThrottleCheck :=
    if self.lastThrottleCheck.tvSec ≠ 0 then self.lastThrottleCheck else now
  let diff := timeValDiff now lastThrottleCheck
  let new := newBuckets self.fifo.throttle diff
  if new ≠ 0 then
    { self with
      fifo := { self.fifo with
        throttleBuckets := min self.fifo.throttle (wrap32 (self.fifo.throttleBuckets + new)) }
      lastThrottleCheck := now }
  else { self with lastThrottleCheck := lastThrottleCheck }

/-- What `log_queue_check_items` hands back: its value, what it wrote to `*partial_batch` and
`*timeout`, whether it read the clock, and the references it released. -/
structure CheckItems (D U : Type) where
  ready : Bool
  partialBatch : Option Bool
  timeout : Option Int
  readClock : Bool
  released : List (D × U)

/-- `log_queue_check_items`; `now` is what `g_get_current_time` says when it is asked. -/
def logQueueCheckItems (self : LogQueue M F U D) (batchItems : Int) (c : Callback F U D)
    (now : GTimeVal) : LogQueue M F U D × CheckItems D U :=
  let dropped := self.callback.reference.toList
  let numElements := logQueueGetLength self
  if numElements = 0 ∨ numElements < batchItems then
    (self.register (if numElements = 0 then 1 else batchItems) c,
      ⟨false, some (numElements ≠ 0), none, false, dropped⟩)
  else
    let released := dropped ++ c.reference.toList
    let self := self.forget
    if 0 < self.fifo.throttle then
      let self := recalculateBuckets self now
      if self.fifo.throttleBuckets = 0 then
        (self, ⟨false, none, some ((1000 : Int).tdiv self.fifo.throttle + 1), true, released⟩)
      else (self, ⟨true, none, none, true, released⟩)
    else (self, ⟨true, none, none, false, released⟩)

/-! ## One call -/

inductive QueueOp (M F U D : Type) where
  | checkItems (batchItems : Int) (callback : Callback F U D) (now : GTimeVal)
  | setParallelPush (notifyLimit : Int) (callback : Callback F U D)
  | resetParallelPush
  | pushTail (threadId : Option Nat) (node : LogMessageQueueNode M) (outputLen : Int)
  | moveInput (threadId : Nat) (outputLen : Int)
  | popHead (pushToBacklog ignoreThrottle : Bool)
  | pushHead (node : LogMessageQueueNode M)
  | ackBacklog (n : Int)
  | rewindBacklog

/-- What a call does outside the queue: the node it popped, the clock readings it took, the
callback it is about to call and the references it released. -/
structure Effect (M F U D : Type) where
  popped : Option (LogMessageQueueNode M) := none
  readings : List GTimeVal := []
  taken : Option (Callback F U D) := none
  released : List (D × U) := []

/-- One call on the queue; `none` when the code aborts. An input thread compares the length
with the size of the queue before it looks for a callback, at a moment when the output thread
may be at work, so it may read any `outputLen` there. -/
def queueStep (maxThreads : Nat) (self : LogQueue M F U D) :
    QueueOp M F U D → Option (LogQueue M F U D × Effect M F U D)
  | .checkItems batchItems c now =>
    let (self, result) := logQueueCheckItems self batchItems c now
    some (self, { readings := if result.readClock then [now] else [], released := result.released })
  | .setParallelPush notifyLimit c => some (logQueueSetParallelPush self notifyLimit c, {})
  | .resetParallelPush => some (logQueueResetParallelPush self, {})
  | .pushTail threadId node outputLen =>
    (logQueueFifoPushTail maxThreads self.fifo threadId node outputLen
      self.fifo.qoverflowOutputLen).map fun (fifo, _) =>
        let (self, taken) := self.notified fifo
        (self, { taken := taken })
  | .moveInput threadId outputLen =>
    if threadId < maxThreads then
      (logQueueFifoMoveInput self.fifo threadId outputLen self.fifo.qoverflowOutputLen).map
        fun (fifo, _) =>
          let (self, taken) := self.notified fifo
          (self, { taken := taken })
    else none
  | .popHead pushToBacklog ignoreThrottle =>
    (logQueueFifoPopHead self.fifo pushToBacklog ignoreThrottle).map fun (fifo, node) =>
      ({ self with fifo := fifo }, { popped := node })
  | .pushHead node =>
    (logQueueFifoPushHead self.fifo node).map fun fifo => ({ self with fifo := fifo }, {})
  | .ackBacklog n =>
    (logQueueFifoAckBacklog self.fifo n).map fun (fifo, _) => ({ self with fifo := fifo }, {})
  | .rewindBacklog =>
    (logQueueFifoRewindBacklog self.fifo).map fun fifo => ({ self with fifo := fifo }, {})

/-! ## What the calls leave alone

The calls on the lists keep the throttle, and only a pop that heeds the throttle draws from the
buckets. Only a push or a move that finds the limit reached takes the callback. -/

@[simp] theorem recalculateBuckets_callback (self : LogQueue M F U D) (now : GTimeVal) :
    (recalculateBuckets self now).callback = self.callback := by
  unfold recalculateBuckets
  dsimp only
  split <;> split <;> rfl

@[simp] theorem recalculateBuckets_parallelPushNotify (self : LogQueue M F U D) (now : GTimeVal) :
    (recalculateBuckets self now).fifo.parallelPushNotify = self.fifo.parallelPushNotify := by
  unfold recalculateBuckets
  dsimp only
  split <;> split <;> rfl

@[simp] theorem notified_fifo (self : LogQueue M F U D) (fifo : LogQueueFifo M) :
    (self.notified fifo).1.fifo = fifo := by
  unfold LogQueue.notified
  split <;> rfl

@[simp] theorem notified_lastThrottleCheck (self : LogQueue M F U D) (fifo : LogQueueFifo M) :
    (self.notified fifo).1.lastThrottleCheck = self.lastThrottleCheck := by
  unfold LogQueue.notified
  split <;> rfl

/-- A queue with its lists as they are now. -/
def LogQueueFifo.length (q : LogQueueFifo M) : Int := logQueueFifoGetLength q q.qoverflowOutputLen

theorem logQueuePushNotify_filter (q : LogQueueFifo M) (n : Int) :
    logQueuePushNotify q n = { q with
      parallelPushNotify := q.parallelPushNotify.filter fun limit =>
        logQueueFifoGetLength q n < limit } := by
  obtain ⟨_, _, _, _, p, _, _, _, _, _, _, _, _⟩ := q
  cases p with
  | none => rfl
  | some limit =>
    simp only [logQueuePushNotify, Option.filter_some, decide_eq_true_eq]
    split <;> rename_i h
    · rw [if_neg (by simpa [logQueueFifoGetLength] using h)]
    · rw [if_pos (by simpa [logQueueFifoGetLength] using h)]

/-- What a push or a move does to the members that the output thread works with. -/
structure Pushed (q q' : LogQueueFifo M) : Prop where
  throttle : q'.throttle = q.throttle
  throttleBuckets : q'.throttleBuckets = q.throttleBuckets
  notify : q'.parallelPushNotify = q.parallelPushNotify.filter (fun limit => q'.length < limit) ∨
    q'.parallelPushNotify = q.parallelPushNotify ∧ q'.length = q.length

variable {q q' : LogQueueFifo M} {dropped : List (LogMessageQueueNode M)}

theorem pushed_of_pushTail {maxThreads : Nat} {threadId : Option Nat} {node : LogMessageQueueNode M}
    {outputLen : Int}
    (h : logQueueFifoPushTail maxThreads q threadId node outputLen q.qoverflowOutputLen =
      some (q', dropped)) : Pushed q q' := by
  unfold logQueueFifoPushTail at h
  split at h
  · split at h
    · cases h
      exact ⟨rfl, rfl, .inr ⟨rfl, rfl⟩⟩
    · cases h
  · split at h
    · simp only [logQueuePushNotify_filter, Option.some.injEq, Prod.mk.injEq] at h
      obtain ⟨rfl, -⟩ := h
      exact ⟨rfl, rfl, .inl rfl⟩
    · cases h
      exact ⟨rfl, rfl, .inr ⟨rfl, rfl⟩⟩

theorem pushed_of_moveInput {threadId : Nat} {outputLen : Int}
    (h : logQueueFifoMoveInput q threadId outputLen q.qoverflowOutputLen = some (q', dropped)) :
    Pushed q q' := by
  simp only [logQueueFifoMoveInput, logQueueFifoMoveInputUnlocked, Option.map_map,
    Option.map_eq_some_iff, Prod.exists, Function.comp_apply, logQueuePushNotify_filter,
    Prod.mk.injEq] at h
  obtain ⟨input, counter, nodes, -, rfl, -⟩ := h
  exact ⟨rfl, rfl, .inl rfl⟩

variable {pushToBacklog ignoreThrottle : Bool}

theorem popHead_idle
    {r : LogQueueFifo M × Option (LogMessageQueueNode M)}
    (h : logQueueFifoPopHead q pushToBacklog ignoreThrottle = some r) : q.parallelPushNotify = none := by
  unfold logQueueFifoPopHead at h
  split at h
  · cases h
  · rename_i hidle
    simpa using hidle

@[simp] theorem popHeadRefill_throttle (q : LogQueueFifo M) : (popHeadRefill q).throttle = q.throttle := by
  unfold popHeadRefill
  split <;> rfl

@[simp] theorem popHeadRefill_throttleBuckets (q : LogQueueFifo M) :
    (popHeadRefill q).throttleBuckets = q.throttleBuckets := by
  unfold popHeadRefill
  split <;> rfl

@[simp] theorem popHeadRefill_parallelPushNotify (q : LogQueueFifo M) :
    (popHeadRefill q).parallelPushNotify = q.parallelPushNotify := by
  unfold popHeadRefill
  split <;> rfl

/-- What the calls of the output thread on the lists leave alone. -/
structure Handled (q q' : LogQueueFifo M) : Prop where
  throttle : q'.throttle = q.throttle
  idle : q.parallelPushNotify = none
  still_idle : q'.parallelPushNotify = none

theorem handled_of_popHead {node : Option (LogMessageQueueNode M)}
    (h : logQueueFifoPopHead q pushToBacklog ignoreThrottle = some (q', node)) : Handled q q' := by
  have hidle := popHead_idle h
  obtain ⟨-, rfl | ⟨rfl, -⟩⟩ | ⟨node, rest, -, -, -, rfl⟩ := popHead_cases h
  · exact ⟨rfl, hidle, hidle⟩
  · exact ⟨by simp, hidle, by simpa using hidle⟩
  · exact ⟨by simp, hidle, by simpa using hidle⟩

theorem handled_of_pushHead {node : LogMessageQueueNode M} (h : logQueueFifoPushHead q node = some q') :
    Handled q q' ∧ q'.throttleBuckets = q.throttleBuckets := by
  unfold logQueueFifoPushHead at h
  split at h
  · cases h
  · rename_i hidle
    cases h
    exact ⟨⟨rfl, by simpa using hidle, by simpa using hidle⟩, rfl⟩

theorem handled_of_ackBacklog {n : Int} {acked : List (LogMessageQueueNode M)}
    (h : logQueueFifoAckBacklog q n = some (q', acked)) :
    Handled q q' ∧ q'.throttleBuckets = q.throttleBuckets := by
  unfold logQueueFifoAckBacklog at h
  split at h
  · cases h
  · rename_i hidle
    obtain ⟨rest, -, rfl, -⟩ := ackBacklogLoop_spec h
    exact ⟨⟨rfl, by simpa using hidle, by simpa using hidle⟩, rfl⟩

theorem handled_of_rewindBacklog (h : logQueueFifoRewindBacklog q = some q') :
    Handled q q' ∧ q'.throttleBuckets = q.throttleBuckets := by
  unfold logQueueFifoRewindBacklog at h
  split at h
  · cases h
  · rename_i hidle
    cases h
    exact ⟨⟨rfl, by simpa using hidle, by simpa using hidle⟩, rfl⟩

end SyslogNg.LogQueue
