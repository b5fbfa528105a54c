import SyslogNg.LogQueue.Fifo
import SyslogNg.Lib.Run
import Mathlib.Algebra.BigOperators.Group.Finset.Basic
import Mathlib.Logic.Function.Iterate

/-!
# Runs of the memory queue

A run interleaves the calls of worker threads, of other threads and of the output thread.
`FifoWorld` is the queue with the fate of the messages that left it: handed out by a pop
without backlog, acked from the backlog, or dropped. `held` counts a node in the lists of
the queue; together with the fates it always gives how often the node was pushed.
-/

namespace SyslogNg.LogQueue

open Lib List Function Option
open Option (map_eq_some_iff)

variable {M : Type}

inductive FifoOp (M : Type) where
  | pushTail (threadId : Option Nat) (node : LogMessageQueueNode M) (outputLen notifyLen : Int)
  | moveInput (threadId : Nat) (outputLen notifyLen : Int)
  | popHead (pushToBacklog ignoreThrottle : Bool)
  | pushHead (node : LogMessageQueueNode M)
  | ackBacklog (n : Int)
  | rewindBacklog
  | setThrottle (throttle : Int)

/-- The queue, what was pushed, every node `log_queue_fifo_pop_head` returned, and the nodes
that left the lists. -/
structure FifoWorld (M : Type) where
  queue : LogQueueFifo M
  pushed : List (LogMessageQueueNode M)
  returned : List (LogMessageQueueNode M)
  handedOut : List (LogMessageQueueNode M)
  acked : List (LogMessageQueueNode M)
  dropped : List (LogMessageQueueNode M)

def FifoWorld.new (qoverflowSize : Int) (storedMessages droppedMessages : StatsCounterItem) :
    FifoWorld M :=
  ⟨logQueueFifoNew qoverflowSize storedMessages droppedMessages, [], [], [], [], []⟩

section

variable [DecidableEq M]

/-- One call on the queue. The output thread only puts back what it was handed. -/
def fifoStep (maxThreads : Nat) (w : FifoWorld M) : FifoOp M → Option (FifoWorld M)
  | .pushTail t node outputLen notifyLen =>
    (logQueueFifoPushTail maxThreads w.queue t node outputLen notifyLen).map fun r =>
      { w with queue := r.1, pushed := w.pushed ++ [node], dropped := w.dropped ++ r.2 }
  | .moveInput t outputLen notifyLen =>
    if t < maxThreads then
      (logQueueFifoMoveInput w.queue t outputLen notifyLen).map fun r =>
        { w with queue := r.1, dropped := w.dropped ++ r.2 }
    else none
  | .popHead pushToBacklog ignoreThrottle =>
    (logQueueFifoPopHead w.queue pushToBacklog ignoreThrottle).map fun r =>
      { w with
          queue := r.1
          returned := w.returned ++ r.2.toList
          handedOut := if pushToBacklog then w.handedOut else w.handedOut ++ r.2.toList }
  | .pushHead node =>
    if node ∈ w.handedOut then
      (logQueueFifoPushHead w.queue node).map fun q =>
        { w with queue := q, handedOut := w.handedOut.erase node }
    else none
  | .ackBacklog n =>
    (logQueueFifoAckBacklog w.queue n).map fun r =>
      { w with queue := r.1, acked := w.acked ++ r.2 }
  | .rewindBacklog =>
    (logQueueFifoRewindBacklog w.queue).map fun q => { w with queue := q }
  | .setThrottle throttle => some { w with queue := logQueueSetThrottle w.queue throttle }

def FifoNext (maxThreads : Nat) (w : FifoWorld M) (op : FifoOp M) (w' : FifoWorld M) : Prop :=
  fifoStep maxThreads w op = some w'

end

/-! ## What the queue holds

`held` counts a node in all lists. Each operation is described by what it does to `held`,
and keeps every counter at most at the length of its list, so that the code never takes the
head of an empty list. -/

/-- One increment of a statistics counter. -/
def statsCounterInc (counter : StatsCounterItem) : StatsCounterItem := statsCounterAdd counter 1

/-- No counter is ahead of its list. -/
structure CountersLe (q : LogQueueFifo M) : Prop where
  wait : CountLe q.qoverflowWaitLen q.qoverflowWait.length
  output : CountLe q.qoverflowOutputLen q.qoverflowOutput.length
  backlog : CountLe q.qbacklogLen q.qbacklog.length
  input : ∀ t, (q.qoverflowInput t).len ≤ (q.qoverflowInput t).items.length ∧
    (q.qoverflowInput t).len < 2 ^ 16

theorem sum_range_update {A : Type} {n t : Nat} (ht : t < n) (f : Nat → A) (i : A) (g : A → Nat) :
    ∑ u ∈ Finset.range n, g (update f t i u) + g (f t) = ∑ u ∈ Finset.range n, g (f u) + g i := by
  have hmem : t ∈ Finset.range n := Finset.mem_range.2 ht
  have hrest : ∑ u ∈ (Finset.range n).erase t, g (update f t i u) =
      ∑ u ∈ (Finset.range n).erase t, g (f u) := by
    refine Finset.sum_congr rfl fun u hu => ?_
    rw [update_of_ne (Finset.ne_of_mem_erase hu)]
  rw [← Finset.add_sum_erase _ _ hmem, ← Finset.add_sum_erase _ (fun u => g (f u)) hmem,
    hrest, update_self]
  omega

section

variable [DecidableEq M]

/-- How often `x` is in the input lists. -/
def inputCount (maxThreads : Nat) (f : Nat → QoverflowInput M) (x : LogMessageQueueNode M) : Nat :=
  ∑ t ∈ Finset.range maxThreads, (f t).items.count x

/-- How often `x` is in the lists of the queue. -/
def LogQueueFifo.held (maxThreads : Nat) (q : LogQueueFifo M) (x : LogMessageQueueNode M) : Nat :=
  inputCount maxThreads q.qoverflowInput x + q.qoverflowWait.count x +
    q.qoverflowOutput.count x + q.qbacklog.count x

theorem inputCount_update {maxThreads t : Nat} (ht : t < maxThreads) (f : Nat → QoverflowInput M)
    (i : QoverflowInput M) (x : LogMessageQueueNode M) :
    inputCount maxThreads (update f t i) x + (f t).items.count x =
      inputCount maxThreads f x + i.items.count x :=
  sum_range_update ht f i fun j => j.items.count x

end

variable {dropped : List (LogMessageQueueNode M)}

theorem dropInput_spec {n : Nat} {input input' : QoverflowInput M} {c c' : StatsCounterItem}
    (h : dropInput n input c = some (input', c', dropped))
    (hlen : n ≤ input.len) (h16 : input.len < 2 ^ 16) :
    input.items = dropped ++ input'.items ∧ dropped.length = n ∧ input'.len = input.len - n ∧
      c' = statsCounterInc^[n] c := by
  induction n generalizing input c dropped with
  | zero =>
    simp only [dropInput, some.injEq, Prod.mk.injEq] at h
    obtain ⟨rfl, rfl, rfl⟩ := h
    simp
  | succ n ih =>
    rw [dropInput] at h
    split at h
    · cases h
    · rename_i node items hitems
      simp only [map_eq_some_iff] at h
      obtain ⟨⟨i, c1, d⟩, hd, heq⟩ := h
      simp only [Prod.mk.injEq] at heq
      obtain ⟨rfl, rfl, rfl⟩ := heq
      have hpred : (input.len + (2 ^ 16 - 1)) % 2 ^ 16 = input.len - 1 := by omega
      obtain ⟨h1, h2, h3, h4⟩ := ih hd (by simp only [hpred]; omega) (by simp only [hpred]; omega)
      simp only at h1
      refine ⟨by rw [hitems, h1]; rfl, by simp [h2], by simp only [h3, hpred]; omega, ?_⟩
      rw [h4, iterate_succ_apply]
      rfl

theorem dropInput_isSome {n : Nat} {input : QoverflowInput M} {c : StatsCounterItem}
    (h : n ≤ input.items.length) : (dropInput n input c).isSome := by
  induction n generalizing input c with
  | zero => rfl
  | succ n ih =>
    rw [dropInput]
    split
    · rename_i h0; simp [h0] at h
    · rename_i node items h0
      simp only [isSome_map]
      exact ih (by simp [h0] at h; exact h)

theorem moveInputDrops_le (q : LogQueueFifo M) (t : Nat) (outputLen : Int)
    (h16 : (q.qoverflowInput t).len < 2 ^ 16) :
    moveInputDrops q t outputLen ≤ (q.qoverflowInput t).len := by
  unfold moveInputDrops
  dsimp only
  split
  · have h := wrap32_range (q.qoverflowSize - logQueueFifoGetLength q outputLen)
    rw [wrap32_eq_self (x := _ - _) (by omega)]
    omega
  · omega

theorem logQueuePushNotify_eq (q : LogQueueFifo M) (notifyLen : Int) :
    ∃ p, (p = none ∨ p = q.parallelPushNotify) ∧
      logQueuePushNotify q notifyLen = { q with parallelPushNotify := p } := by
  unfold logQueuePushNotify
  split
  · split
    · exact ⟨none, .inl rfl, rfl⟩
    · exact ⟨q.parallelPushNotify, .inr rfl, rfl⟩
  · exact ⟨q.parallelPushNotify, .inr rfl, rfl⟩

/-! ## One lemma per operation: all it can do -/

variable {q' q : LogQueueFifo M} {r : Option (LogMessageQueueNode M)} {outputLen notifyLen : Int}
  {node : LogMessageQueueNode M} {ignoreThrottle pushToBacklog : Bool}

theorem moveInput_cases {t : Nat}
    (h16 : (q.qoverflowInput t).len < 2 ^ 16)
    (h : logQueueFifoMoveInput q t outputLen notifyLen = some (q', dropped)) :
    ∃ kept p, (q.qoverflowInput t).items = dropped ++ kept ∧
      dropped.length = moveInputDrops q t outputLen ∧
      (p = none ∨ p = q.parallelPushNotify) ∧
      q' = { q with
        parallelPushNotify := p
        storedMessages :=
          statsCounterAdd q.storedMessages ((q.qoverflowInput t).len - dropped.length : Nat)
        droppedMessages := statsCounterInc^[dropped.length] q.droppedMessages
        qoverflowWait := q.qoverflowWait ++ kept
        qoverflowWaitLen :=
          wrap32 (q.qoverflowWaitLen + ((q.qoverflowInput t).len - dropped.length : Nat))
        qoverflowInput := update q.qoverflowInput t ⟨[], 0, false⟩ } := by
  simp only [logQueueFifoMoveInput, logQueueFifoMoveInputUnlocked, map_eq_some_iff,
    Prod.exists, Prod.mk.injEq] at h
  obtain ⟨q1, d1, ⟨input, c, d, hd, rfl, rfl⟩, rfl, rfl⟩ := h
  obtain ⟨h1, h2, h3, h4⟩ := dropInput_spec hd (moveInputDrops_le q t outputLen h16) h16
  obtain ⟨p, hnone, hp⟩ := logQueuePushNotify_eq
    { q with
        droppedMessages := c
        storedMessages := statsCounterAdd q.storedMessages input.len
        qoverflowWait := q.qoverflowWait ++ input.items
        qoverflowWaitLen := wrap32 (q.qoverflowWaitLen + input.len)
        qoverflowInput :=
          update q.qoverflowInput t { input with items := [], len := 0 } } notifyLen
  refine ⟨input.items, p, h1, h2, hnone, ?_⟩
  rw [hp]
  simp [h2, h3, h4]

theorem pushTail_cases {maxThreads : Nat} {threadId : Option Nat}
    (h : logQueueFifoPushTail maxThreads q threadId node outputLen notifyLen = some (q', dropped)) :
    (∃ t, threadId = some t ∧ t < maxThreads ∧ dropped = [] ∧ q' = { q with
        qoverflowInput := update q.qoverflowInput t
          ⟨(q.qoverflowInput t).items ++ [node], ((q.qoverflowInput t).len + 1) % 2 ^ 16, true⟩ }) ∨
    (∃ p, threadId = none ∧ dropped = [] ∧ (p = none ∨ p = q.parallelPushNotify) ∧ q' = { q with
        parallelPushNotify := p
        qoverflowWait := q.qoverflowWait ++ [node]
        qoverflowWaitLen := wrap32 (q.qoverflowWaitLen + 1)
        storedMessages := statsCounterInc q.storedMessages }) ∨
    (threadId = none ∧ dropped = [node] ∧
      q' = { q with droppedMessages := statsCounterInc q.droppedMessages }) := by
  unfold logQueueFifoPushTail at h
  split at h
  · rename_i t
    split at h
    · rename_i ht
      simp only [some.injEq, Prod.mk.injEq] at h
      exact .inl ⟨t, rfl, ht, h.2.symm, h.1.symm⟩
    · cases h
  · split at h
    · simp only [some.injEq, Prod.mk.injEq] at h
      obtain ⟨p, hnone, hp⟩ := logQueuePushNotify_eq
        { q with
            qoverflowWait := q.qoverflowWait ++ [node]
            qoverflowWaitLen := wrap32 (q.qoverflowWaitLen + 1) } notifyLen
      rw [hp] at h
      exact .inr (.inl ⟨p, rfl, h.2.symm, hnone, h.1.symm⟩)
    · simp only [some.injEq, Prod.mk.injEq] at h
      exact .inr (.inr ⟨rfl, h.2.symm, h.1.symm⟩)

/-- The queue after the throttle bucket of a pop is taken. -/
def takeBucket (ignoreThrottle : Bool) (q : LogQueueFifo M) : Int :=
  if !ignoreThrottle && q.throttleBuckets > 0 then q.throttleBuckets - 1 else q.throttleBuckets

theorem popHead_cases (h : logQueueFifoPopHead q pushToBacklog ignoreThrottle = some (q', r)) :
    (r = none ∧ (q' = q ∨ q' = popHeadRefill q ∧ ¬ (popHeadRefill q).qoverflowOutputLen > 0)) ∨
    (∃ node rest, r = some node ∧ (popHeadRefill q).qoverflowOutputLen > 0 ∧
      (popHeadRefill q).qoverflowOutput = node :: rest ∧
      q' = { popHeadRefill q with
        qoverflowOutput := rest
        qoverflowOutputLen := (popHeadRefill q).qoverflowOutputLen - 1
        storedMessages := statsCounterAdd (popHeadRefill q).storedMessages (-1)
        throttleBuckets := takeBucket ignoreThrottle (popHeadRefill q)
        qbacklog := q.qbacklog ++ (if pushToBacklog then [node] else [])
        qbacklogLen := if pushToBacklog then wrap32 (q.qbacklogLen + 1) else q.qbacklogLen }) := by
  have hb : (popHeadRefill q).qbacklog = q.qbacklog ∧
      (popHeadRefill q).qbacklogLen = q.qbacklogLen := by
    unfold popHeadRefill; split <;> exact ⟨rfl, rfl⟩
  unfold logQueueFifoPopHead at h
  split at h
  · cases h
  split at h
  · simp only [some.injEq, Prod.mk.injEq] at h
    exact .inl ⟨h.2.symm, .inl h.1.symm⟩
  dsimp only at h
  split at h
  · rename_i hpos
    split at h
    · cases h
    · rename_i node rest hout
      refine .inr ⟨node, rest, ?_⟩
      cases pushToBacklog <;>
        simp only [Bool.false_eq_true, ↓reduceIte, some.injEq, Prod.mk.injEq] at h
      · refine ⟨h.2.symm, hpos, hout, ?_⟩
        rw [← h.1]
        simp [takeBucket, ← hb.1, ← hb.2]
      · refine ⟨h.2.symm, hpos, hout, ?_⟩
        rw [← h.1]
        simp [takeBucket, hb.1, hb.2]
  · rename_i hpos
    simp only [some.injEq, Prod.mk.injEq] at h
    exact .inl ⟨h.2.symm, .inr ⟨h.1.symm, hpos⟩⟩

theorem ackBacklogLoop_spec {n : Nat} {acked : List (LogMessageQueueNode M)}
    (h : ackBacklogLoop n q = some (q', acked)) :
    ∃ rest, q.qbacklog = acked ++ rest ∧
      q' = { q with qbacklog := rest, qbacklogLen := q.qbacklogLen - acked.length } ∧
      acked.length ≤ n ∧ (acked ≠ [] → acked.length ≤ q.qbacklogLen) := by
  induction n generalizing q acked with
  | zero =>
    simp only [ackBacklogLoop, some.injEq, Prod.mk.injEq] at h
    obtain ⟨rfl, rfl⟩ := h
    exact ⟨q.qbacklog, rfl, by simp, by simp, by simp⟩
  | succ n ih =>
    rw [ackBacklogLoop] at h
    split at h
    · rename_i hpos
      split at h
      · cases h
      · rename_i node rest hb
        simp only [map_eq_some_iff, Prod.exists, Prod.mk.injEq] at h
        obtain ⟨q1, acked1, hl, rfl, rfl⟩ := h
        obtain ⟨rest1, h1, h2, h3, h4⟩ := ih hl
        simp only at h1
        refine ⟨rest1, by rw [hb, h1]; rfl, ?_, by simp [h3], ?_⟩
        · rw [h2]
          simp only [length_cons, Nat.cast_add, Nat.cast_one]
          congr 1
          omega
        · intro _
          by_cases ha : acked1 = []
          · simp [ha]; omega
          · have := h4 ha
            simp only [length_cons] at this ⊢
            push_cast
            omega
    · simp only [some.injEq, Prod.mk.injEq] at h
      obtain ⟨rfl, rfl⟩ := h
      exact ⟨q.qbacklog, rfl, by simp, by simp, by simp⟩

/-! ## Conservation -/

theorem CountersLe.moveInput {t : Nat} (hq : CountersLe q)
    (h : logQueueFifoMoveInput q t outputLen notifyLen = some (q', dropped)) : CountersLe q' := by
  obtain ⟨kept, p, hitems, hlen, -, rfl⟩ := moveInput_cases (hq.input t).2 h
  have hle := (hq.input t).1
  have h16 := (hq.input t).2
  rw [hitems, length_append] at hle
  constructor
  · simp only [length_append]
    exact hq.wait.add (.ofNat (by omega) (by omega))
  · exact hq.output
  · exact hq.backlog
  · intro u
    by_cases hu : u = t
    · subst hu; simp
    · simpa [update_of_ne hu] using hq.input u

theorem CountersLe.pushTail {maxThreads : Nat} {threadId : Option Nat}
    (hq : CountersLe q)
    (h : logQueueFifoPushTail maxThreads q threadId node outputLen notifyLen = some (q', dropped)) :
    CountersLe q' := by
  obtain ⟨t, -, -, -, rfl⟩ | ⟨p, -, -, -, rfl⟩ | ⟨-, -, rfl⟩ := pushTail_cases h
  · refine ⟨hq.wait, hq.output, hq.backlog, fun u => ?_⟩
    by_cases hu : u = t
    · subst hu
      have := hq.input u
      simp only [update_self, length_append, length_singleton]
      omega
    · simpa [update_of_ne hu] using hq.input u
  · refine ⟨?_, hq.output, hq.backlog, hq.input⟩
    simp only [length_append, length_singleton]
    exact hq.wait.add (.ofNat (c := 1) (by omega) (by omega))
  · exact ⟨hq.wait, hq.output, hq.backlog, hq.input⟩

theorem CountersLe.popHeadRefill {q : LogQueueFifo M} (hq : CountersLe q) :
    CountersLe (popHeadRefill q) := by
  unfold LogQueue.popHeadRefill
  split
  · refine ⟨.zero _, ?_, hq.backlog, hq.input⟩
    have := hq.wait
    simp only [length_append]
    exact ⟨this.1, by have := this.2; push_cast; omega⟩
  · exact hq

theorem CountersLe.popHead (hq : CountersLe q)
    (h : logQueueFifoPopHead q pushToBacklog ignoreThrottle = some (q', r)) : CountersLe q' := by
  have hr := hq.popHeadRefill
  obtain ⟨-, rfl | ⟨rfl, -⟩⟩ | ⟨node, rest, -, hpos, hout, rfl⟩ := popHead_cases h
  · exact hq
  · exact hr
  · have hout' := hr.output
    rw [hout, length_cons, Nat.add_comm] at hout'
    refine ⟨hr.wait, hout'.sub (k := 1) (by omega), ?_, hr.input⟩
    cases pushToBacklog
    · simpa using hq.backlog
    · simp only [↓reduceIte, length_append, length_singleton]
      exact hq.backlog.add (.ofNat (c := 1) (by omega) (by omega))

theorem CountersLe.pushHead (hq : CountersLe q) (h : logQueueFifoPushHead q node = some q') :
    CountersLe q' := by
  unfold logQueueFifoPushHead at h
  split at h
  · cases h
  · cases h
    refine ⟨hq.wait, ?_, hq.backlog, hq.input⟩
    exact hq.output.add (.ofNat (c := 1) (by omega) (by omega))

theorem CountersLe.ackBacklog {n : Int} {acked : List (LogMessageQueueNode M)} (hq : CountersLe q)
    (h : logQueueFifoAckBacklog q n = some (q', acked)) : CountersLe q' := by
  unfold logQueueFifoAckBacklog at h
  split at h
  · cases h
  · obtain ⟨rest, hb, rfl, -, hle⟩ := ackBacklogLoop_spec h
    refine ⟨hq.wait, hq.output, ?_, hq.input⟩
    have hbl := hq.backlog
    rw [hb, length_append] at hbl
    by_cases ha : acked = []
    · simpa [ha] using hbl
    · exact hbl.sub (hle ha)

theorem CountersLe.rewindBacklog (hq : CountersLe q) (h : logQueueFifoRewindBacklog q = some q') :
    CountersLe q' := by
  unfold logQueueFifoRewindBacklog at h
  split at h
  · cases h
  · cases h
    refine ⟨hq.wait, ?_, .zero _, hq.input⟩
    simp only [length_append]
    exact hq.output.add hq.backlog

theorem popHead_droppedMessages (h : logQueueFifoPopHead q pushToBacklog ignoreThrottle = some (q', r)) :
    q'.droppedMessages = q.droppedMessages := by
  have hd : (popHeadRefill q).droppedMessages = q.droppedMessages := by
    unfold popHeadRefill; split <;> rfl
  obtain ⟨-, rfl | ⟨rfl, -⟩⟩ | ⟨node, rest, -, -, -, rfl⟩ := popHead_cases h
  · rfl
  · exact hd
  · exact hd

section

variable [DecidableEq M] {maxThreads : Nat}

/-- The messages pushed are exactly those in the lists and those that left the queue, and
`dropped_messages` was incremented once for each dropped one. -/
structure FifoInv (maxThreads : Nat) (counter : StatsCounterItem) (w : FifoWorld M) : Prop where
  counters : CountersLe w.queue
  conserved : ∀ x, w.pushed.count x = w.queue.held maxThreads x + w.handedOut.count x +
    w.acked.count x + w.dropped.count x
  droppedMessages : w.queue.droppedMessages = statsCounterInc^[w.dropped.length] counter

theorem fifoInv_new (qoverflowSize : Int) (stored dropped : StatsCounterItem) :
    FifoInv maxThreads dropped (FifoWorld.new (M := M) qoverflowSize stored dropped) := by
  refine ⟨⟨.zero _, .zero _, .zero _, fun _ => by simp [FifoWorld.new, logQueueFifoNew]⟩, ?_, rfl⟩
  intro x
  simp [FifoWorld.new, logQueueFifoNew, LogQueueFifo.held, inputCount]

theorem held_popHeadRefill (maxThreads : Nat) (q : LogQueueFifo M) (x : LogMessageQueueNode M) :
    (popHeadRefill q).held maxThreads x = q.held maxThreads x := by
  unfold popHeadRefill
  split
  · simp [LogQueueFifo.held, count_append]; omega
  · rfl

theorem held_popHead (maxThreads : Nat) {q q' : LogQueueFifo M} {pushToBacklog ignoreThrottle : Bool}
    {r : Option (LogMessageQueueNode M)}
    (h : logQueueFifoPopHead q pushToBacklog ignoreThrottle = some (q', r)) (x : LogMessageQueueNode M) :
    q'.held maxThreads x + (if pushToBacklog then [] else r.toList).count x =
      q.held maxThreads x := by
  have hb : (popHeadRefill q).qbacklog = q.qbacklog := by
    unfold popHeadRefill; split <;> rfl
  have hh := held_popHeadRefill maxThreads q x
  obtain ⟨rfl, rfl | ⟨rfl, -⟩⟩ | ⟨node, rest, rfl, -, hout, rfl⟩ := popHead_cases h
  · simp
  · simp [hh]
  · simp only [LogQueueFifo.held, hout, hb] at hh ⊢
    cases pushToBacklog <;> simp [count_cons] at hh ⊢ <;> omega

theorem fifoInv_step {counter : StatsCounterItem} {w w' : FifoWorld M} {op : FifoOp M}
    (h : FifoNext maxThreads w op w') (hw : FifoInv maxThreads counter w) :
    FifoInv maxThreads counter w' := by
  obtain ⟨hc, hcons, hdrop⟩ := hw
  unfold FifoNext at h
  cases op with
  | pushTail threadId node outputLen notifyLen =>
    simp only [fifoStep, map_eq_some_iff, Prod.exists] at h
    obtain ⟨q, dropped, hp, rfl⟩ := h
    refine ⟨hc.pushTail hp, fun x => ?_, ?_⟩
    · have := hcons x
      obtain ⟨t, -, ht, rfl, rfl⟩ | ⟨p, -, rfl, -, rfl⟩ | ⟨-, rfl, rfl⟩ := pushTail_cases hp
      · have hu := inputCount_update ht w.queue.qoverflowInput
          ⟨(w.queue.qoverflowInput t).items ++ [node], ((w.queue.qoverflowInput t).len + 1) % 2 ^ 16,
            true⟩ x
        simp only [LogQueueFifo.held, count_append, count_nil] at this hu ⊢
        omega
      · simp only [LogQueueFifo.held, count_append, count_nil] at this ⊢
        omega
      · simp only [LogQueueFifo.held, count_append] at this ⊢
        omega
    · obtain ⟨t, -, -, rfl, rfl⟩ | ⟨p, -, rfl, -, rfl⟩ | ⟨-, rfl, rfl⟩ := pushTail_cases hp
      · simpa using hdrop
      · simpa using hdrop
      · simp [hdrop, iterate_succ_apply']
  | moveInput t outputLen notifyLen =>
    simp only [fifoStep] at h
    split at h
    · rename_i ht
      simp only [map_eq_some_iff, Prod.exists] at h
      obtain ⟨q, dropped, hp, rfl⟩ := h
      refine ⟨hc.moveInput hp, fun x => ?_, ?_⟩
      · have := hcons x
        obtain ⟨kept, p, hitems, -, -, rfl⟩ := moveInput_cases (hc.input t).2 hp
        have hu := inputCount_update ht w.queue.qoverflowInput ⟨[], 0, false⟩ x
        rw [hitems] at hu
        simp only [LogQueueFifo.held, count_append, count_nil] at this hu ⊢
        omega
      · obtain ⟨kept, p, -, -, -, rfl⟩ := moveInput_cases (hc.input t).2 hp
        simp only [length_append]
        rw [Nat.add_comm, iterate_add_apply, ← hdrop]
    · cases h
  | popHead pushToBacklog ignoreThrottle =>
    simp only [fifoStep, map_eq_some_iff, Prod.exists] at h
    obtain ⟨q, r, hp, rfl⟩ := h
    refine ⟨hc.popHead hp, fun x => ?_, ?_⟩
    · have h1 := held_popHead maxThreads hp x
      have h2 := hcons x
      cases pushToBacklog <;> simp at h1 ⊢ <;> omega
    · exact (popHead_droppedMessages hp).trans hdrop
  | pushHead node =>
    simp only [fifoStep] at h
    split at h
    · rename_i hmem
      simp only [map_eq_some_iff] at h
      obtain ⟨q, hp, rfl⟩ := h
      have hcq := hc.pushHead hp
      unfold logQueueFifoPushHead at hp
      split at hp
      · cases hp
      · cases hp
        refine ⟨hcq, fun x => ?_, hdrop⟩
        have h1 := hcons x
        have h2 := count_pos_iff.2 hmem
        simp only [LogQueueFifo.held, count_cons, count_erase] at h1 ⊢
        by_cases hx : node = x
        · subst hx; simp; omega
        · simp [hx]; omega
    · cases h
  | ackBacklog n =>
    simp only [fifoStep, map_eq_some_iff, Prod.exists] at h
    obtain ⟨q, acked, hp, rfl⟩ := h
    have hcq := hc.ackBacklog hp
    unfold logQueueFifoAckBacklog at hp
    split at hp
    · cases hp
    · obtain ⟨rest, hb, rfl, -⟩ := ackBacklogLoop_spec hp
      refine ⟨hcq, fun x => ?_, hdrop⟩
      have := hcons x
      simp only [LogQueueFifo.held, hb, count_append] at this ⊢
      omega
  | rewindBacklog =>
    simp only [fifoStep, map_eq_some_iff] at h
    obtain ⟨q, hp, rfl⟩ := h
    have hcq := hc.rewindBacklog hp
    unfold logQueueFifoRewindBacklog at hp
    split at hp
    · cases hp
    · cases hp
      refine ⟨hcq, fun x => ?_, hdrop⟩
      have := hcons x
      simp only [LogQueueFifo.held, count_append, count_nil] at this ⊢
      omega
  | setThrottle =>
    cases h
    exact ⟨⟨hc.wait, hc.output, hc.backlog, hc.input⟩, hcons, hdrop⟩

end

end SyslogNg.LogQueue
