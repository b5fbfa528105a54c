import SyslogNg.AfSql.DbThread
import SyslogNg.LogQueue.FifoDelivery

/-!
# What the SQL destination does with a message

Towards the queue the driver is one more output thread: a message it popped without backlog is
in its hands until it is acked, put back or dropped. `SqlInv` adds what ties the queue to the
database: with explicit commits the backlog holds the inserts of the open transaction and then
the message in work, and `flush_lines_queued` counts the former.
-/

namespace SyslogNg.AfSql

open Lib LogQueue List
open Option (map_eq_some_iff map_some)

variable {M : Type}

def SqlWorld.inHand (w : SqlWorld M) : List (LogMessageQueueNode M) :=
  if w.self.explicitCommits then [] else w.threadAt.current

/-- The queue and what came of its messages, as the queue sees its users. -/
def SqlWorld.fifo (w : SqlWorld M) : FifoWorld M :=
  ⟨w.self.queue, w.pushed, [], w.inHand, w.acked, w.dropped⟩

section

variable [DecidableEq M] {maxThreads : Nat} {counter : StatsCounterItem}

/-- A message pushed once is in exactly one place, in the backlog only with its INSERT in the
open transaction or about to be made, acked only after its INSERT became permanent, and
permanent once. -/
structure SqlConsistent (maxThreads : Nat) (counter : StatsCounterItem) (w : SqlWorld M) :
    Prop where
  conserved : FifoConserved maxThreads counter w.fifo
  backlog : ∀ x, w.self.queue.qbacklog.count x ≤
    w.inserted.count x + w.threadAt.current.count x
  acked : ∀ x, w.acked.count x ≤ w.permanent.count x
  permanent : ∀ x, w.permanent.count x ≤ w.pushed.count x

def ThreadAt.Counts (flushLinesQueued : Int) : ThreadAt M → Prop
  | .commitIdle | .commitFull _ | .commitLast | .wait true => flushLinesQueued ≠ -1
  | .beginTxn _ => flushLinesQueued = 0
  | _ => True

structure SqlInv (maxThreads : Nat) (counter : StatsCounterItem) (w : SqlWorld M) : Prop where
  fifo : FifoInv maxThreads counter w.fifo
  settled : w.permanent = w.acked
  backlog : w.self.queue.qbacklog =
    if w.self.explicitCommits then w.inserted ++ w.threadAt.current else []
  backlogLen : w.self.queue.qbacklogLen = wrap32 w.self.queue.qbacklog.length
  queued : w.self.flushLinesQueued ≠ -1 → w.self.explicitCommits ∧
    w.self.flushLinesQueued = w.inserted.length ∧ w.self.flushLinesQueued < 2 ^ 31
  counts : w.threadAt.Counts w.self.flushLinesQueued

/-- The steps after which backlog and transaction are still in step. With explicit commits no
answer may be a failure before the message is inserted, a transaction must not outgrow the
counter, and where nothing is ever committed the thread must not finish with inserts pending. -/
def inStep (w : SqlWorld M) : SqlOp M → Bool
  | .thread op => !w.self.explicitCommits ||
    match w.threadAt, op with
    | .validateTable _, .answer success _ | .beginTxn _, .answer success _ => success
    | .runInsert _, .answer success _ => success && w.self.flushLinesQueued < 2 ^ 31 - 1
    | .loop, .proceed =>
      !w.self.dbThreadTerminate || w.self.flushLinesQueued ≠ -1 || w.inserted.isEmpty
    | _, _ => true
  | _ => true

/-! ## The queue under the driver -/

variable {q : LogQueueFifo M} {p r a d : List (LogMessageQueueNode M)} {success : Bool}

theorem fifoInv_setNotify {h : List (LogMessageQueueNode M)}
    (hi : FifoInv maxThreads counter ⟨q, p, r, h, a, d⟩) (notify : Option Int) :
    FifoInv maxThreads counter ⟨{ q with parallelPushNotify := notify }, p, r, h, a, d⟩ :=
  ⟨⟨hi.counters.wait, hi.counters.output, hi.counters.backlog, hi.counters.input⟩, hi.conserved,
    hi.droppedMessages⟩

theorem fifoInv_forget {h : List (LogMessageQueueNode M)}
    (hi : FifoInv maxThreads counter ⟨q, p, r, h, a, d⟩) : FifoInv maxThreads counter ⟨q, p, [], h, a, d⟩ :=
  ⟨hi.counters, hi.conserved, hi.droppedMessages⟩

theorem fifoInv_ack {node : LogMessageQueueNode M}
    (hi : FifoInv maxThreads counter ⟨q, p, r, [node], a, d⟩) :
    FifoInv maxThreads counter ⟨q, p, r, [], a ++ [node], d⟩ := by
  refine ⟨hi.counters, fun x => ?_, hi.droppedMessages⟩
  have := hi.conserved x
  simp only [count_append, count_nil] at this ⊢
  omega

theorem fifoInv_drop {node : LogMessageQueueNode M}
    (hi : FifoInv maxThreads counter ⟨q, p, r, [node], a, d⟩) :
    FifoInv maxThreads counter
      ⟨{ q with droppedMessages := statsCounterAdd q.droppedMessages 1 }, p, r, [], a,
        d ++ [node]⟩ := by
  refine ⟨⟨hi.counters.wait, hi.counters.output, hi.counters.backlog, hi.counters.input⟩, fun x => ?_, ?_⟩
  · have := hi.conserved x
    simp only [LogQueueFifo.held, count_append, count_nil] at this ⊢
    omega
  · have := hi.droppedMessages
    simp only at this
    simp only [this, length_append, length_singleton, Function.iterate_succ_apply']
    rfl

theorem ackBacklogLoop_all {n : Nat} (hlen : q.qbacklog.length = n) (hcount : q.qbacklogLen = n) :
    ackBacklogLoop n q = some ({ q with qbacklog := [], qbacklogLen := 0 }, q.qbacklog) := by
  induction n generalizing q with
  | zero =>
    rw [length_eq_zero_iff] at hlen
    obtain ⟨⟩ := q
    simp_all [ackBacklogLoop]
  | succ n ih =>
    obtain ⟨node, rest, hb⟩ := exists_cons_of_length_eq_add_one hlen
    have hrest : rest.length = n := by simpa [hb] using hlen
    rw [ackBacklogLoop, if_pos (by omega)]
    simp only [hb]
    rw [ih (q := { q with qbacklog := rest, qbacklogLen := q.qbacklogLen - 1 }) hrest
      (by simp only [hcount]; omega)]
    rfl

theorem ackBacklog_all (hn : q.parallelPushNotify = none) (hcount : q.qbacklogLen = q.qbacklog.length) :
    logQueueFifoAckBacklog q q.qbacklog.length =
      some ({ q with qbacklog := [], qbacklogLen := 0 }, q.qbacklog) := by
  rw [logQueueFifoAckBacklog, if_neg (by simp [hn]), Int.toNat_natCast]
  exact ackBacklogLoop_all rfl hcount

theorem rewindBacklog_eq {q' : LogQueueFifo M} (h : logQueueFifoRewindBacklog q = some q') :
    q'.qbacklog = [] ∧ q'.qbacklogLen = 0 := by
  unfold logQueueFifoRewindBacklog at h
  split at h
  · cases h
  · cases h
    exact ⟨rfl, rfl⟩

/-! ## One lemma per function of the driver -/

variable {w w' : SqlWorld M} {node : LogMessageQueueNode M} {t : ThreadAt M}

theorem SqlInv.goto (h : SqlInv maxThreads counter w)
    (hcur : t.current = w.threadAt.current) (hcounts : t.Counts w.self.flushLinesQueued) :
    SqlInv maxThreads counter (w.goto t) := by
  have hfifo : (w.goto t).fifo = w.fifo := by
    simp [SqlWorld.goto, SqlWorld.fifo, SqlWorld.inHand, hcur]
  refine ⟨hfifo ▸ h.fifo, h.settled, ?_, h.backlogLen, h.queued, hcounts⟩
  simpa [SqlWorld.goto, hcur] using h.backlog

theorem SqlInv.disconnect (h : SqlInv maxThreads counter w)
    (hins : w.self.explicitCommits → w.inserted = []) :
    SqlInv maxThreads counter (afsqlDdDisconnect w) := by
  refine ⟨h.fifo, h.settled, ?_, h.backlogLen, fun hq => ?_, h.counts⟩
  · have hb := h.backlog
    cases he : w.self.explicitCommits
    · simpa [he, afsqlDdDisconnect] using hb
    · simpa [he, afsqlDdDisconnect, hins he] using hb
  · obtain ⟨he, hlen, hlt⟩ := h.queued hq
    rw [hins he] at hlen
    exact ⟨he, hlen, hlt⟩

theorem SqlInv.nextRound (h : SqlInv maxThreads counter w)
    (hcur : success = true → t.current = w.threadAt.current)
    (hcounts : success = true → t.Counts w.self.flushLinesQueued)
    (hloop : success = false → w.threadAt.current = [])
    (hins : success = false → w.self.explicitCommits → w.inserted = []) :
    SqlInv maxThreads counter (nextRound w success t) := by
  cases success
  · have hd := h.disconnect (hins rfl)
    have hs : SqlInv maxThreads counter (afsqlDdSuspend (afsqlDdDisconnect w)) :=
      ⟨hd.fifo, hd.settled, hd.backlog, hd.backlogLen, hd.queued, hd.counts⟩
    exact hs.goto (hloop rfl).symm trivial
  · exact h.goto (hcur rfl) (hcounts rfl)

theorem ThreadAt.counts_zero : t.Counts 0 := by
  cases t <;> first | trivial | skip
  case wait timed => cases timed <;> simp [ThreadAt.Counts]
  all_goals simp [ThreadAt.Counts]

theorem SqlInv.commitTxn (h : SqlInv maxThreads counter w) (hcur : w.threadAt.current = [])
    (hq : w.self.flushLinesQueued ≠ -1) (hc : afsqlDdCommitTxn w success = some w') :
    SqlInv maxThreads counter w' ∧ w'.threadAt = w.threadAt ∧ w'.inserted = [] ∧ w'.self.explicitCommits := by
  obtain ⟨he, hlen, hlt⟩ := h.queued hq
  have hb : w.self.queue.qbacklog = w.inserted := by simpa [he, hcur] using h.backlog
  have hbl : w.self.queue.qbacklogLen = w.self.queue.qbacklog.length := by
    rw [h.backlogLen, hb]
    exact wrap32_eq_self (by omega)
  have hin : w.inHand = [] := by simp [SqlWorld.inHand, he]
  have hfifo : FifoInv maxThreads counter
      ⟨logQueueResetParallelPush w.self.queue, w.pushed, [], [], w.acked, w.dropped⟩ :=
    hin ▸ fifoInv_setNotify h.fifo none
  unfold afsqlDdCommitTxn at hc
  dsimp only at hc
  cases success
  · simp only [Bool.false_eq_true, ↓reduceIte, map_eq_some_iff] at hc
    obtain ⟨queue, hr, rfl⟩ := hc
    have hnext : FifoInv maxThreads counter ⟨queue, w.pushed, [], [], w.acked, w.dropped⟩ := by
      refine fifoInv_step (show FifoNext maxThreads _ .rewindBacklog _ from ?_) hfifo
      simp only [FifoNext, fifoStep, hr, map_some]
    obtain ⟨hb', hbl'⟩ := rewindBacklog_eq hr
    refine ⟨⟨?_, h.settled, ?_, ?_, fun _ => ⟨he, by simp, by norm_num⟩, ThreadAt.counts_zero⟩,
      rfl, rfl, he⟩
    · simpa [SqlWorld.fifo, SqlWorld.inHand, he] using hnext
    · simp [hb', hcur]
    · simp [hb', hbl']
  · simp only [↓reduceIte, map_eq_some_iff, Prod.exists] at hc
    obtain ⟨queue, acked, hr, rfl⟩ := hc
    have hnext : FifoInv maxThreads counter
        ⟨queue, w.pushed, [], [], w.acked ++ acked, w.dropped⟩ := by
      refine fifoInv_step
        (show FifoNext maxThreads _ (.ackBacklog w.self.flushLinesQueued) _ from ?_) hfifo
      simp only [FifoNext, fifoStep, hr, map_some]
    have hall := ackBacklog_all (q := logQueueResetParallelPush w.self.queue) rfl hbl
    rw [hlen, ← hb] at hr
    obtain ⟨rfl, rfl⟩ := Prod.mk.inj (Option.some.inj (hr.symm.trans hall))
    refine ⟨⟨?_, ?_, ?_, by simp, fun _ => ⟨he, by simp, by norm_num⟩, ThreadAt.counts_zero⟩,
      rfl, rfl, he⟩
    · simpa [SqlWorld.fifo, SqlWorld.inHand, he] using hnext
    · simp only [h.settled]
      exact congrArg _ hb.symm
    · simp [hcur]

theorem SqlInv.insertDb (h : SqlInv maxThreads counter w) (hcur : w.threadAt.current = [])
    (hi : afsqlDdInsertDb w = some w') : SqlInv maxThreads counter w' := by
  have hin : w.inHand = [] := by simp [SqlWorld.inHand, hcur]
  have hfifo : FifoInv maxThreads counter
      ⟨logQueueResetParallelPush w.self.queue, w.pushed, [], [], w.acked, w.dropped⟩ :=
    hin ▸ fifoInv_setNotify h.fifo none
  simp only [afsqlDdInsertDb, map_eq_some_iff, Prod.exists] at hi
  obtain ⟨queue, popped, hp, rfl⟩ := hi
  have hnext : FifoInv maxThreads counter ⟨queue, w.pushed, popped.toList,
      if w.self.explicitCommits then [] else popped.toList, w.acked, w.dropped⟩ := by
    refine fifoInv_step
      (show FifoNext maxThreads _ (.popHead w.self.explicitCommits false) _ from ?_) hfifo
    simp only [FifoNext, fifoStep, hp, map_some, nil_append]
  have hbw := h.backlog
  rw [hcur, append_nil] at hbw
  have hrefill : ∀ q : LogQueueFifo M, (popHeadRefill q).qbacklog = q.qbacklog ∧
      (popHeadRefill q).qbacklogLen = q.qbacklogLen := by
    intro q
    unfold popHeadRefill
    split <;> exact ⟨rfl, rfl⟩
  obtain ⟨rfl, hqueue⟩ | ⟨node, rest, rfl, -, -, hqueue⟩ := popHead_cases hp
  · have hqb : queue.qbacklog = w.self.queue.qbacklog ∧
        queue.qbacklogLen = w.self.queue.qbacklogLen := by
      obtain rfl | ⟨rfl, -⟩ := hqueue
      · exact ⟨rfl, rfl⟩
      · exact hrefill _
    refine ⟨?_, h.settled, ?_, ?_, h.queued, trivial⟩
    · cases he : w.self.explicitCommits <;>
        simpa [SqlWorld.fifo, SqlWorld.inHand, SqlWorld.goto, SqlWorld.setQueue, ThreadAt.current, he]
          using hnext
    · simpa [SqlWorld.goto, SqlWorld.setQueue, ThreadAt.current, hqb.1] using hbw
    · simpa [SqlWorld.goto, SqlWorld.setQueue, hqb.1, hqb.2] using h.backlogLen
  · have hq1 : queue.qbacklog =
        w.self.queue.qbacklog ++ if w.self.explicitCommits then [node] else [] := by
      rw [hqueue]
      rfl
    have hq2 : queue.qbacklogLen = if w.self.explicitCommits
        then wrap32 (w.self.queue.qbacklogLen + 1) else w.self.queue.qbacklogLen := by
      rw [hqueue]
      rfl
    refine ⟨?_, h.settled, ?_, ?_, h.queued, trivial⟩
    · have := fifoInv_forget hnext
      cases he : w.self.explicitCommits <;>
        simpa [SqlWorld.fifo, SqlWorld.inHand, SqlWorld.goto, SqlWorld.setQueue, ThreadAt.current, he]
          using this
    · cases he : w.self.explicitCommits <;>
        simp [SqlWorld.goto, SqlWorld.setQueue, ThreadAt.current, hq1, hbw, he]
    · have hlen := h.backlogLen
      cases he : w.self.explicitCommits <;>
        simp [SqlWorld.goto, SqlWorld.setQueue, hq1, hq2, he, hlen, wrap32_wrap32_add]

theorem SqlInv.insertFail (h : SqlInv maxThreads counter w) (he : w.self.explicitCommits = false)
    (hcur : w.threadAt.current = [node]) {ping : Bool}
    (hf : afsqlDdInsertFailHandler w node ping = some (w', success)) :
    SqlInv maxThreads counter (w'.goto .loop) ∧ w'.self.explicitCommits = false := by
  have hin : w.inHand = [node] := by simp [SqlWorld.inHand, he, hcur]
  have hfifo : FifoInv maxThreads counter
      ⟨w.self.queue, w.pushed, [], [node], w.acked, w.dropped⟩ := hin ▸ h.fifo
  have hbw := h.backlog
  simp only [he, Bool.false_eq_true, ↓reduceIte] at hbw
  unfold afsqlDdInsertFailHandler at hf
  dsimp only at hf
  split at hf
  · simp only [map_eq_some_iff, Prod.mk.injEq] at hf
    obtain ⟨queue, hp, rfl, -⟩ := hf
    have hnext : FifoInv maxThreads counter ⟨queue, w.pushed, [], [], w.acked, w.dropped⟩ := by
      refine fifoInv_step (show FifoNext maxThreads _ (.pushHead node) _ from ?_) hfifo
      simp [FifoNext, fifoStep, hp]
    unfold logQueueFifoPushHead at hp
    split at hp
    · cases hp
    · cases hp
      refine ⟨⟨?_, h.settled, ?_, h.backlogLen, h.queued, trivial⟩, he⟩
      · simpa [SqlWorld.fifo, SqlWorld.inHand, SqlWorld.goto, ThreadAt.current, he] using hnext
      · simpa [SqlWorld.goto, he] using hbw
  · simp only [Option.some.injEq, Prod.mk.injEq] at hf
    obtain ⟨rfl, -⟩ := hf
    refine ⟨⟨?_, h.settled, ?_, h.backlogLen, h.queued, trivial⟩, he⟩
    · simpa [SqlWorld.fifo, SqlWorld.inHand, SqlWorld.goto, ThreadAt.current, he] using
        fifoInv_drop hfifo
    · simpa [SqlWorld.goto, he] using hbw

theorem SqlInv.insertFailed (h : SqlInv maxThreads counter w) (he : w.self.explicitCommits = false)
    (hcur : w.threadAt.current = [node]) {ping : Bool}
    (hf : afsqlDdInsertFailHandler w node ping = some (w', success)) :
    SqlInv maxThreads counter (AfSql.nextRound w' success .loop) := by
  obtain ⟨hloop, he'⟩ := h.insertFail he hcur hf
  cases success
  · have hd := hloop.disconnect fun hexp => by
      rw [show (w'.goto .loop).self.explicitCommits = false from he'] at hexp
      cases hexp
    exact ⟨hd.fifo, hd.settled, hd.backlog, hd.backlogLen, hd.queued, hd.counts⟩
  · exact hloop

theorem countInsert_insertDone (w : SqlWorld M) (node : LogMessageQueueNode M) :
    (countInsert (insertDone w node)).self = (countInsert w).self := by
  unfold countInsert insertDone
  by_cases he : w.self.explicitCommits <;> by_cases hq : w.self.flushLinesQueued = -1 <;>
    simp [he, hq]

theorem SqlInv.insertDone (h : SqlInv maxThreads counter w) (hcur : w.threadAt.current = [node])
    (hlt : w.self.explicitCommits → w.self.flushLinesQueued < 2 ^ 31 - 1)
    (ht : t.current = []) (hcounts : t.Counts (countInsert w).self.flushLinesQueued) :
    SqlInv maxThreads counter ((insertDbDone (countInsert (insertDone w node)) node).goto t) := by
  have hbw := h.backlog
  have hset := h.settled
  cases he : w.self.explicitCommits
  · have hq : w.self.flushLinesQueued = -1 := by
      by_contra hne
      simpa [he] using (h.queued hne).1
    have hin : w.inHand = [node] := by simp [SqlWorld.inHand, he, hcur]
    have hfifo : FifoInv maxThreads counter
        ⟨w.self.queue, w.pushed, [], [], w.acked ++ [node], w.dropped⟩ :=
      fifoInv_ack (hin ▸ h.fifo)
    simp only [he, Bool.false_eq_true, ↓reduceIte] at hbw
    simp only [countInsert, hq] at hcounts
    have heq : (insertDbDone (countInsert (AfSql.insertDone w node)) node).goto t =
        { w with
          self := { w.self with failedMessageCounter := 0 }
          threadAt := t
          permanent := w.permanent ++ [node]
          acked := w.acked ++ [node] } := by
      simp [AfSql.insertDone, countInsert, insertDbDone, SqlWorld.goto, he, hq]
    rw [heq]
    refine ⟨?_, by simp [hset], by simp [hbw, he], h.backlogLen, fun hne => absurd hq hne, ?_⟩
    · simpa [SqlWorld.fifo, SqlWorld.inHand, he, ht] using hfifo
    · simpa [hq] using hcounts
  · have heq : (insertDbDone (countInsert (AfSql.insertDone w node)) node).goto t =
        { w with
          self := { (countInsert w).self with failedMessageCounter := 0 }
          threadAt := t
          inserted := w.inserted ++ [node] } := by
      unfold AfSql.insertDone countInsert
      by_cases hq : w.self.flushLinesQueued = -1 <;>
        simp [insertDbDone, SqlWorld.goto, he, hq]
    have hself : (countInsert w).self =
        { w.self with flushLinesQueued := (countInsert w).self.flushLinesQueued } := by
      unfold countInsert
      split <;> rfl
    have hin : w.inHand = [] := by simp [SqlWorld.inHand, he]
    have hfifo := h.fifo
    rw [SqlWorld.fifo, hin] at hfifo
    rw [heq, hself]
    refine ⟨?_, hset, ?_, h.backlogLen, fun hne => ⟨he, ?_⟩, hcounts⟩
    · simpa [SqlWorld.fifo, SqlWorld.inHand, he] using hfifo
    · simpa [he, hcur, ht] using hbw
    · have hne' : w.self.flushLinesQueued ≠ -1 := by
        intro hq
        simp [countInsert, hq] at hne
      obtain ⟨-, hlen, -⟩ := h.queued hne'
      have := hlt he
      have hwrap : wrap32 (w.self.flushLinesQueued + 1) = w.self.flushLinesQueued + 1 :=
        wrap32_eq_self (by omega)
      simp only [countInsert, ne_eq, hne', not_false_eq_true, ↓reduceIte, hwrap,
        length_append, length_singleton]
      push_cast
      omega

theorem SqlInv.afterInsert (h : SqlInv maxThreads counter w) (hcur : w.threadAt.current = [node])
    (hlt : w.self.explicitCommits → w.self.flushLinesQueued < 2 ^ 31 - 1) :
    SqlInv maxThreads counter (afterInsert w node) := by
  unfold AfSql.afterInsert
  dsimp only
  split
  · rename_i hfull
    rw [countInsert_insertDone] at hfull
    have hq : w.self.flushLinesQueued ≠ -1 := by
      intro hq
      simp [countInsert, hq] at hfull
    obtain ⟨he, -⟩ := h.queued hq
    have hd := h.insertDone (t := .commitFull node) hcur hlt rfl hfull.1
    have hacked : (countInsert (AfSql.insertDone w node)).self.explicitCommits = true := by
      rw [countInsert_insertDone]
      unfold countInsert
      split <;> exact he
    rw [insertDbDone, if_pos hacked] at hd
    exact ⟨hd.fifo, hd.settled, hd.backlog, hd.backlogLen, hd.queued, hd.counts⟩
  · exact h.insertDone hcur hlt rfl trivial

/-! ## Runs -/

theorem SqlInv.databaseThread (h : SqlInv maxThreads counter w) {op : ThreadOp}
    (hok : inStep w (.thread op)) (hs : databaseThread w op = some w') : SqlInv maxThreads counter w' := by
  have hcounts := h.counts
  have hawake : SqlInv maxThreads counter
      { w with self := { w.self with dbThreadSuspended := false } } :=
    ⟨h.fifo, h.settled, h.backlog, h.backlogLen, h.queued, h.counts⟩
  unfold AfSql.databaseThread at hs
  dsimp only at hs
  split at hs
  case h_1 hat =>
    -- the head of the loop
    simp only [inStep, hat, Bool.or_eq_true, Bool.not_eq_true', decide_eq_true_eq, List.isEmpty_iff] at hok
    split at hs
    · rename_i hterm
      split at hs
      · rename_i hpos
        cases hs
        exact h.goto (by simp [hat, ThreadAt.current]) (by simp [ThreadAt.Counts]; omega)
      · rename_i hpos
        cases hs
        have hd : SqlInv maxThreads counter (afsqlDdDisconnect w) := by
          refine h.disconnect fun he => ?_
          by_cases hq : w.self.flushLinesQueued = -1
          · simpa [he, hterm, hq] using hok
          · obtain ⟨-, hlen, -⟩ := h.queued hq
            exact length_eq_zero_iff.1 (by omega)
        exact hd.goto (by simp [afsqlDdDisconnect, hat, ThreadAt.current]) trivial
    · split at hs
      · cases hs
        exact h.goto (by simp [hat, ThreadAt.current]) trivial
      · split at hs
        · cases hs
          refine h.goto (by simp [hat, ThreadAt.current]) ?_
          by_cases hpos : w.self.flushLinesQueued > 0 ∧ w.self.flushTimeout > 0
          · simp only [hpos, decide_true, Bool.and_self, ThreadAt.Counts]
            omega
          · have hf : (decide (w.self.flushLinesQueued > 0) && decide (w.self.flushTimeout > 0)) =
                false := by simpa using hpos
            rw [hf]
            trivial
        · cases hs
          exact h.goto (by simp [hat, ThreadAt.current]) trivial
  case h_2 hat =>
    cases hs
    exact hawake.goto (by simp [hat, ThreadAt.current]) trivial
  case h_3 hat =>
    cases hs
    exact hawake.goto (by simp [hat, ThreadAt.current]) trivial
  case h_4 hat =>
    cases hs
    exact h.goto (by simp [hat, ThreadAt.current]) trivial
  case h_5 hat =>
    cases hs
    rw [hat] at hcounts
    exact h.goto (by simp [hat, ThreadAt.current]) hcounts
  case h_6 success _ hat =>
    simp only [map_eq_some_iff] at hs
    obtain ⟨v, hc, rfl⟩ := hs
    rw [hat] at hcounts
    obtain ⟨hv, hvat, hins, -⟩ := h.commitTxn (by simp [hat, ThreadAt.current]) hcounts hc
    have hcur : v.threadAt.current = [] := by rw [hvat, hat]; rfl
    exact hv.nextRound (fun _ => hcur.symm) (fun _ => trivial) (fun _ => hcur) fun _ _ => hins
  case h_7 hat =>
    split at hs
    · cases hs
      exact h.goto (by simp [hat, ThreadAt.current]) trivial
    · cases hs
      exact h.goto (by simp [hat, ThreadAt.current]) trivial
  case h_8 hat => exact h.insertDb (by simp [hat, ThreadAt.current]) hs
  case h_9 node success ping hat =>
    have hcur : w.threadAt.current = [node] := by simp [hat, ThreadAt.current]
    split at hs
    · split at hs
      · rename_i hbegin
        cases hs
        exact h.goto hcur.symm hbegin.1
      · cases hs
        exact h.goto hcur.symm trivial
    · rename_i hfail
      simp only [map_eq_some_iff, Prod.exists] at hs
      obtain ⟨v, ok, hf, rfl⟩ := hs
      have he : w.self.explicitCommits = false := by
        by_contra he
        simp only [inStep, hat, Bool.or_eq_true, Bool.not_eq_true'] at hok
        exact hok.elim he hfail
      exact h.insertFailed he hcur hf
  case h_10 node success _ hat =>
    rw [hat] at hcounts
    have hq : w.self.flushLinesQueued ≠ -1 := by
      simp only [ThreadAt.Counts] at hcounts
      omega
    have hsuccess : success = true := by
      simpa [inStep, hat, (h.queued hq).1] using hok
    cases hs
    subst hsuccess
    exact h.goto (by simp [hat, ThreadAt.current]) trivial
  case h_11 node success ping hat =>
    have hcur : w.threadAt.current = [node] := by simp [hat, ThreadAt.current]
    simp only [inStep, hat, Bool.or_eq_true, Bool.not_eq_true', Bool.and_eq_true, decide_eq_true_eq] at hok
    split at hs
    · cases hs
      refine h.afterInsert hcur fun he => ?_
      rw [he] at hok
      exact (hok.resolve_left (by simp)).2
    · rename_i hfail
      simp only [map_eq_some_iff, Prod.exists] at hs
      obtain ⟨v, ok, hf, rfl⟩ := hs
      have he : w.self.explicitCommits = false := by
        by_contra he
        exact hok.elim he fun hok => hfail hok.1
      exact h.insertFailed he hcur hf
  case h_12 node success _ hat =>
    simp only [map_eq_some_iff] at hs
    obtain ⟨v, hc, rfl⟩ := hs
    rw [hat] at hcounts
    obtain ⟨hv, hvat, hins, he⟩ := h.commitTxn (by simp [hat, ThreadAt.current]) hcounts hc
    have hcur : v.threadAt.current = [] := by rw [hvat, hat]; rfl
    have hdone : SqlInv maxThreads counter (insertDbDone v node) := by
      refine ⟨?_, ?_, hv.backlog, hv.backlogLen, hv.queued, hv.counts⟩
      · simpa [insertDbDone, he, SqlWorld.fifo, SqlWorld.inHand] using hv.fifo
      · simpa [insertDbDone, he] using hv.settled
    cases success
    · exact hv.nextRound (fun h => by cases h) (fun _ => trivial) (fun _ => hcur) fun _ _ => hins
    · exact hdone.nextRound (fun _ => hcur.symm) (fun _ => trivial) (fun _ => hcur) fun _ _ => hins
  case h_13 success _ hat =>
    simp only [map_eq_some_iff] at hs
    obtain ⟨v, hc, rfl⟩ := hs
    rw [hat] at hcounts
    obtain ⟨hv, hvat, hins, -⟩ := h.commitTxn (by simp [hat, ThreadAt.current]) hcounts hc
    have hcur : v.threadAt.current = [] := by rw [hvat, hat]; rfl
    exact (hv.disconnect fun _ => hins).goto hcur.symm trivial
  case h_14 => cases hs

theorem SqlInv.setQueue (h : SqlInv maxThreads counter w) {queue : LogQueueFifo M}
    {pushed dropped : List (LogMessageQueueNode M)}
    (hfifo : FifoInv maxThreads counter ⟨queue, pushed, [], w.inHand, w.acked, dropped⟩)
    (hb : queue.qbacklog = w.self.queue.qbacklog) (hbl : queue.qbacklogLen = w.self.queue.qbacklogLen) :
    SqlInv maxThreads counter { w.setQueue queue with pushed := pushed, dropped := dropped } := by
  refine ⟨hfifo, h.settled, hb.trans h.backlog, ?_, h.queued, h.counts⟩
  have hlen := h.backlogLen
  rw [← hb, ← hbl] at hlen
  exact hlen

theorem SqlInv.step (h : SqlInv maxThreads counter w) {op : SqlOp M} (hok : inStep w op)
    (hs : SqlNext maxThreads w op w') : SqlInv maxThreads counter w' := by
  unfold SqlNext at hs
  cases op with
  | pushTail t node outputLen notifyLen =>
    simp only [sqlStep, map_eq_some_iff, Prod.exists] at hs
    obtain ⟨queue, dropped, hp, rfl⟩ := hs
    have hn : FifoNext maxThreads w.fifo (.pushTail t node outputLen notifyLen)
        { w.fifo with
          queue := queue
          pushed := w.pushed ++ [node]
          dropped := w.dropped ++ dropped } := by
      simp only [FifoNext, fifoStep, SqlWorld.fifo, hp, map_some]
    refine h.setQueue (fifoInv_step hn h.fifo) ?_ ?_ <;>
      obtain ⟨t, -, -, -, rfl⟩ | ⟨p, -, -, -, rfl⟩ | ⟨-, -, rfl⟩ := pushTail_cases hp <;> rfl
  | moveInput t outputLen notifyLen =>
    simp only [sqlStep] at hs
    split at hs
    · rename_i ht
      simp only [map_eq_some_iff, Prod.exists] at hs
      obtain ⟨queue, dropped, hp, rfl⟩ := hs
      have hn : FifoNext maxThreads w.fifo (.moveInput t outputLen notifyLen)
          { w.fifo with queue := queue, dropped := w.dropped ++ dropped } := by
        simp only [FifoNext, fifoStep, SqlWorld.fifo, hp, map_some, ht, ↓reduceIte]
      obtain ⟨kept, p, -, -, -, hq⟩ := moveInput_cases (h.fifo.counters.input t).2 hp
      exact h.setQueue (fifoInv_step hn h.fifo) (by rw [hq]; rfl) (by rw [hq]; rfl)
    · cases hs
  | setParallelPush outputLen =>
    simp only [sqlStep] at hs
    split at hs
    · cases hs
      exact h.setQueue (fifoInv_setNotify h.fifo _) rfl rfl
    · cases hs
  | resetParallelPush =>
    cases hs
    exact h.setQueue (fifoInv_setNotify h.fifo _) rfl rfl
  | stopThread =>
    cases hs
    exact ⟨h.fifo, h.settled, h.backlog, h.backlogLen, h.queued, h.counts⟩
  | thread op => exact h.databaseThread hok hs

theorem sqlInv_new (o : SqlOptions) (stored dropped : StatsCounterItem) :
    SqlInv maxThreads dropped (SqlWorld.new (M := M) o stored dropped) := by
  have hfifo := fifoInv_step
    (show FifoNext maxThreads _ (.setThrottle o.throttle) _ from rfl)
    (fifoInv_new (M := M) o.logFifoSize stored dropped)
  refine ⟨?_, rfl, ?_, wrap32_zero.symm, fun hq => ?_, trivial⟩
  · cases he : o.explicitCommits <;>
      simpa [SqlWorld.new, afsqlDdInit, SqlWorld.fifo, SqlWorld.inHand, ThreadAt.current,
        FifoWorld.new, he] using hfifo
  · simp [SqlWorld.new, afsqlDdInit, logQueueSetThrottle, logQueueFifoNew, ThreadAt.current]
  · cases hb : o.batches
    · simp [SqlWorld.new, afsqlDdInit, hb] at hq
    · have he : o.explicitCommits = true := by
        simp only [SqlOptions.batches, Bool.and_eq_true] at hb
        exact hb.1
      simp [SqlWorld.new, afsqlDdInit, hb, he]

theorem SqlInv.consistent (h : SqlInv maxThreads counter w) : SqlConsistent maxThreads counter w := by
  refine ⟨h.fifo.toConserved, fun x => ?_, fun x => by rw [h.settled], fun x => ?_⟩
  · rw [h.backlog]
    cases w.self.explicitCommits <;> simp [count_append]
  · have := h.fifo.conserved x
    simp only [SqlWorld.fifo] at this
    rw [h.settled]
    omega

/-- A run whose steps stay in step. -/
abbrev SqlRun (maxThreads : Nat) :=
  Run fun (w : SqlWorld M) op w' => SqlNext maxThreads w op w' ∧ inStep w op

/-- The steps of `SqlRun`, executed. -/
def sqlExec (maxThreads : Nat) : SqlWorld M → List (SqlOp M) → Option (SqlWorld M) :=
  exec fun w op => if inStep w op then sqlStep maxThreads w op else none

theorem sqlRun_of_exec {ops : List (SqlOp M)} (h : sqlExec maxThreads w ops = some w') :
    SqlRun maxThreads w ops w' := by
  refine Run.of_exec (fun s op t hs => ?_) h
  split at hs
  · rename_i hok
    exact ⟨hs, hok⟩
  · cases hs

/-- **The SQL destination neither loses nor duplicates a message** as long as nothing fails
before the INSERT is done where commits are explicit: in every state of such a run a message is
in exactly one place, in the backlog only with its INSERT in the open transaction or about to be
made, acked only once its INSERT is permanent, and permanent once. -/
theorem sql_loses_nothing {o : SqlOptions} {stored dropped : StatsCounterItem}
    {ops : List (SqlOp M)} {w : SqlWorld M}
    (h : SqlRun maxThreads (SqlWorld.new o stored dropped) ops w) :
    SqlConsistent maxThreads dropped w := by
  have hinv : SqlInv maxThreads dropped w :=
    h.invariant (fun _ _ _ hn hi => hi.step hn.2 hn.1) (sqlInv_new o stored dropped)
  exact hinv.consistent

/-- Explicit commits of two lines each. -/
def twoLines : SqlOptions where
  oracle := false
  explicitCommits := true
  numRetries := 3
  flushLines := 2
  flushTimeout := 0
  logFifoSize := 10
  throttle := 0

/-- One round of the thread in which everything the database is asked for succeeds. -/
def insertRound (begins : Bool) : List (SqlOp Nat) :=
  [.thread .proceed, .thread .proceed, .thread .proceed, .thread (.answer true true)] ++
    (if begins then [.thread (.answer true true)] else []) ++ [.thread (.answer true true)]

/-- The first COMMIT of two messages fails, the second one succeeds. -/
theorem sql_loses_nothing_retry :
    ∃ w, SqlConsistent 1 (some 0) w ∧ w.acked = [⟨1, true⟩, ⟨2, true⟩] ∧
      w.permanent = [⟨1, true⟩, ⟨2, true⟩] := by
  let ops : List (SqlOp Nat) :=
    [.pushTail none ⟨1, true⟩ 0 0, .pushTail none ⟨2, true⟩ 0 0] ++
      insertRound true ++ insertRound false ++
      [.thread (.answer false true), .thread .proceed, .thread .wakeup] ++
      (insertRound true).tail ++ insertRound false ++ [.thread (.answer true true)]
  have hsome : (sqlExec 1 (SqlWorld.new twoLines (some 0) (some 0)) ops).isSome := by decide
  have h := sql_loses_nothing (sqlRun_of_exec (Option.some_get hsome).symm)
  exact ⟨_, h, rfl, rfl⟩

/-- The second INSERT of a transaction fails and is tried again: the COMMIT acks the first
message, whose INSERT was lost with the connection, and the second one stays in the backlog. -/
theorem sql_loses_message :
    ∃ (ops : List (SqlOp Nat)) (w : SqlWorld Nat),
      Run (SqlNext 1) (SqlWorld.new twoLines (some 0) (some 0)) ops w ∧
        w.pushed = [⟨1, true⟩, ⟨2, true⟩] ∧ w.acked = [⟨1, true⟩, ⟨2, true⟩] ∧
        w.permanent = [⟨2, true⟩] ∧ w.self.queue.qbacklog = [⟨2, true⟩] ∧
        ¬ SqlConsistent 1 (some 0) w := by
  let ops : List (SqlOp Nat) :=
    [.pushTail none ⟨1, true⟩ 0 0, .pushTail none ⟨2, true⟩ 0 0] ++ insertRound true ++
      (insertRound false).dropLast ++
      [.thread (.answer false true), .thread .proceed, .thread .wakeup] ++
      (insertRound false).tail ++ [.thread (.answer true true)]
  have hsome : (exec (sqlStep 1) (SqlWorld.new twoLines (some 0) (some 0)) ops).isSome := by decide
  refine ⟨ops, _, Run.of_exec (fun _ _ _ hs => hs) (Option.some_get hsome).symm, rfl, rfl,
    rfl, rfl, fun hc => ?_⟩
  exact absurd (show 1 ≤ 0 from hc.acked ⟨1, true⟩) (by decide)

end

end SyslogNg.AfSql
