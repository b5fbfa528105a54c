import SyslogNg.LogQueue.CheckItems

/-!
# Throttling

A run of calls on a queue with a throttle, with what was popped and which clock readings were
taken. While no reading moves the buckets out of their range, the buckets stay between 0 and
`throttle`, and what is popped between two readings is what a token bucket permits: `A` in the
comments below is `popped + buckets - throttle * last_throttle_check`, which no step of a
forward-going clock raises.

A reading that earns less than one bucket does not move `last_throttle_check`, so the time
before it still counts for the next one (`carriedOver`).
-/

namespace SyslogNg.LogQueue

open Lib List
open DbParser (GTimeVal)
open DbParser.PatternDB (timeValDiff)
open List (append_nil cons_ne_nil)
open Option (map_eq_some_iff)

variable {M F U D : Type}

/-- The microseconds of a clock reading. -/
def usecs (t : GTimeVal) : Int := t.tvSec * 1000000 + t.tvUsec

/-- The queue, the nodes popped from it and the clock readings it took, the newest last. -/
structure ThrottleWorld (M F U D : Type) where
  queue : LogQueue M F U D
  popped : List (LogMessageQueueNode M)
  readings : List GTimeVal

def ThrottleWorld.new (qoverflowSize throttle : Int)
    (storedMessages droppedMessages : StatsCounterItem) : ThrottleWorld M F U D :=
  ⟨logQueueNew qoverflowSize throttle storedMessages droppedMessages, [], []⟩

def HeedsThrottle : QueueOp M F U D → Prop
  | .popHead _ ignoreThrottle => ignoreThrottle = false
  | _ => True

def throttleStep (maxThreads : Nat) (w : ThrottleWorld M F U D) (op : QueueOp M F U D) :
    Option (ThrottleWorld M F U D) :=
  (queueStep maxThreads w.queue op).map fun (queue, e) =>
    ⟨queue, w.popped ++ e.popped.toList, w.readings ++ e.readings⟩

/-- `w` becomes `w'` by a call that heeds the throttle. -/
def ThrottleNext (maxThreads : Nat) (w : ThrottleWorld M F U D) (op : QueueOp M F U D)
    (w' : ThrottleWorld M F U D) : Prop :=
  HeedsThrottle op ∧ throttleStep maxThreads w op = some w'

/-- `log_queue_check_items` finds a batch, so it goes on to the throttle. -/
def BatchReady (self : LogQueue M F U D) (batchItems : Int) : Prop :=
  logQueueGetLength self ≠ 0 ∧ batchItems ≤ logQueueGetLength self

/-- The reading neither lies so far before the last check that it takes away more buckets than
there are, nor so far behind it that the buckets do not fit a `gint`. -/
def FitsBuckets (self : LogQueue M F U D) (now : GTimeVal) : Prop :=
  self.lastThrottleCheck.tvSec = 0 ∨
    -1000000 * (self.fifo.throttleBuckets + 1) <
        self.fifo.throttle * (usecs now - usecs self.lastThrottleCheck) ∧
      self.fifo.throttle * (usecs now - usecs self.lastThrottleCheck) <
        1000000 * (2 ^ 31 - self.fifo.throttleBuckets)

def SoundReading (self : LogQueue M F U D) : QueueOp M F U D → Prop
  | .checkItems batchItems _ now => BatchReady self batchItems → FitsBuckets self now
  | _ => True

/-- A call that heeds the throttle and takes a sound reading, if any. -/
def SoundNext (maxThreads : Nat) (w : ThrottleWorld M F U D) (op : QueueOp M F U D)
    (w' : ThrottleWorld M F U D) : Prop :=
  ThrottleNext maxThreads w op w' ∧ SoundReading w.queue op

/-! ## One step -/

theorem tdiv_bounds (p : Int) :
    (0 ≤ p → p.tdiv 1000000 = p / 1000000) ∧ (p < 0 → p.tdiv 1000000 = -(-p / 1000000)) := by
  refine ⟨fun h => Int.tdiv_eq_ediv_of_nonneg h, fun h => ?_⟩
  have := Int.tdiv_eq_ediv_of_nonneg (a := -p) (b := 1000000) (by omega)
  rw [Int.neg_tdiv] at this
  omega

theorem timeValDiff_eq {now last : GTimeVal}
    (h : -2 ^ 63 ≤ usecs now - usecs last ∧ usecs now - usecs last < 2 ^ 63) :
    timeValDiff now last = usecs now - usecs last := by
  have he : (now.tvSec - last.tvSec) * 1000000 + (now.tvUsec - last.tvUsec) =
      usecs now - usecs last := by unfold usecs; ring
  unfold timeValDiff
  rw [he]
  apply Int.bmod_eq_of_le <;> omega

structure Bucket (q : LogQueue M F U D) (throttle buckets : Int) (last : GTimeVal) : Prop where
  throttle : q.fifo.throttle = throttle
  buckets : q.fifo.throttleBuckets = buckets
  last : q.lastThrottleCheck = last

inductive Refilled (throttle buckets : Int) (last now : GTimeVal) : Int → GTimeVal → Prop where
  | first : last.tvSec = 0 → Refilled throttle buckets last now buckets now
  | early : last.tvSec ≠ 0 → -1000000 < throttle * (usecs now - usecs last) →
      throttle * (usecs now - usecs last) < 1000000 → Refilled throttle buckets last now buckets last
  | earned {buckets' : Int} : last.tvSec ≠ 0 →
      (usecs now < usecs last → throttle * (usecs now - usecs last) ≤ -1000000) →
      (usecs last ≤ usecs now →
        buckets' * 1000000 ≤ buckets * 1000000 + throttle * (usecs now - usecs last)) →
      0 ≤ buckets' → buckets' ≤ throttle → Refilled throttle buckets last now buckets' now

variable {throttle : Int} {w' : ThrottleWorld M F U D} {maxThreads : Nat} {ops : List (QueueOp M F U D)}
  {buckets : Int}

theorem abs_le_mul {d : Int} (hpos : 0 < throttle) : |d| ≤ |throttle * d| := by
  rw [abs_mul, abs_of_pos hpos]
  exact le_mul_of_one_le_left (abs_nonneg d) (by omega)

theorem newBuckets_eq {last now : GTimeVal} (hpos : 0 < throttle) (h0 : 0 ≤ buckets)
    (h31 : buckets < 2 ^ 31) (hlow : -1000000 * (buckets + 1) < throttle * (usecs now - usecs last))
    (hhigh : throttle * (usecs now - usecs last) < 1000000 * (2 ^ 31 - buckets)) :
    newBuckets throttle (timeValDiff now last) = (throttle * (usecs now - usecs last)).tdiv 1000000 := by
  have habs := abs_le_mul (d := usecs now - usecs last) hpos
  have hmul : |throttle * (usecs now - usecs last)| < 2 ^ 62 := abs_lt.2 ⟨by omega, by omega⟩
  obtain ⟨hd1, hd2⟩ := abs_lt.1 (lt_of_le_of_lt habs hmul)
  obtain ⟨hm1, hm2⟩ := abs_lt.1 hmul
  have htdiv := tdiv_bounds (throttle * (usecs now - usecs last))
  rw [newBuckets, timeValDiff_eq ⟨by omega, by omega⟩,
    Int.bmod_eq_of_le (by omega) (by omega)]
  apply wrap32_eq_self
  rcases lt_or_ge (throttle * (usecs now - usecs last)) 0 with hneg | hnn
  · rw [htdiv.2 hneg]; omega
  · rw [htdiv.1 hnn]; omega

theorem recalculateBuckets_refilled {q : LogQueue M F U D} {last now : GTimeVal}
    (hq : Bucket q throttle buckets last) (hpos : 0 < throttle) (h31 : throttle < 2 ^ 31)
    (h0 : 0 ≤ buckets) (hle : buckets ≤ throttle) (hfit : FitsBuckets q now) :
    ∃ buckets' last', Bucket (recalculateBuckets q now) throttle buckets' last' ∧
      Refilled throttle buckets last now buckets' last' := by
  obtain ⟨rfl, rfl, rfl⟩ := hq
  by_cases hsec : q.lastThrottleCheck.tvSec = 0
  · have hnew : newBuckets q.fifo.throttle (timeValDiff now now) = 0 := by
      simp [newBuckets, timeValDiff]
    refine ⟨_, _, ?_, .first hsec⟩
    simp only [recalculateBuckets, hsec, ne_eq, not_true_eq_false, ↓reduceIte, hnew]
    exact ⟨rfl, rfl, rfl⟩
  obtain ⟨hlow, hhigh⟩ := hfit.resolve_left hsec
  have hnew := newBuckets_eq hpos h0 (by omega) hlow hhigh
  have htdiv := tdiv_bounds (q.fifo.throttle * (usecs now - usecs q.lastThrottleCheck))
  simp only [recalculateBuckets, ne_eq, hsec, not_false_eq_true, ↓reduceIte, hnew]
  generalize hp : q.fifo.throttle * (usecs now - usecs q.lastThrottleCheck) = p at *
  by_cases hzero : p.tdiv 1000000 = 0
  · rw [if_neg (not_not_intro hzero)]
    refine ⟨_, _, ⟨rfl, rfl, rfl⟩, .early hsec ?_ ?_⟩ <;> rw [hp] <;>
      rcases lt_or_ge p 0 with hneg | hnn
    · have := htdiv.2 hneg; omega
    · omega
    · omega
    · have := htdiv.1 hnn; omega
  · rw [if_pos hzero]
    refine ⟨_, _, ⟨rfl, rfl, rfl⟩, ?_⟩
    have hwrap : wrap32 (q.fifo.throttleBuckets + p.tdiv 1000000) =
        q.fifo.throttleBuckets + p.tdiv 1000000 := by
      apply wrap32_eq_self
      rcases lt_or_ge p 0 with hneg | hnn
      · rw [htdiv.2 hneg]; omega
      · rw [htdiv.1 hnn]; omega
    dsimp only
    rw [hwrap]
    refine .earned hsec (fun hback => ?_) (fun hforth => ?_) ?_ (min_le_left _ _)
    · have hneg : p < 0 := by
        rw [← hp]
        exact mul_neg_of_pos_of_neg hpos (by omega)
      have := htdiv.2 hneg
      rw [hp]
      omega
    · have hnn : 0 ≤ p := by
        rw [← hp]
        exact mul_nonneg hpos.le (by omega)
      have := htdiv.1 hnn
      rw [hp]
      omega
    · rcases lt_or_ge p 0 with hneg | hnn
      · have := htdiv.2 hneg; omega
      · have := htdiv.1 hnn; omega

/-- What one call does to the buckets, with the nodes it popped and the readings it took. -/
inductive Moved (throttle buckets : Int) (last : GTimeVal) :
    List (LogMessageQueueNode M) → List GTimeVal → Int → GTimeVal → Prop where
  | quiet : Moved throttle buckets last [] [] buckets last
  | drawn (node : LogMessageQueueNode M) : 0 < buckets →
      Moved throttle buckets last [node] [] (buckets - 1) last
  | read {now last' : GTimeVal} {buckets' : Int} :
      Refilled throttle buckets last now buckets' last' →
      Moved throttle buckets last [] [now] buckets' last'

theorem popHead_moved {q q' : LogQueueFifo M} {pushToBacklog : Bool}
    {node : Option (LogMessageQueueNode M)} (hpos : 0 < q.throttle) (h0 : 0 ≤ q.throttleBuckets)
    (h : logQueueFifoPopHead q pushToBacklog false = some (q', node)) (last : GTimeVal) :
    Moved q.throttle q.throttleBuckets last node.toList [] q'.throttleBuckets last := by
  by_cases hb : q.throttleBuckets = 0
  · have hthrottle : q.throttle ≠ 0 := by omega
    have hidle := popHead_idle h
    simp only [logQueueFifoPopHead, hidle, Option.isSome_none, Bool.false_eq_true, ↓reduceIte,
      Bool.not_false, ne_eq, hthrottle, not_false_eq_true, decide_true, Bool.and_self, hb,
      Option.some.injEq, Prod.mk.injEq] at h
    obtain ⟨rfl, rfl⟩ := h
    rw [hb]
    exact .quiet
  · obtain ⟨rfl, rfl | ⟨rfl, -⟩⟩ | ⟨node, rest, rfl, -, -, rfl⟩ := popHead_cases h
    · exact .quiet
    · rw [popHeadRefill_throttleBuckets]
      exact .quiet
    · have htake : takeBucket false (popHeadRefill q) = q.throttleBuckets - 1 := by
        simp only [takeBucket, popHeadRefill_throttleBuckets, Bool.not_false, Bool.true_and,
          decide_eq_true_eq]
        rw [if_pos (by omega)]
      dsimp only
      rw [htake]
      exact .drawn node (by omega)

theorem checkItems_moved {q : LogQueue M F U D} {last : GTimeVal} (hq : Bucket q throttle buckets last)
    (hpos : 0 < throttle) (h31 : throttle < 2 ^ 31) (h0 : 0 ≤ buckets) (hle : buckets ≤ throttle)
    (batchItems : Int) (c : Callback F U D) (now : GTimeVal)
    (hfit : BatchReady q batchItems → FitsBuckets q now) :
    ∃ buckets' last', Bucket (logQueueCheckItems q batchItems c now).1 throttle buckets' last' ∧
      Moved (M := M) throttle buckets last []
        (if (logQueueCheckItems q batchItems c now).2.readClock then [now] else [])
        buckets' last' := by
  have hpos' : 0 < q.forget.fifo.throttle := hpos.trans_eq hq.throttle.symm
  unfold logQueueCheckItems
  dsimp only
  split
  · exact ⟨buckets, last, ⟨hq.throttle, hq.buckets, hq.last⟩, .quiet⟩
  · rename_i hready
    have hforget : Bucket q.forget throttle buckets last := ⟨hq.throttle, hq.buckets, hq.last⟩
    obtain ⟨buckets', last', hB, hR⟩ :=
      recalculateBuckets_refilled hforget hpos h31 h0 hle (hfit ⟨by omega, by omega⟩)
    refine ⟨buckets', last', ?_, ?_⟩
    · split <;> exact hB
    · split <;> exact .read hR

variable {w : ThrottleWorld M F U D}

theorem throttleStep_moved {op : QueueOp M F U D} {last : GTimeVal} (h : SoundNext maxThreads w op w')
    (hq : Bucket w.queue throttle buckets last) (hpos : 0 < throttle) (h31 : throttle < 2 ^ 31)
    (h0 : 0 ≤ buckets) (hle : buckets ≤ throttle) :
    ∃ nodes ts buckets' last', w'.popped = w.popped ++ nodes ∧ w'.readings = w.readings ++ ts ∧
      Bucket w'.queue throttle buckets' last' ∧ Moved throttle buckets last nodes ts buckets' last' := by
  obtain ⟨⟨hheeds, hrun⟩, hsound⟩ := h
  obtain ⟨⟨q', e⟩, hstep, rfl⟩ := map_eq_some_iff.1 hrun
  clear hrun
  refine ⟨e.popped.toList, e.readings, ?_⟩
  -- a call that only handles the lists
  have quiet (fifo : LogQueueFifo M) (hfifo : q'.fifo = fifo)
      (hlast : q'.lastThrottleCheck = w.queue.lastThrottleCheck)
      (ht : fifo.throttle = w.queue.fifo.throttle)
      (hb : fifo.throttleBuckets = w.queue.fifo.throttleBuckets) (he : e.popped = none)
      (hr : e.readings = []) :
      ∃ buckets' last', w.popped ++ e.popped.toList = w.popped ++ e.popped.toList ∧
        w.readings ++ e.readings = w.readings ++ e.readings ∧
        Bucket q' throttle buckets' last' ∧
        Moved throttle buckets last e.popped.toList e.readings buckets' last' := by
    refine ⟨buckets, last, rfl, rfl, ⟨?_, ?_, hlast.trans hq.last⟩, ?_⟩
    · rw [hfifo, ht, hq.throttle]
    · rw [hfifo, hb, hq.buckets]
    · rw [he, hr]
      exact .quiet
  cases op with
  | checkItems batchItems c now =>
    cases hstep
    obtain ⟨buckets', last', hB, hM⟩ := checkItems_moved hq hpos h31 h0 hle batchItems c now hsound
    exact ⟨buckets', last', rfl, rfl, hB, hM⟩
  | setParallelPush notifyLimit c =>
    cases hstep
    exact quiet _ rfl rfl rfl rfl rfl rfl
  | resetParallelPush =>
    cases hstep
    exact quiet _ rfl rfl rfl rfl rfl rfl
  | pushTail threadId node outputLen =>
    obtain ⟨⟨fifo, dropped⟩, hpush, heq⟩ := map_eq_some_iff.1 hstep
    cases heq
    have hp := pushed_of_pushTail hpush
    exact quiet fifo (notified_fifo _ _) (notified_lastThrottleCheck _ _) hp.throttle
      hp.throttleBuckets rfl rfl
  | moveInput threadId outputLen =>
    dsimp only [queueStep] at hstep
    split at hstep
    · obtain ⟨⟨fifo, dropped⟩, hmove, heq⟩ := map_eq_some_iff.1 hstep
      cases heq
      have hp := pushed_of_moveInput hmove
      exact quiet fifo (notified_fifo _ _) (notified_lastThrottleCheck _ _) hp.throttle
        hp.throttleBuckets rfl rfl
    · cases hstep
  | popHead pushToBacklog ignoreThrottle =>
    obtain rfl : ignoreThrottle = false := hheeds
    obtain ⟨⟨fifo, node⟩, hpop, heq⟩ := map_eq_some_iff.1 hstep
    cases heq
    have hM := popHead_moved (by rw [hq.throttle]; exact hpos) (by rw [hq.buckets]; exact h0)
      hpop last
    rw [hq.throttle, hq.buckets] at hM
    exact ⟨_, _, rfl, rfl, ⟨(handled_of_popHead hpop).throttle.trans hq.throttle, rfl, hq.last⟩, hM⟩
  | pushHead node =>
    obtain ⟨fifo, hpush, heq⟩ := map_eq_some_iff.1 hstep
    cases heq
    have hp := handled_of_pushHead hpush
    exact quiet fifo rfl rfl hp.1.throttle hp.2 rfl rfl
  | ackBacklog n =>
    obtain ⟨⟨fifo, acked⟩, hack, heq⟩ := map_eq_some_iff.1 hstep
    cases heq
    have hp := handled_of_ackBacklog hack
    exact quiet fifo rfl rfl hp.1.throttle hp.2 rfl rfl
  | rewindBacklog =>
    obtain ⟨fifo, hrewind, heq⟩ := map_eq_some_iff.1 hstep
    cases heq
    have hp := handled_of_rewindBacklog hrewind
    exact quiet fifo rfl rfl hp.1.throttle hp.2 rfl rfl

/-! ## A run -/

/-- The buckets are in range, and the last reading left less than a bucket behind. -/
structure Throttled (throttle : Int) (w : ThrottleWorld M F U D) : Prop where
  rate : w.queue.fifo.throttle = throttle
  nonneg : 0 ≤ w.queue.fifo.throttleBuckets
  le : w.queue.fifo.throttleBuckets ≤ throttle
  unread : w.readings = [] → w.queue.lastThrottleCheck.tvSec = 0
  reading : ∀ t, w.readings.getLast? = some t → w.queue.lastThrottleCheck = t ∨
    w.queue.lastThrottleCheck.tvSec ≠ 0 ∧
      |throttle * (usecs t - usecs w.queue.lastThrottleCheck)| < 1000000

theorem Throttled.bucket (h : Throttled throttle w) :
    Bucket w.queue throttle w.queue.fifo.throttleBuckets w.queue.lastThrottleCheck :=
  ⟨h.rate, rfl, rfl⟩

theorem Throttled.new {throttle : Int} (hpos : 0 < throttle) (qoverflowSize : Int)
    (storedMessages droppedMessages : StatsCounterItem) :
    Throttled throttle (ThrottleWorld.new (M := M) (F := F) (U := U) (D := D) qoverflowSize throttle
      storedMessages droppedMessages) where
  rate := rfl
  nonneg := hpos.le
  le := le_rfl
  unread _ := rfl
  reading t ht := by cases ht

theorem Throttled.step {maxThreads : Nat} {throttle : Int} (hpos : 0 < throttle) (h31 : throttle < 2 ^ 31)
    {w w' : ThrottleWorld M F U D} {op : QueueOp M F U D} (hn : SoundNext maxThreads w op w')
    (h : Throttled throttle w) : Throttled throttle w' := by
  obtain ⟨nodes, ts, buckets', last', hpop, hread, ⟨ht, hb, hl⟩, hM⟩ :=
    throttleStep_moved hn h.bucket hpos h31 h.nonneg h.le
  cases hM with
  | quiet =>
    rw [append_nil] at hread
    exact ⟨ht, by rw [hb]; exact h.nonneg, by rw [hb]; exact h.le, by rw [hread, hl]; exact h.unread,
      by rw [hread, hl]; exact h.reading⟩
  | drawn node hdraw =>
    rw [append_nil] at hread
    have hle := h.le
    exact ⟨ht, by rw [hb]; omega, by rw [hb]; omega, by rw [hread, hl]; exact h.unread,
      by rw [hread, hl]; exact h.reading⟩
  | @read now last' buckets' hR =>
    have hne : w'.readings ≠ [] := by simp [hread]
    have hlast : w'.readings.getLast? = some now := by simp [hread]
    have htaken (P : GTimeVal → Prop) (hP : P now) (t : GTimeVal)
        (hw : w'.readings.getLast? = some t) : P t := by
      rw [hlast] at hw
      cases hw
      exact hP
    cases hR with
    | first hsec =>
      exact ⟨ht, by rw [hb]; exact h.nonneg, by rw [hb]; exact h.le, fun he => absurd he hne,
        htaken _ (.inl hl)⟩
    | early hsec hlow hhigh =>
      refine ⟨ht, by rw [hb]; exact h.nonneg, by rw [hb]; exact h.le, fun he => absurd he hne,
        htaken _ (.inr ?_)⟩
      rw [hl]
      exact ⟨hsec, abs_lt.2 ⟨hlow, hhigh⟩⟩
    | earned _ _ _ h0 hle =>
      exact ⟨ht, by rw [hb]; exact h0, by rw [hb]; exact hle, fun he => absurd he hne,
        htaken _ (.inl hl)⟩

/-- A clock that never goes backwards. -/
def Forward (ts : List GTimeVal) : Prop := ts.Pairwise fun a b => usecs a ≤ usecs b

/-- The microseconds from the first reading to the last. -/
def elapsed : List GTimeVal → Int
  | [] => 0
  | t :: ts => usecs ((t :: ts).getLast (cons_ne_nil t ts)) - usecs t

/-- The readings of the time from `w` to `w'`: the one that was the last in `w`, and those taken
since. -/
def readingsSince (w w' : ThrottleWorld M F U D) : List GTimeVal :=
  w'.readings.drop (w.readings.length - 1)

theorem readings_step {op : QueueOp M F U D} (h : SoundNext maxThreads w op w') :
    w.readings <+: w'.readings := by
  obtain ⟨⟨q', e⟩, -, rfl⟩ := map_eq_some_iff.1 h.1.2
  exact prefix_append _ _

theorem readings_run (h : Run (SoundNext maxThreads) w ops w') : w.readings <+: w'.readings :=
  h.rel (R := fun w w' => w.readings <+: w'.readings) (fun _ => prefix_rfl)
    (fun _ _ _ => List.IsPrefix.trans) fun _ _ _ => readings_step

def uncounted (w : ThrottleWorld M F U D) (t : GTimeVal) : Int :=
  max 0 (usecs t - usecs w.queue.lastThrottleCheck)

theorem Forward.le_getLast {t : GTimeVal} {ts : List GTimeVal} (h : Forward (t :: ts)) :
    usecs t ≤ usecs ((t :: ts).getLast (cons_ne_nil t ts)) := by
  rcases mem_cons.1 (getLast_mem (cons_ne_nil t ts)) with heq | hmem
  · exact (congrArg usecs heq).ge
  · exact (pairwise_cons.1 h).1 _ hmem

/-- From a reading on: the nodes popped and the buckets left are paid for by the buckets there
were and the time since the last check. -/
theorem popped_le_of_reading (hpos : 0 < throttle) (h31 : throttle < 2 ^ 31)
    (hrun : Run (SoundNext maxThreads) w ops w') (h : Throttled throttle w) {t : GTimeVal}
    {ts : List GTimeVal} (ht : w.readings.getLast? = some t) (hts : w'.readings = w.readings ++ ts)
    (hfwd : Forward (t :: ts)) :
    ((w'.popped.length : Int) - w.popped.length) * 1000000 + w'.queue.fifo.throttleBuckets * 1000000 ≤
      w.queue.fifo.throttleBuckets * 1000000 +
        throttle * uncounted w ((t :: ts).getLast (cons_ne_nil t ts)) := by
  induction hrun generalizing t ts with
  | refl w =>
    have := mul_nonneg hpos.le (le_max_left 0 (usecs ((t :: ts).getLast (cons_ne_nil t ts)) -
      usecs w.queue.lastThrottleCheck))
    unfold uncounted
    omega
  | @step w v w' op ops hn hrest ih =>
    have hv := h.step hpos h31 hn
    obtain ⟨nodes, rs, buckets', last', hpop, hread, ⟨-, hb, hl⟩, hM⟩ :=
      throttleStep_moved hn h.bucket hpos h31 h.nonneg h.le
    obtain ⟨ts', hts'⟩ := readings_run hrest
    obtain rfl : ts = rs ++ ts' := by
      rw [← hts', hread, append_assoc] at hts
      exact (append_cancel_left hts).symm
    cases hM with
    | quiet =>
      rw [append_nil] at hread hpop
      have := ih hv (by rw [hread]; exact ht) hts'.symm hfwd
      rw [hpop, hb] at this
      simpa only [uncounted, hl, nil_append] using this
    | drawn node hdraw =>
      rw [append_nil] at hread
      have := ih hv (by rw [hread]; exact ht) hts'.symm hfwd
      rw [hpop, hb, length_append, length_singleton] at this
      simp only [uncounted, hl] at this ⊢
      push_cast at this
      simp only [nil_append] at this ⊢
      omega
    | @read now last' buckets' hR =>
      rw [append_nil] at hpop
      have htnow : usecs t ≤ usecs now := (pairwise_cons.1 hfwd).1 now (by simp)
      have hfwd' : Forward (now :: ts') := (pairwise_cons.1 hfwd).2
      have hend := hfwd'.le_getLast
      have := ih hv (by simp [hread]) hts'.symm hfwd'
      have hlast : (t :: ([now] ++ ts')).getLast (cons_ne_nil _ _) =
          (now :: ts').getLast (cons_ne_nil _ _) := getLast_cons (cons_ne_nil _ _)
      rw [hpop, hb] at this
      rw [hlast]
      simp only [uncounted, hl] at this ⊢
      generalize usecs ((now :: ts').getLast (cons_ne_nil _ _)) = e at *
      cases hR with
      | first hsec =>
        -- an unset check time is the last reading itself
        have hle : usecs w.queue.lastThrottleCheck ≤ usecs last' := by
          rcases h.reading t ht with heq | ⟨hne, -⟩
          · rw [heq]; exact htnow
          · exact absurd hsec hne
        have := mul_le_mul_of_nonneg_left
          (max_le_max (le_refl 0) (show e - usecs last' ≤ e - usecs w.queue.lastThrottleCheck by omega))
          hpos.le
        omega
      | early hsec hlow hhigh => exact this
      | earned hsec hback hforth h0 hle =>
        have hge : usecs w.queue.lastThrottleCheck ≤ usecs last' := by
          by_contra hlt
          have hfar := hback (by omega)
          rcases h.reading t ht with heq | ⟨-, hnear⟩
          · rw [heq] at hlt; omega
          · have hmono := mul_le_mul_of_nonneg_left (show usecs t - usecs w.queue.lastThrottleCheck ≤
              usecs last' - usecs w.queue.lastThrottleCheck by omega) hpos.le
            have := (abs_lt.1 hnear).1
            omega
        have hsplit : throttle * (e - usecs w.queue.lastThrottleCheck) =
            throttle * (e - usecs last') + throttle * (usecs last' - usecs w.queue.lastThrottleCheck) := by
          ring
        have hearned := hforth hge
        rw [max_eq_right (by omega)] at this
        rw [max_eq_right (by omega)]
        omega

theorem elapsed_nonneg {ts : List GTimeVal} (h : Forward ts) : 0 ≤ elapsed ts := by
  cases ts with
  | nil => exact le_rfl
  | cons t ts => exact sub_nonneg.2 h.le_getLast

theorem popped_le_of_unread (hpos : 0 < throttle) (h31 : throttle < 2 ^ 31)
    (hrun : Run (SoundNext maxThreads) w ops w') (h : Throttled throttle w) (hnil : w.readings = [])
    (hfwd : Forward w'.readings) :
    ((w'.popped.length : Int) - w.popped.length) * 1000000 + w'.queue.fifo.throttleBuckets * 1000000 ≤
      w.queue.fifo.throttleBuckets * 1000000 + throttle * elapsed w'.readings := by
  induction hrun with
  | refl w =>
    have := mul_nonneg hpos.le (elapsed_nonneg hfwd)
    omega
  | @step w v w' op ops hn hrest ih =>
    have hv := h.step hpos h31 hn
    obtain ⟨nodes, rs, buckets', last', hpop, hread, ⟨-, hb, hl⟩, hM⟩ :=
      throttleStep_moved hn h.bucket hpos h31 h.nonneg h.le
    cases hM with
    | quiet =>
      have := ih hv (by rw [hread, hnil]; rfl) hfwd
      rwa [hpop, hb, append_nil] at this
    | drawn node hdraw =>
      have := ih hv (by rw [hread, hnil]; rfl) hfwd
      rw [hpop, hb, length_append, length_singleton] at this
      push_cast at this
      omega
    | @read now last' buckets' hR =>
      obtain ⟨ts', hts'⟩ := readings_run hrest
      have hsec := h.unread hnil
      cases hR with
      | early hne => exact absurd hsec hne
      | earned hne => exact absurd hsec hne
      | first =>
        have hts : w'.readings = last' :: ts' := by rw [← hts', hread, hnil]; rfl
        rw [hts] at hfwd
        have := popped_le_of_reading hpos h31 hrest hv (by simp [hread]) hts'.symm hfwd
        rw [hpop, hb, append_nil, uncounted, hl, max_eq_right (sub_nonneg.2 hfwd.le_getLast)] at this
        rw [hts]
        exact this

/-- What was popped from `w` to `w'` is no more than `throttle`, and `throttle` for each second
between the readings. -/
def WithinRate (throttle : Int) (w w' : ThrottleWorld M F U D) : Prop :=
  ((w'.popped.length : Int) - w.popped.length) * 1000000 ≤
    throttle * 1000000 + throttle * elapsed (readingsSince w w')

/-- The last reading moved the time of the last check, or there was none. -/
def Counted (w : ThrottleWorld M F U D) : Prop :=
  ∀ t, w.readings.getLast? = some t → w.queue.lastThrottleCheck = t

theorem withinRate_of_run (hpos : 0 < throttle) (h31 : throttle < 2 ^ 31)
    (hrun : Run (SoundNext maxThreads) w ops w') (h : Throttled throttle w)
    (hfwd : Forward (readingsSince w w')) :
    (Counted w → WithinRate throttle w w') ∧ ((w'.popped.length : Int) - w.popped.length) * 1000000 <
        (throttle + 1) * 1000000 + throttle * elapsed (readingsSince w w') := by
  have hle := h.le
  have h0' : 0 ≤ w'.queue.fifo.throttleBuckets :=
    (hrun.invariant (fun _ _ _ hn hv => hv.step hpos h31 hn) h).nonneg
  obtain ⟨ts, hts⟩ := readings_run hrun
  rcases eq_nil_or_concat w.readings with hnil | ⟨older, t, hcons⟩
  · have hall : readingsSince w w' = w'.readings := by simp [readingsSince, hnil]
    rw [hall] at hfwd
    have := popped_le_of_unread hpos h31 hrun h hnil hfwd
    rw [WithinRate, hall]
    exact ⟨fun _ => by omega, by omega⟩
  · have hlast : w.readings.getLast? = some t := by simp [hcons]
    have hsince : readingsSince w w' = t :: ts := by
      simp [readingsSince, ← hts, hcons]
    rw [hsince] at hfwd
    have := popped_le_of_reading hpos h31 hrun h hlast hts.symm hfwd
    have hend := hfwd.le_getLast
    rw [WithinRate, hsince, elapsed]
    unfold uncounted at this
    generalize usecs ((t :: ts).getLast (cons_ne_nil _ _)) = e at *
    refine ⟨fun hcounted => ?_, ?_⟩
    · rw [hcounted t hlast, max_eq_right (by omega)] at this
      omega
    · have hgap : |throttle * (usecs t - usecs w.queue.lastThrottleCheck)| < 1000000 := by
        rcases h.reading t hlast with heq | ⟨-, hnear⟩
        · simp [heq]
        · exact hnear
      have hsplit : throttle * (e - usecs w.queue.lastThrottleCheck) =
          throttle * (e - usecs t) + throttle * (usecs t - usecs w.queue.lastThrottleCheck) := by
        ring
      have hnn : 0 ≤ throttle * (e - usecs t) := mul_nonneg hpos.le (by omega)
      have := (abs_lt.1 hgap).2
      rcases le_total (e - usecs w.queue.lastThrottleCheck) 0 with hneg | hpos'
      · rw [max_eq_left hneg] at *
        omega
      · rw [max_eq_right hpos'] at *
        omega

/-- **While every reading fits the buckets, the throttle is a token bucket**: the buckets stay
between 0 and `throttle`, and over any time in which the clock does not go backwards at most
`throttle` messages and `throttle` for each second are popped, if the time starts with a counted
reading. Otherwise the part of a second before it may add up to one message. -/
theorem log_queue_throttle_token_bucket (maxThreads : Nat) (qoverflowSize throttle : Int)
    (storedMessages droppedMessages : StatsCounterItem) (hpos : 0 < throttle)
    (h31 : throttle < 2 ^ 31) {ops : List (QueueOp M F U D)} {w : ThrottleWorld M F U D}
    (hrun : Run (SoundNext maxThreads) (.new qoverflowSize throttle storedMessages droppedMessages) ops w) :
    (0 ≤ w.queue.fifo.throttleBuckets ∧ w.queue.fifo.throttleBuckets ≤ throttle) ∧
      ∀ (ops' : List (QueueOp M F U D)) (w' : ThrottleWorld M F U D),
        Run (SoundNext maxThreads) w ops' w' → Forward (readingsSince w w') →
        (Counted w → WithinRate throttle w w') ∧
          ((w'.popped.length : Int) - w.popped.length) * 1000000 <
            (throttle + 1) * 1000000 + throttle * elapsed (readingsSince w w') := by
  have h : Throttled throttle w := hrun.invariant (fun _ _ _ hn hv => hv.step hpos h31 hn)
    (.new hpos qoverflowSize storedMessages droppedMessages)
  exact ⟨⟨h.nonneg, h.le⟩, fun ops' w' hrun' hfwd => withinRate_of_run hpos h31 hrun' h hfwd⟩

def oneMessage : List (QueueOp Unit Unit Unit Unit) :=
  [.pushTail none ⟨(), false⟩ 0, .checkItems 1 ⟨none, none, none⟩ ⟨100, 0⟩, .popHead false false]

theorem log_queue_throttle_token_bucket_one_message :
    ∃ w : ThrottleWorld Unit Unit Unit Unit, w.popped.length = 1 ∧
      0 ≤ w.queue.fifo.throttleBuckets ∧ w.queue.fifo.throttleBuckets ≤ 10 := by
  have hrun : Run (SoundNext 0) (.new 100 10 none none) oneMessage _ :=
    .step ⟨⟨trivial, rfl⟩, trivial⟩
      (.step ⟨⟨trivial, rfl⟩, fun _ => .inl rfl⟩ (.step ⟨⟨rfl, rfl⟩, trivial⟩ (.refl _)))
  exact ⟨_, rfl, (log_queue_throttle_token_bucket 0 100 10 none none (by decide) (by decide) hrun).1⟩

def setBack : List (QueueOp Unit Unit Unit Unit) :=
  [.pushTail none ⟨(), false⟩ 0, .checkItems 1 ⟨none, none, none⟩ ⟨100, 0⟩,
    .checkItems 1 ⟨none, none, none⟩ ⟨1, 0⟩]

/-- When the clock is set back far enough the buckets become negative. -/
theorem log_queue_throttle_set_back :
    ¬ ∀ (maxThreads : Nat) (qoverflowSize throttle : Int), 0 < throttle → throttle < 2 ^ 31 →
      ∀ (ops : List (QueueOp Unit Unit Unit Unit)) (w : ThrottleWorld Unit Unit Unit Unit),
        Run (ThrottleNext maxThreads) (.new qoverflowSize throttle none none) ops w →
        (0 ≤ w.queue.fifo.throttleBuckets ∧ w.queue.fifo.throttleBuckets ≤ throttle) ∧
          ∀ (ops' : List (QueueOp Unit Unit Unit Unit)) (w' : ThrottleWorld Unit Unit Unit Unit),
            Run (ThrottleNext maxThreads) w ops' w' → Forward (readingsSince w w') →
            WithinRate throttle w w' := by
  intro h
  have hrun : Run (ThrottleNext 0) (.new 100 10 none none) setBack _ :=
    .step ⟨trivial, rfl⟩ (.step ⟨trivial, rfl⟩ (.step ⟨trivial, rfl⟩ (.refl _)))
  have hneg := (h 0 100 10 (by decide) (by decide) _ _ hrun).1.1
  exact absurd hneg (by decide)

end SyslogNg.LogQueue
