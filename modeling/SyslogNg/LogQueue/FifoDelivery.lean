import SyslogNg.LogQueue.FifoRun
import Mathlib.Algebra.Order.BigOperators.Group.Finset

/-!
# The memory queue loses nothing

While no input list reaches `2 ^ 16` nodes, the counters are the lengths of the lists
(`CountersExact`), and a pop takes the head of the output list followed by the wait list.
Every queued message is then handed out after enough pops; one that sits in an input list is
moved first, and only a list longer than `log_fifo_size` loses messages there, each of them
counted. At `2 ^ 16` the `guint16` counter of an input list wraps to `0`; its nodes are
moved along but no pop returns them any more.
-/

namespace SyslogNg.LogQueue

open Lib List Function
open Option (map_eq_some_iff)

variable {M : Type}

def LogQueueFifo.total (maxThreads : Nat) (q : LogQueueFifo M) : Nat :=
  ∑ t ∈ Finset.range maxThreads, (q.qoverflowInput t).items.length +
    q.qoverflowWait.length + q.qoverflowOutput.length + q.qbacklog.length

/-- The output list followed by the wait list: what pops will return. -/
def LogQueueFifo.pending (q : LogQueueFifo M) : List (LogMessageQueueNode M) :=
  q.qoverflowOutput ++ q.qoverflowWait

def QoverflowInput.Exact (i : QoverflowInput M) : Prop :=
  i.len = i.items.length ∧ i.items.length < 2 ^ 16

/-- The counters are the lengths of the lists, and the output thread is not asleep. -/
structure CountersExact (maxThreads : Nat) (q : LogQueueFifo M) : Prop where
  wait : q.qoverflowWaitLen = q.qoverflowWait.length
  output : q.qoverflowOutputLen = q.qoverflowOutput.length
  backlog : q.qbacklogLen = q.qbacklog.length
  input : ∀ t, (q.qoverflowInput t).Exact
  total : q.total maxThreads < 2 ^ 31
  awake : q.parallelPushNotify = none

/-- What keeps the counters exact: an input list stays below `2 ^ 16` nodes and the queue
below `2 ^ 31`. -/
def WithinCounters (maxThreads : Nat) (w : FifoWorld M) : FifoOp M → Prop
  | .pushTail (some t) _ _ _ => (w.queue.qoverflowInput t).items.length + 1 < 2 ^ 16 ∧
      w.queue.total maxThreads + 1 < 2 ^ 31
  | .pushTail none _ _ _ | .pushHead _ => w.queue.total maxThreads + 1 < 2 ^ 31
  | _ => True

instance (maxThreads : Nat) (w : FifoWorld M) :
    (op : FifoOp M) → Decidable (WithinCounters maxThreads w op)
  | .pushTail (some _) _ _ _ => inferInstanceAs (Decidable (_ ∧ _))
  | .pushTail none _ _ _ | .pushHead _ => inferInstanceAs (Decidable (_ < _))
  | .moveInput .. | .popHead .. | .ackBacklog _ | .rewindBacklog | .setThrottle _ =>
    inferInstanceAs (Decidable True)

theorem total_update {maxThreads t : Nat} (ht : t < maxThreads) (f : Nat → QoverflowInput M)
    (i : QoverflowInput M) :
    ∑ u ∈ Finset.range maxThreads, (update f t i u).items.length + (f t).items.length =
      ∑ u ∈ Finset.range maxThreads, (f u).items.length + i.items.length :=
  sum_range_update ht f i fun j => j.items.length

section Exact

variable {maxThreads : Nat} {q q' : LogQueueFifo M}

theorem CountersExact.pushTail {threadId : Option Nat} {node : LogMessageQueueNode M}
    {outputLen notifyLen : Int} {dropped : List (LogMessageQueueNode M)} (hq : CountersExact maxThreads q)
    (htotal : q.total maxThreads + 1 < 2 ^ 31)
    (h16 : ∀ t, threadId = some t → (q.qoverflowInput t).items.length + 1 < 2 ^ 16)
    (h : logQueueFifoPushTail maxThreads q threadId node outputLen notifyLen = some (q', dropped)) :
    CountersExact maxThreads q' := by
  obtain ⟨hwait, hout, hback, hin, htot, hawake⟩ := hq
  obtain ⟨t, rfl, ht, -, rfl⟩ | ⟨p, -, -, hp, rfl⟩ | ⟨-, -, rfl⟩ := pushTail_cases h
  · have hlt := h16 t rfl
    refine ⟨hwait, hout, hback, ?_, ?_, hawake⟩
    · refine (forall_update_iff _ (fun _ => QoverflowInput.Exact)).2
        ⟨?_, fun u _ => hin u⟩
      obtain ⟨h1, h2⟩ := hin t
      simp only [QoverflowInput.Exact, length_append, length_singleton]
      omega
    · have hu := total_update ht q.qoverflowInput
        ⟨(q.qoverflowInput t).items ++ [node], ((q.qoverflowInput t).len + 1) % 2 ^ 16, true⟩
      simp only [length_append, length_singleton] at hu
      simp only [LogQueueFifo.total] at htotal ⊢
      omega
  · have hlen : q.qoverflowWait.length + 1 < 2 ^ 31 := by
      simp only [LogQueueFifo.total] at htotal
      omega
    refine ⟨?_, hout, hback, hin, ?_, hp.elim id (·.trans hawake)⟩
    · rw [hwait, wrap32_eq_self ⟨by omega, by omega⟩]
      simp
    · simp only [LogQueueFifo.total, length_append, length_singleton] at htotal ⊢
      omega
  · exact ⟨hwait, hout, hback, hin, htot, hawake⟩

theorem CountersExact.moveInput {t : Nat} {outputLen notifyLen : Int}
    {dropped : List (LogMessageQueueNode M)} (ht : t < maxThreads) (hq : CountersExact maxThreads q)
    (h : logQueueFifoMoveInput q t outputLen notifyLen = some (q', dropped)) :
    CountersExact maxThreads q' := by
  obtain ⟨hwait, hout, hback, hin, htot, hawake⟩ := hq
  obtain ⟨kept, p, hitems, hlen, hp, rfl⟩ := moveInput_cases ((hin t).1 ▸ (hin t).2) h
  have hkept : (q.qoverflowInput t).len - dropped.length = kept.length := by
    rw [(hin t).1, hitems, length_append]
    omega
  have hu := total_update ht q.qoverflowInput ⟨[], 0, false⟩
  simp only [hitems, length_append, length_nil] at hu
  simp only [LogQueueFifo.total] at htot
  refine ⟨?_, hout, hback, ?_, ?_, hp.elim id (·.trans hawake)⟩
  · rw [hwait, hkept, wrap32_eq_self ⟨by omega, by omega⟩]
    simp
  · exact (forall_update_iff _ (fun _ => QoverflowInput.Exact)).2
      ⟨by simp [QoverflowInput.Exact], fun u _ => hin u⟩
  · simp only [LogQueueFifo.total, length_append]
    omega

theorem CountersExact.popHeadRefill (hq : CountersExact maxThreads q) :
    CountersExact maxThreads (popHeadRefill q) ∧ (popHeadRefill q).pending = q.pending ∧
      (q.pending ≠ [] → (popHeadRefill q).qoverflowOutput ≠ []) := by
  obtain ⟨hwait, hout, hback, hin, htot, hawake⟩ := hq
  unfold LogQueue.popHeadRefill
  split
  · rename_i h0
    have hnil : q.qoverflowOutput = [] := by
      rw [hout] at h0
      exact length_eq_zero_iff.1 (by omega)
    refine ⟨⟨rfl, ?_, hback, hin, ?_, hawake⟩, ?_, ?_⟩
    · simp [hnil, hwait]
    · simp only [LogQueueFifo.total, length_append, length_nil] at htot ⊢
      omega
    · simp [LogQueueFifo.pending]
    · simp [LogQueueFifo.pending]
  · rename_i h0
    refine ⟨⟨hwait, hout, hback, hin, htot, hawake⟩, rfl, fun _ hnil => h0 ?_⟩
    rw [hout, hnil]
    rfl

theorem CountersExact.popHead {pushToBacklog ignoreThrottle : Bool} {r : Option (LogMessageQueueNode M)}
    (hq : CountersExact maxThreads q)
    (h : logQueueFifoPopHead q pushToBacklog ignoreThrottle = some (q', r)) :
    CountersExact maxThreads q' := by
  obtain ⟨hr, -, -⟩ := hq.popHeadRefill
  have hb : (LogQueue.popHeadRefill q).qbacklog = q.qbacklog := by
    unfold LogQueue.popHeadRefill; split <;> rfl
  obtain ⟨-, rfl | ⟨rfl, -⟩⟩ | ⟨node, rest, -, hpos, hout, rfl⟩ := popHead_cases h
  · exact hq
  · exact hr
  · have htot := hr.total
    have hlen := hr.output
    simp only [LogQueueFifo.total, hout, length_cons, hb] at htot hlen
    refine ⟨hr.wait, by simp [hlen], ?_, hr.input, ?_, hr.awake⟩
    · cases pushToBacklog
      · simpa using hq.backlog
      · have := hq.backlog
        simp only [↓reduceIte, length_append, length_singleton, this]
        rw [wrap32_eq_self ⟨by omega, by omega⟩]
        simp
    · simp only [LogQueueFifo.total, length_append]
      cases pushToBacklog <;> simp <;> omega

theorem CountersExact.pushHead {node : LogMessageQueueNode M} (hq : CountersExact maxThreads q)
    (htotal : q.total maxThreads + 1 < 2 ^ 31) (h : logQueueFifoPushHead q node = some q') :
    CountersExact maxThreads q' := by
  obtain ⟨hwait, hout, hback, hin, htot, hawake⟩ := hq
  unfold logQueueFifoPushHead at h
  split at h
  · cases h
  · cases h
    simp only [LogQueueFifo.total] at htotal
    refine ⟨hwait, ?_, hback, hin, ?_, hawake⟩
    · rw [hout, wrap32_eq_self ⟨by omega, by omega⟩]
      simp
    · simp only [LogQueueFifo.total, length_cons]
      omega

theorem CountersExact.ackBacklog {n : Int} {acked : List (LogMessageQueueNode M)}
    (hq : CountersExact maxThreads q) (h : logQueueFifoAckBacklog q n = some (q', acked)) :
    CountersExact maxThreads q' := by
  obtain ⟨hwait, hout, hback, hin, htot, hawake⟩ := hq
  unfold logQueueFifoAckBacklog at h
  split at h
  · cases h
  · obtain ⟨rest, hb, rfl, -, hle⟩ := ackBacklogLoop_spec h
    refine ⟨hwait, hout, ?_, hin, ?_, hawake⟩
    · simp only [hback, hb, length_append]
      push_cast
      omega
    · simp only [LogQueueFifo.total, hb, length_append] at htot ⊢
      omega

theorem CountersExact.rewindBacklog (hq : CountersExact maxThreads q)
    (h : logQueueFifoRewindBacklog q = some q') : CountersExact maxThreads q' := by
  obtain ⟨hwait, hout, hback, hin, htot, hawake⟩ := hq
  unfold logQueueFifoRewindBacklog at h
  split at h
  · cases h
  · cases h
    simp only [LogQueueFifo.total] at htot
    refine ⟨hwait, ?_, rfl, hin, ?_, hawake⟩
    · rw [hout, hback, wrap32_eq_self ⟨by omega, by omega⟩]
      simp
    · simp only [LogQueueFifo.total, length_append, length_nil]
      omega

end Exact

theorem countersExact_new {maxThreads : Nat} (qoverflowSize : Int) (stored dropped : StatsCounterItem) :
    CountersExact maxThreads (FifoWorld.new (M := M) qoverflowSize stored dropped).queue :=
  ⟨rfl, rfl, rfl, fun _ => ⟨rfl, by simp [FifoWorld.new, logQueueFifoNew]⟩,
    by simp [FifoWorld.new, logQueueFifoNew, LogQueueFifo.total], rfl⟩

section

variable [DecidableEq M] {maxThreads : Nat}

theorem countersExact_step {w w' : FifoWorld M} {op : FifoOp M} (h : FifoNext maxThreads w op w')
    (hok : WithinCounters maxThreads w op) (hw : CountersExact maxThreads w.queue) :
    CountersExact maxThreads w'.queue := by
  unfold FifoNext at h
  cases op with
  | pushTail threadId node outputLen notifyLen =>
    simp only [fifoStep, map_eq_some_iff, Prod.exists] at h
    obtain ⟨q, dropped, hp, rfl⟩ := h
    cases threadId with
    | none => exact hw.pushTail hok (fun t ht => by cases ht) hp
    | some t => exact hw.pushTail hok.2 (fun u hu => by cases hu; exact hok.1) hp
  | moveInput t outputLen notifyLen =>
    simp only [fifoStep] at h
    split at h
    · rename_i ht
      simp only [map_eq_some_iff, Prod.exists] at h
      obtain ⟨q, dropped, hp, rfl⟩ := h
      exact hw.moveInput ht hp
    · cases h
  | popHead pushToBacklog ignoreThrottle =>
    simp only [fifoStep, map_eq_some_iff, Prod.exists] at h
    obtain ⟨q, r, hp, rfl⟩ := h
    exact hw.popHead hp
  | pushHead node =>
    simp only [fifoStep] at h
    split at h
    · simp only [map_eq_some_iff] at h
      obtain ⟨q, hp, rfl⟩ := h
      exact hw.pushHead hok hp
    · cases h
  | ackBacklog n =>
    simp only [fifoStep, map_eq_some_iff, Prod.exists] at h
    obtain ⟨q, acked, hp, rfl⟩ := h
    exact hw.ackBacklog hp
  | rewindBacklog =>
    simp only [fifoStep, map_eq_some_iff] at h
    obtain ⟨q, hp, rfl⟩ := h
    exact hw.rewindBacklog hp
  | setThrottle =>
    cases h
    exact ⟨hw.wait, hw.output, hw.backlog, hw.input, hw.total, hw.awake⟩

end

/-! ## Enough pops return everything -/

theorem popHead_pending {maxThreads : Nat} {q : LogQueueFifo M} {node : LogMessageQueueNode M}
    {rest : List (LogMessageQueueNode M)} (hq : CountersExact maxThreads q) (h : q.pending = node :: rest)
    (pushToBacklog : Bool) :
    ∃ q', logQueueFifoPopHead q pushToBacklog true = some (q', some node) ∧ q'.pending = rest ∧
      q'.qoverflowInput = q.qoverflowInput ∧ q'.qoverflowSize = q.qoverflowSize := by
  obtain ⟨hr, hpend, hne⟩ := hq.popHeadRefill
  have hin : (popHeadRefill q).qoverflowInput = q.qoverflowInput ∧
      (popHeadRefill q).qoverflowSize = q.qoverflowSize := by
    unfold popHeadRefill; split <;> exact ⟨rfl, rfl⟩
  obtain ⟨first, tail, hout⟩ := exists_cons_of_ne_nil (hne (by rw [h]; simp))
  have hpos : (popHeadRefill q).qoverflowOutputLen > 0 := by
    rw [hr.output, hout]
    simp
  rw [h, LogQueueFifo.pending, hout, cons_append, List.cons.injEq] at hpend
  obtain ⟨rfl, hrest⟩ := hpend
  unfold logQueueFifoPopHead
  cases pushToBacklog <;>
    simp [hq.awake, hpos, hout, LogQueueFifo.pending, hrest, hin]

section

variable [DecidableEq M] {maxThreads : Nat}

variable {w : FifoWorld M}

theorem drain (l rest : List (LogMessageQueueNode M)) (hw : CountersExact maxThreads w.queue)
    (h : w.queue.pending = l ++ rest) :
    ∃ w', Run (FifoNext maxThreads) w (List.replicate l.length (.popHead false true)) w' ∧
      CountersExact maxThreads w'.queue ∧ w'.queue.pending = rest ∧
      w'.handedOut = w.handedOut ++ l ∧ w'.dropped = w.dropped ∧
      w'.queue.qoverflowInput = w.queue.qoverflowInput ∧ w'.queue.qoverflowSize = w.queue.qoverflowSize := by
  induction l generalizing w with
  | nil => exact ⟨w, .refl w, hw, h, by simp, rfl, rfl, rfl⟩
  | cons node l ih =>
    obtain ⟨q, hpop, hpend, hin, hsize⟩ := popHead_pending hw h false
    have hstep : FifoNext maxThreads w (.popHead false true)
        { w with
            queue := q
            returned := w.returned ++ [node]
            handedOut := w.handedOut ++ [node] } := by
      simp [FifoNext, fifoStep, hpop]
    obtain ⟨w', hrun, hex, h1, h2, h3, h4, h5⟩ := ih (countersExact_step hstep trivial hw) hpend
    refine ⟨w', .step hstep hrun, hex, h1, ?_, h3, h4.trans hin, h5.trans hsize⟩
    rw [h2]
    simp

theorem moveInput_empty {t : Nat} (ht : t < maxThreads) (hw : CountersExact maxThreads w.queue)
    (h : w.queue.pending = []) :
    ∃ w' dropped kept, FifoNext maxThreads w (.moveInput t 0 0) w' ∧
      (w.queue.qoverflowInput t).items = dropped ++ kept ∧ w'.queue.pending = kept ∧
      w'.handedOut = w.handedOut ∧ w'.dropped = w.dropped ++ dropped ∧
      (dropped ≠ [] → w.queue.qoverflowSize < (w.queue.qoverflowInput t).items.length) := by
  obtain ⟨hlen, h16⟩ := hw.input t
  have h16' : (w.queue.qoverflowInput t).len < 2 ^ 16 := hlen ▸ h16
  have hdrops := moveInputDrops_le w.queue t 0 h16'
  have hsome : (logQueueFifoMoveInput w.queue t 0 0).isSome := by
    simp only [logQueueFifoMoveInput, logQueueFifoMoveInputUnlocked, Option.isSome_map]
    exact dropInput_isSome (by omega)
  obtain ⟨⟨q, dropped⟩, hm⟩ := Option.isSome_iff_exists.1 hsome
  obtain ⟨kept, p, hitems, hd, -, hq⟩ := moveInput_cases h16' hm
  obtain ⟨hout, hwait⟩ := append_eq_nil_iff.1 h
  refine ⟨{ w with queue := q, dropped := w.dropped ++ dropped }, dropped, kept, ?_, hitems, ?_,
    rfl, rfl, ?_⟩
  · simp [FifoNext, fifoStep, ht, hm]
  · simp [hq, LogQueueFifo.pending, hout, hwait]
  · intro hne
    have hpos : 0 < moveInputDrops w.queue t 0 := by
      rw [← hd]
      exact length_pos_iff.2 hne
    have hq0 : logQueueFifoGetLength w.queue 0 = 0 := by
      simp [logQueueFifoGetLength, hw.wait, hwait]
    unfold moveInputDrops at hpos
    rw [hq0] at hpos
    dsimp only at hpos
    split at hpos
    · rename_i hgt
      rw [wrap32_eq_self ⟨by omega, by omega⟩] at hgt
      omega
    · omega

/-! ## The queue as a whole -/

inductive FifoPlace where
  | input (threadId : Nat)
  | wait
  | output
  | backlog
  | handedOut
  | acked
  | dropped

def FifoWorld.content (maxThreads : Nat) (w : FifoWorld M) :
    FifoPlace → List (LogMessageQueueNode M)
  | .input t => if t < maxThreads then (w.queue.qoverflowInput t).items else []
  | .wait => w.queue.qoverflowWait
  | .output => w.queue.qoverflowOutput
  | .backlog => w.queue.qbacklog
  | .handedOut => w.handedOut
  | .acked => w.acked
  | .dropped => w.dropped

/-- A message pushed once is in exactly one place, and each drop was counted once. -/
structure FifoConserved (maxThreads : Nat) (counter : StatsCounterItem) (w : FifoWorld M) :
    Prop where
  counts : ∀ x, w.pushed.count x = inputCount maxThreads w.queue.qoverflowInput x +
    w.queue.qoverflowWait.count x + w.queue.qoverflowOutput.count x + w.queue.qbacklog.count x +
    w.handedOut.count x + w.acked.count x + w.dropped.count x
  once : ∀ x, w.pushed.count x = 1 → ∃ p, (w.content maxThreads p).count x = 1 ∧
    ∀ p', x ∈ w.content maxThreads p' → p' = p
  droppedMessages : w.queue.droppedMessages = statsCounterInc^[w.dropped.length] counter

/-- What `log_queue_get_length` counts comes out by pops alone; what sits in an input list
comes out after a move, unless the list is longer than the whole queue may be. -/
structure FifoDelivers (maxThreads : Nat) (w : FifoWorld M) : Prop where
  length : logQueueFifoGetLength w.queue w.queue.qoverflowOutputLen = w.queue.pending.length
  queued : ∀ x ∈ w.queue.pending, ∃ k w' handed,
    Run (FifoNext maxThreads) w (List.replicate k (.popHead false true)) w' ∧
      w'.handedOut = w.handedOut ++ handed ∧ x ∈ handed
  input : ∀ t < maxThreads, ∀ x ∈ (w.queue.qoverflowInput t).items, ∃ j k w' handed dropped,
    Run (FifoNext maxThreads) w (List.replicate j (.popHead false true) ++ .moveInput t 0 0 ::
      List.replicate k (.popHead false true)) w' ∧
      w'.handedOut = w.handedOut ++ handed ∧ w'.dropped = w.dropped ++ dropped ∧
      (x ∈ handed ∨ x ∈ dropped ∧
        w.queue.qoverflowSize < (w.queue.qoverflowInput t).items.length)

theorem count_input_le {t : Nat} (ht : t < maxThreads) (f : Nat → QoverflowInput M)
    (x : LogMessageQueueNode M) : (f t).items.count x ≤ inputCount maxThreads f x :=
  Finset.single_le_sum (f := fun t => (f t).items.count x) (fun _ _ => Nat.zero_le _)
    (Finset.mem_range.2 ht)

theorem count_input_pair_le {t u : Nat} (ht : t < maxThreads) (hu : u < maxThreads) (htu : t ≠ u)
    (f : Nat → QoverflowInput M) (x : LogMessageQueueNode M) :
    (f t).items.count x + (f u).items.count x ≤ inputCount maxThreads f x := by
  rw [← Finset.sum_pair (f := fun t => (f t).items.count x) htu]
  refine Finset.sum_le_sum_of_subset fun v hv => ?_
  simp only [Finset.mem_insert, Finset.mem_singleton] at hv
  rcases hv with rfl | rfl
  · exact Finset.mem_range.2 ht
  · exact Finset.mem_range.2 hu

theorem content_pair_le (maxThreads : Nat) (w : FifoWorld M) (x : LogMessageQueueNode M)
    {p p' : FifoPlace} (hne : p ≠ p') :
    (w.content maxThreads p).count x + (w.content maxThreads p').count x ≤
      inputCount maxThreads w.queue.qoverflowInput x +
        w.queue.qoverflowWait.count x + w.queue.qoverflowOutput.count x +
        w.queue.qbacklog.count x + w.handedOut.count x + w.acked.count x + w.dropped.count x := by
  have hin : ∀ t, (w.content maxThreads (.input t)).count x ≤
      inputCount maxThreads w.queue.qoverflowInput x := by
    intro t
    simp only [FifoWorld.content]
    split
    · rename_i ht
      exact count_input_le ht _ x
    · simp
  cases p with
  | input t =>
    have ht := hin t
    cases p' with
    | input u =>
      simp only [FifoWorld.content] at ht ⊢
      by_cases h1 : t < maxThreads <;> by_cases h2 : u < maxThreads
      · have := count_input_pair_le h1 h2 (fun h => hne (h ▸ rfl)) w.queue.qoverflowInput x
        simp only [h1, h2, ↓reduceIte]
        omega
      · simp only [h1, h2, ↓reduceIte, count_nil] at ht ⊢
        omega
      · have hu := count_input_le h2 w.queue.qoverflowInput x
        simp only [h1, h2, ↓reduceIte, count_nil]
        omega
      · simp only [h1, h2, ↓reduceIte, count_nil]
        omega
    | _ => simp only [FifoWorld.content] at ht ⊢; omega
  | _ =>
    cases p' with
    | input u => have hu := hin u; simp only [FifoWorld.content] at hu ⊢; omega
    | _ => first | exact absurd rfl hne | (simp only [FifoWorld.content]; omega)

theorem FifoInv.toConserved {counter : StatsCounterItem} (h : FifoInv maxThreads counter w) :
    FifoConserved maxThreads counter w := by
  have hcounts : ∀ x, w.pushed.count x = inputCount maxThreads w.queue.qoverflowInput x +
      w.queue.qoverflowWait.count x + w.queue.qoverflowOutput.count x +
      w.queue.qbacklog.count x + w.handedOut.count x + w.acked.count x + w.dropped.count x :=
    fun x => by rw [h.conserved x, LogQueueFifo.held]
  refine ⟨hcounts, fun x hx => ?_, h.droppedMessages⟩
  have hex : ∃ p, 0 < (w.content maxThreads p).count x := by
    by_contra hnone
    push Not at hnone
    have hin : inputCount maxThreads w.queue.qoverflowInput x = 0 := by
      refine Finset.sum_eq_zero fun t ht => ?_
      have := hnone (.input t)
      simpa [FifoWorld.content, Finset.mem_range.1 ht] using this
    have h1 := hnone .wait
    have h2 := hnone .output
    have h3 := hnone .backlog
    have h4 := hnone .handedOut
    have h5 := hnone .acked
    have h6 := hnone .dropped
    have := hcounts x
    simp only [FifoWorld.content] at h1 h2 h3 h4 h5 h6
    omega
  obtain ⟨p, hp⟩ := hex
  refine ⟨p, ?_, fun p' hp' => ?_⟩
  · by_cases hw : p = .wait
    · have hne : p ≠ .output := by simp [hw]
      have := content_pair_le maxThreads w x hne
      have := hcounts x
      omega
    · have := content_pair_le maxThreads w x hw
      have := hcounts x
      omega
  · by_contra hne
    have h1 := content_pair_le maxThreads w x hne
    have h2 := count_pos_iff.2 hp'
    have := hcounts x
    omega

theorem CountersExact.delivers (hw : CountersExact maxThreads w.queue) : FifoDelivers maxThreads w := by
  refine ⟨?_, fun x hx => ?_, fun t ht x hx => ?_⟩
  · have htot := hw.total
    simp only [LogQueueFifo.total] at htot
    rw [logQueueFifoGetLength, hw.wait, hw.output, wrap32_eq_self ⟨by omega, by omega⟩]
    simp only [LogQueueFifo.pending, length_append]
    omega
  · obtain ⟨w', hrun, -, -, hh, -⟩ := drain w.queue.pending [] hw (by simp)
    exact ⟨_, w', _, hrun, hh, hx⟩
  · -- empty the queue, move the input list of `t`, and pop what was moved
    obtain ⟨w1, hrun1, hex1, hp1, hh1, hd1, hin1, hs1⟩ :=
      drain w.queue.pending [] hw (by simp)
    obtain ⟨w2, dropped, kept, hstep, hitems, hp2, hh2, hd2, hover⟩ := moveInput_empty ht hex1 hp1
    have hex2 := countersExact_step hstep trivial hex1
    obtain ⟨w3, hrun3, -, -, hh3, hd3, -⟩ := drain kept [] hex2 (by simp [hp2])
    refine ⟨_, _, w3, w.queue.pending ++ kept, dropped, hrun1.trans (.step hstep hrun3), ?_, ?_, ?_⟩
    · rw [hh3, hh2, hh1, append_assoc]
    · rw [hd3, hd2, hd1]
    · rw [hin1] at hitems hover
      rw [hitems] at hx
      rcases mem_append.1 hx with hx | hx
      · exact .inr ⟨hx, hs1 ▸ hover (ne_nil_of_mem hx)⟩
      · exact .inl (mem_append_right _ hx)

/-- A run whose pushes stay within the counters. -/
abbrev FifoRunWithin (maxThreads : Nat) :=
  Run fun (w : FifoWorld M) op w' => FifoNext maxThreads w op w' ∧ WithinCounters maxThreads w op

/-- The steps of `FifoRunWithin`, executed. -/
def fifoExecWithin (maxThreads : Nat) : FifoWorld M → List (FifoOp M) → Option (FifoWorld M) :=
  exec fun w op => if WithinCounters maxThreads w op then fifoStep maxThreads w op else none

theorem fifoRunWithin_of_exec {w' : FifoWorld M} {ops : List (FifoOp M)}
    (h : fifoExecWithin maxThreads w ops = some w') : FifoRunWithin maxThreads w ops w' := by
  refine Run.of_exec (fun s op t hs => ?_) h
  split at hs
  · rename_i hok
    exact ⟨hs, hok⟩
  · cases hs

/-- **No message is lost or duplicated** while no input list reaches `2 ^ 16` nodes (and the
whole queue `2 ^ 31`): in every state of such a run each pushed message is in exactly one
place, and every queued one can still be handed out. -/
theorem fifo_conserves_and_delivers {qoverflowSize : Int} {stored dropped : StatsCounterItem}
    {ops : List (FifoOp M)} {w : FifoWorld M}
    (h : FifoRunWithin maxThreads (FifoWorld.new qoverflowSize stored dropped) ops w) :
    FifoConserved maxThreads dropped w ∧ FifoDelivers maxThreads w := by
  constructor
  · have hinv : FifoInv maxThreads dropped w :=
      h.invariant (fun _ _ _ hn hi => fifoInv_step hn.1 hi) (fifoInv_new qoverflowSize stored dropped)
    exact hinv.toConserved
  · have hex : CountersExact maxThreads w.queue :=
      h.invariant (I := fun w => CountersExact maxThreads w.queue)
        (fun _ _ _ hn hi => countersExact_step hn.1 hn.2 hi)
        (countersExact_new qoverflowSize stored dropped)
    exact hex.delivers

/-- A worker pushes two messages and another thread one; they are moved and one is popped. -/
theorem fifo_conserves_and_delivers_three :
    ∃ w, FifoConserved 1 (some 0) w ∧ FifoDelivers 1 w ∧ w.pushed.length = 3 ∧
      w.queue.pending = [⟨1, true⟩, ⟨2, true⟩] ∧ w.queue.qbacklog = [⟨3, false⟩] := by
  let ops : List (FifoOp Nat) :=
    [.pushTail (some 0) ⟨1, true⟩ 0 0, .pushTail (some 0) ⟨2, true⟩ 0 0,
      .pushTail none ⟨3, false⟩ 0 0, .moveInput 0 0 0, .popHead true false]
  have hsome : (fifoExecWithin 1 (FifoWorld.new 10 (some 0) (some 0)) ops).isSome := by decide
  obtain ⟨h1, h2⟩ := fifo_conserves_and_delivers
    (fifoRunWithin_of_exec (Option.some_get hsome).symm)
  exact ⟨_, h1, h2, rfl, rfl, rfl⟩

/-! ## The counter of an input list wraps

`2 ^ 16` pushes by one worker bring its counter back to `0`. The nodes are moved to the wait
list, but the counters of the wait and output lists stay `0`, and no pop looks at the lists
themselves. -/

/-- All counters are zero and the input lists are empty, whatever the other lists hold. -/
structure Stuck (q : LogQueueFifo M) : Prop where
  wait : q.qoverflowWaitLen = 0
  output : q.qoverflowOutputLen = 0
  input : ∀ t, (q.qoverflowInput t).items = [] ∧ (q.qoverflowInput t).len = 0

/-- The steps that could bring a message out. -/
def FifoOp.MovesOrPops : FifoOp M → Prop
  | .moveInput .. | .popHead .. => True
  | _ => False

theorem stuck_step {w' : FifoWorld M} {op : FifoOp M} (hop : op.MovesOrPops)
    (h : FifoNext maxThreads w op w') (hw : Stuck w.queue) :
    Stuck w'.queue ∧ w'.handedOut = w.handedOut ∧ w'.dropped = w.dropped := by
  unfold FifoNext at h
  cases op with
  | moveInput t outputLen notifyLen =>
    simp only [fifoStep] at h
    split at h
    · simp only [map_eq_some_iff, Prod.exists] at h
      obtain ⟨q, dropped, hp, rfl⟩ := h
      obtain ⟨hi, hl⟩ := hw.input t
      obtain ⟨kept, p, hitems, -, -, rfl⟩ := moveInput_cases (by omega) hp
      obtain ⟨rfl, rfl⟩ := append_eq_nil_iff.1 (hi ▸ hitems.symm)
      refine ⟨⟨?_, hw.output, ?_⟩, rfl, by simp⟩
      · simp [hw.wait, hl]
      · exact (forall_update_iff _ (fun _ (i : QoverflowInput M) => i.items = [] ∧ i.len = 0)).2
          ⟨⟨rfl, rfl⟩, fun u _ => hw.input u⟩
    · cases h
  | popHead pushToBacklog ignoreThrottle =>
    simp only [fifoStep, map_eq_some_iff, Prod.exists] at h
    obtain ⟨q, r, hp, rfl⟩ := h
    have hr : Stuck (popHeadRefill w.queue) := by
      unfold popHeadRefill
      rw [if_pos hw.output]
      exact ⟨rfl, hw.wait, hw.input⟩
    obtain ⟨rfl, rfl | ⟨rfl, -⟩⟩ | ⟨node, rest, -, hpos, -, -⟩ := popHead_cases hp
    · exact ⟨hw, by simp, rfl⟩
    · exact ⟨hr, by simp, rfl⟩
    · rw [hr.output] at hpos
      omega
  | _ => exact hop.elim

theorem stuck_run {w' : FifoWorld M} {ops : List (FifoOp M)} (hops : ∀ op ∈ ops, op.MovesOrPops)
    (h : Run (FifoNext maxThreads) w ops w') (hw : Stuck w.queue) :
    w'.handedOut = w.handedOut ∧ w'.dropped = w.dropped := by
  induction h with
  | refl => exact ⟨rfl, rfl⟩
  | step hn _ ih =>
    obtain ⟨h1, h2, h3⟩ := stuck_step (hops _ (mem_cons_self ..)) hn hw
    obtain ⟨h4, h5⟩ := ih (fun op hop => hops op (mem_cons_of_mem _ hop)) h1
    exact ⟨h4.trans h2, h5.trans h3⟩

theorem run_pushes (l : List (LogMessageQueueNode M)) (w : FifoWorld M)
    (h16 : (w.queue.qoverflowInput 0).len < 2 ^ 16) :
    ∃ w', Run (FifoNext 1) w (l.map fun x => .pushTail (some 0) x 0 0) w' ∧
      (w'.queue.qoverflowInput 0).items = (w.queue.qoverflowInput 0).items ++ l ∧
      (w'.queue.qoverflowInput 0).len = ((w.queue.qoverflowInput 0).len + l.length) % 2 ^ 16 ∧
      (∀ t ≠ 0, w'.queue.qoverflowInput t = w.queue.qoverflowInput t) ∧
      w'.queue.qoverflowWaitLen = w.queue.qoverflowWaitLen ∧
      w'.queue.qoverflowOutputLen = w.queue.qoverflowOutputLen ∧ w'.queue.pending = w.queue.pending ∧
      w'.handedOut = w.handedOut ∧ w'.dropped = w.dropped := by
  induction l generalizing w with
  | nil =>
    exact ⟨w, .refl w, by simp, (Nat.mod_eq_of_lt h16).symm, fun _ _ => rfl, rfl, rfl, rfl,
      rfl, rfl⟩
  | cons x l ih =>
    let w1 : FifoWorld M := { w with
      queue := { w.queue with
        qoverflowInput := update w.queue.qoverflowInput 0
          ⟨(w.queue.qoverflowInput 0).items ++ [x], ((w.queue.qoverflowInput 0).len + 1) % 2 ^ 16, true⟩ }
      pushed := w.pushed ++ [x] }
    have hstep : FifoNext 1 w (.pushTail (some 0) x 0 0) w1 := by
      simp [FifoNext, fifoStep, logQueueFifoPushTail, w1]
    obtain ⟨w', hrun, h1, h2, h3, h4, h5, h6, h7, h8⟩ := ih w1 (by simp [w1]; omega)
    refine ⟨w', .step hstep hrun, ?_, ?_, fun t ht => ?_, h4, h5, h6, h7, h8⟩
    · rw [h1]
      simp [w1]
    · rw [h2]
      simp only [w1, update_self, length_cons]
      omega
    · rw [h3 t ht]
      exact update_of_ne ht _ _

end

/-- The messages `0, 1, …, 2 ^ 16 - 1`, pushed by one worker, and the move that follows. -/
def wrapOps : List (FifoOp Nat) :=
  ((List.range (2 ^ 16)).map fun i => (⟨i, true⟩ : LogMessageQueueNode Nat)).map
    (fun x => .pushTail (some 0) x 0 0) ++ [.moveInput 0 0 0]

/-- After `wrapOps` all `2 ^ 16` messages sit in the wait list, `log_queue_get_length` says
`0`, and no sequence of moves and pops returns or drops any of them. -/
theorem fifo_input_counter_wraps :
    ∃ w, Run (FifoNext 1) (FifoWorld.new 100000 (some 0) (some 0)) wrapOps w ∧
      w.queue.pending.length = 2 ^ 16 ∧
      logQueueFifoGetLength w.queue w.queue.qoverflowOutputLen = 0 ∧
      (∀ ops w', (∀ op ∈ ops, op.MovesOrPops) → Run (FifoNext 1) w ops w' →
        w'.handedOut = [] ∧ w'.dropped = []) ∧
      ¬ FifoDelivers 1 w := by
  obtain ⟨w1, hrun1, hitems, hlen, hother, hwait, hout, hpend1, hhand, hdrop⟩ :=
    run_pushes ((List.range (2 ^ 16)).map fun i => (⟨i, true⟩ : LogMessageQueueNode Nat))
      (FifoWorld.new 100000 (some 0) (some 0)) (by decide)
  have hlen0 : (w1.queue.qoverflowInput 0).len = 0 := by
    rw [hlen, length_map, length_range]
    rfl
  -- the move takes all nodes along, but adds the counter `0`
  have hdrops : moveInputDrops w1.queue 0 0 = 0 := by
    have := moveInputDrops_le w1.queue 0 0 (by omega)
    omega
  obtain ⟨⟨q, dropped⟩, hm⟩ : ∃ r, logQueueFifoMoveInput w1.queue 0 0 0 = some r := by
    simp [logQueueFifoMoveInput, logQueueFifoMoveInputUnlocked, hdrops, dropInput]
  obtain ⟨kept, p, hkept, hd, -, hq⟩ := moveInput_cases (by omega) hm
  rw [hdrops, length_eq_zero_iff] at hd
  subst hd
  have hstuck : Stuck q := by
    refine ⟨by simp [hq, hwait, hlen0, FifoWorld.new, logQueueFifoNew],
      by simp [hq, hout, FifoWorld.new, logQueueFifoNew], ?_⟩
    rw [hq]
    refine (forall_update_iff _
      (fun _ (i : QoverflowInput Nat) => i.items = [] ∧ i.len = 0)).2 ⟨⟨rfl, rfl⟩, fun t ht => ?_⟩
    rw [hother t ht]
    exact ⟨rfl, rfl⟩
  have hpend : q.pending.length = 2 ^ 16 := by
    have h0 : w1.queue.pending = [] := hpend1
    obtain ⟨h1, h2⟩ := append_eq_nil_iff.1 h0
    rw [hitems] at hkept
    simp only [FifoWorld.new, logQueueFifoNew, nil_append] at hkept
    simp [hq, LogQueueFifo.pending, h1, h2, ← hkept]
  let w : FifoWorld Nat := { w1 with queue := q, dropped := w1.dropped ++ [] }
  have hstep : FifoNext 1 w1 (.moveInput 0 0 0) w := by
    simp [FifoNext, fifoStep, hm, w]
  have hfate : ∀ ops w', (∀ op ∈ ops, op.MovesOrPops) → Run (FifoNext 1) w ops w' →
      w'.handedOut = [] ∧ w'.dropped = [] := by
    intro ops w' hops hrun
    obtain ⟨h1, h2⟩ := stuck_run hops hrun hstuck
    refine ⟨h1.trans hhand, h2.trans ?_⟩
    simp [w, hdrop, FifoWorld.new]
  refine ⟨w, hrun1.trans (.single hstep), hpend, ?_, hfate, fun hdel => ?_⟩
  · simp [logQueueFifoGetLength, w, hstuck.wait, hstuck.output]
  · have hne : q.pending ≠ [] := by
      intro h0
      rw [h0] at hpend
      simp at hpend
    obtain ⟨x, hx⟩ := exists_mem_of_ne_nil _ hne
    obtain ⟨k, w', handed, hrun, hh, hmem⟩ := hdel.queued x hx
    obtain ⟨h1, -⟩ := hfate _ w' (fun op hop => by
      rw [eq_of_mem_replicate hop]
      trivial) hrun
    rw [h1] at hh
    rw [(append_eq_nil_iff.1 hh.symm).2] at hmem
    simp at hmem

end SyslogNg.LogQueue
