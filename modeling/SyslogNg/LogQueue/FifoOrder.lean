import SyslogNg.LogQueue.FifoDelivery

/-!
# The order of messages after a rewind

A consumer pops with `push_to_backlog`, acks a prefix and rewinds. `log_queue_fifo_rewind_backlog`
splices the backlog behind the output list, so the unacked messages come out first only when
nothing was left in the output list (`rewind_order_iff`). Without rewinds the messages of one
thread come out in its order (`popped_in_order`).
-/

namespace SyslogNg.LogQueue

open Lib List Function
open Option (map_eq_some_iff some_get)

variable {M : Type}

/-- The calls that neither put a message back nor rewind. -/
def FifoOp.Forward : FifoOp M → Prop
  | .pushHead _ | .rewindBacklog => False
  | _ => True

/-- Forward calls that pop with `push_to_backlog` only. -/
def FifoOp.WithBacklog : FifoOp M → Prop
  | .popHead pushToBacklog _ => pushToBacklog = true
  | op => op.Forward

theorem FifoOp.WithBacklog.forward {op : FifoOp M} (h : op.WithBacklog) : op.Forward := by
  cases op <;> first | exact h | trivial

/-- What was returned and what is pending is what was pending and what arrived. -/
def InOrder (w w' : FifoWorld M) : Prop :=
  ∃ popped arrived, w'.returned = w.returned ++ popped ∧
    popped ++ w'.queue.pending = w.queue.pending ++ arrived

def BacklogInOrder (w w' : FifoWorld M) : Prop :=
  ∃ popped acked, w'.returned = w.returned ++ popped ∧
    acked ++ w'.queue.qbacklog = w.queue.qbacklog ++ popped

theorem popHead_inOrder {q q' : LogQueueFifo M} {pushToBacklog ignoreThrottle : Bool}
    {r : Option (LogMessageQueueNode M)}
    (h : logQueueFifoPopHead q pushToBacklog ignoreThrottle = some (q', r)) :
    r.toList ++ q'.pending = q.pending ∧ q'.qoverflowInput = q.qoverflowInput ∧
      q'.qbacklog = q.qbacklog ++ (if pushToBacklog then r.toList else []) := by
  have hrefill : (popHeadRefill q).pending = q.pending ∧
      (popHeadRefill q).qoverflowInput = q.qoverflowInput ∧ (popHeadRefill q).qbacklog = q.qbacklog := by
    unfold popHeadRefill; split <;> simp [LogQueueFifo.pending]
  obtain ⟨hpend, hin, hb⟩ := hrefill
  obtain ⟨rfl, rfl | ⟨rfl, -⟩⟩ | ⟨node, rest, rfl, -, hout, rfl⟩ := popHead_cases h
  · simp
  · simp [hpend, hin, hb]
  · rw [← hpend, LogQueueFifo.pending, LogQueueFifo.pending, hout]
    simp [hin]

section

variable [DecidableEq M] {maxThreads : Nat}

variable {w w' : FifoWorld M}

theorem InOrder.refl (w : FifoWorld M) : InOrder w w := ⟨[], [], by simp, by simp⟩

theorem BacklogInOrder.refl (w : FifoWorld M) : BacklogInOrder w w := ⟨[], [], by simp, by simp⟩

theorem order_step {op : FifoOp M} (hop : op.Forward) (hw : CountersExact maxThreads w.queue)
    (h : FifoNext maxThreads w op w') : InOrder w w' ∧ (op.WithBacklog → BacklogInOrder w w') := by
  unfold FifoNext at h
  cases op with
  | pushTail threadId node outputLen notifyLen =>
    simp only [fifoStep, map_eq_some_iff, Prod.exists] at h
    obtain ⟨q, dropped, hp, rfl⟩ := h
    obtain ⟨t, -, -, -, rfl⟩ | ⟨p, -, -, -, rfl⟩ | ⟨-, -, rfl⟩ := pushTail_cases hp
    · exact ⟨.refl w, fun _ => .refl w⟩
    · exact ⟨⟨[], [node], by simp, by simp [LogQueueFifo.pending]⟩, fun _ => .refl w⟩
    · exact ⟨.refl w, fun _ => .refl w⟩
  | moveInput t outputLen notifyLen =>
    simp only [fifoStep] at h
    split at h
    · simp only [map_eq_some_iff, Prod.exists] at h
      obtain ⟨q, dropped, hp, rfl⟩ := h
      obtain ⟨hlen, h16⟩ := hw.input t
      obtain ⟨kept, p, -, -, -, rfl⟩ := moveInput_cases (hlen ▸ h16) hp
      exact ⟨⟨[], kept, by simp, by simp [LogQueueFifo.pending]⟩, fun _ => .refl w⟩
    · cases h
  | popHead pushToBacklog ignoreThrottle =>
    simp only [fifoStep, map_eq_some_iff, Prod.exists] at h
    obtain ⟨q, r, hp, rfl⟩ := h
    obtain ⟨hpending, -, hbacklog⟩ := popHead_inOrder hp
    refine ⟨⟨r.toList, [], rfl, by simpa using hpending⟩, fun hback => ⟨r.toList, [], rfl, ?_⟩⟩
    obtain rfl : pushToBacklog = true := hback
    simpa using hbacklog
  | ackBacklog n =>
    simp only [fifoStep, map_eq_some_iff, Prod.exists, logQueueFifoAckBacklog] at h
    obtain ⟨q, acked, hp, rfl⟩ := h
    split at hp
    · cases hp
    · obtain ⟨rest, hb, rfl, -⟩ := ackBacklogLoop_spec hp
      exact ⟨.refl w, fun _ => ⟨[], acked, by simp, by simp [hb]⟩⟩
  | setThrottle =>
    cases h
    exact ⟨.refl w, fun _ => .refl w⟩
  | pushHead | rewindBacklog => exact hop.elim

theorem order_run {ops : List (FifoOp M)} (hops : ∀ op ∈ ops, op.Forward)
    (hw : CountersExact maxThreads w.queue) (h : FifoRunWithin maxThreads w ops w') :
    InOrder w w' ∧ ((∀ op ∈ ops, op.WithBacklog) → BacklogInOrder w w') := by
  induction h with
  | refl w => exact ⟨.refl w, fun _ => .refl w⟩
  | step hn _ ih =>
    obtain ⟨⟨p1, a1, hr1, ho1⟩, hback1⟩ := order_step (hops _ (mem_cons_self ..)) hw hn.1
    obtain ⟨⟨p2, a2, hr2, ho2⟩, hback2⟩ :=
      ih (fun op hop => hops op (mem_cons_of_mem _ hop)) (countersExact_step hn.1 hn.2 hw)
    refine ⟨⟨p1 ++ p2, a1 ++ a2, by rw [hr2, hr1, append_assoc], ?_⟩, fun hback => ?_⟩
    · rw [append_assoc, ho2, ← append_assoc, ho1, append_assoc]
    · obtain ⟨hb1, hb2⟩ := forall_mem_cons.1 hback
      obtain ⟨q1, b1, hs1, ht1⟩ := hback1 hb1
      obtain ⟨q2, b2, hs2, ht2⟩ := hback2 hb2
      refine ⟨q1 ++ q2, b1 ++ b2, by rw [hs2, hs1, append_assoc], ?_⟩
      rw [append_assoc, ht2, ← append_assoc, ht1, append_assoc]

/-- The messages still to come after the rewind of `w` are its backlog, in pop order, then
what had not been popped, then what arrives later. -/
def ResendsInOrder (maxThreads : Nat) (w w' : FifoWorld M) : Prop :=
  ∀ ops v, (∀ op ∈ ops, op.Forward) → FifoRunWithin maxThreads w' ops v →
    ∃ popped arrived, v.returned = w.returned ++ popped ∧
      popped ++ v.queue.pending = w.queue.qbacklog ++ w.queue.pending ++ arrived

theorem rewindBacklog_next (h : FifoNext maxThreads w .rewindBacklog w') :
    w'.returned = w.returned ∧
      w'.queue.pending = w.queue.qoverflowOutput ++ w.queue.qbacklog ++ w.queue.qoverflowWait := by
  simp only [FifoNext, fifoStep, map_eq_some_iff, logQueueFifoRewindBacklog] at h
  obtain ⟨q, hp, rfl⟩ := h
  split at hp
  · cases hp
  · cases hp
    exact ⟨rfl, rfl⟩

theorem output_disjoint_backlog {counter : StatsCounterItem} (hinv : FifoInv maxThreads counter w)
    (hd : w.pushed.Nodup) {x : LogMessageQueueNode M} (ho : x ∈ w.queue.qoverflowOutput)
    (hb : x ∈ w.queue.qbacklog) : False := by
  have h1 := count_pos_iff.2 ho
  have h2 := count_pos_iff.2 hb
  have h3 := nodup_iff_count_le_one.1 hd x
  have h4 := hinv.conserved x
  simp only [LogQueueFifo.held] at h4
  omega

/-- **Order after a rewind.** From any state `w` a consumer pops with backlog and acks a prefix,
leading to `w₁`, and rewinds. The backlog of `w₁` is then the popped messages in pop order
without the acked prefix, and if the output list or the backlog of `w₁` is empty, the resent
messages come first and in order. If neither is empty they do not. -/
theorem rewind_order_iff {qoverflowSize : Int} {stored dropped : StatsCounterItem}
    {ops ops₁ : List (FifoOp M)} {w w₁ w₂ : FifoWorld M}
    (h : FifoRunWithin maxThreads (FifoWorld.new qoverflowSize stored dropped) ops w)
    (hops₁ : ∀ op ∈ ops₁, op.WithBacklog) (h₁ : FifoRunWithin maxThreads w ops₁ w₁)
    (h₂ : FifoNext maxThreads w₁ .rewindBacklog w₂) :
    (∃ popped acked arrived, w₁.returned = w.returned ++ popped ∧
      acked ++ w₁.queue.qbacklog = w.queue.qbacklog ++ popped ∧
      popped ++ w₁.queue.pending = w.queue.pending ++ arrived) ∧
    (w₁.queue.qoverflowOutput = [] ∨ w₁.queue.qbacklog = [] → ResendsInOrder maxThreads w₁ w₂) ∧
    (w₁.pushed.Nodup → ResendsInOrder maxThreads w₁ w₂ →
      w₁.queue.qoverflowOutput = [] ∨ w₁.queue.qbacklog = []) := by
  have hex : CountersExact maxThreads w.queue :=
    h.invariant (I := fun w => CountersExact maxThreads w.queue)
      (fun _ _ _ hn hi => countersExact_step hn.1 hn.2 hi)
      (countersExact_new qoverflowSize stored dropped)
  have hex₁ : CountersExact maxThreads w₁.queue :=
    h₁.invariant (I := fun w => CountersExact maxThreads w.queue)
      (fun _ _ _ hn hi => countersExact_step hn.1 hn.2 hi) hex
  have hex₂ := countersExact_step h₂ trivial hex₁
  obtain ⟨hret, hpend⟩ := rewindBacklog_next h₂
  refine ⟨?_, fun hcond ops₂ v hops₂ hv => ?_, fun hdist hres => ?_⟩
  · obtain ⟨⟨popped', arrived, hr', ho⟩, hback⟩ :=
      order_run (fun op hop => (hops₁ op hop).forward) hex h₁
    obtain ⟨popped, acked, hr, hb⟩ := hback hops₁
    obtain rfl : popped = popped' := append_cancel_left (hr.symm.trans hr')
    exact ⟨popped, acked, arrived, hr, hb, ho⟩
  · obtain ⟨⟨popped, arrived, hr, ho⟩, -⟩ := order_run hops₂ hex₂ hv
    refine ⟨popped, arrived, by rw [hr, hret], ?_⟩
    rw [ho, hpend]
    rcases hcond with hc | hc <;> simp [hc, LogQueueFifo.pending]
  · -- the empty continuation already fixes the order of the pending messages
    obtain ⟨popped, arrived, hr, ho⟩ := hres [] w₂ (by simp) (.refl w₂)
    have hpop : popped = [] := by
      rw [hret] at hr
      simpa using hr
    have hinv : FifoInv maxThreads dropped w₁ :=
      (h.trans h₁).invariant (fun _ _ _ hn hi => fifoInv_step hn.1 hi)
        (fifoInv_new qoverflowSize stored dropped)
    rw [hpop, nil_append, hpend, LogQueueFifo.pending] at ho
    rcases hout : w₁.queue.qoverflowOutput with _ | ⟨x, out⟩
    · exact .inl rfl
    rcases hback : w₁.queue.qbacklog with _ | ⟨y, back⟩
    · exact .inr rfl
    rw [hout, hback] at ho
    obtain ⟨rfl, -⟩ := List.cons.inj ho
    exact (output_disjoint_backlog hinv hdist (x := x) (by simp [hout]) (by simp [hback])).elim

end

/-- Two of three messages are popped with backlog and one is acked; the rewind finds the output
list empty, and the unacked message is pending before the one still in the wait list. -/
theorem rewind_order_iff_three :
    ∃ w₁ w₂ : FifoWorld Nat, w₁.queue.qbacklog = [⟨2, true⟩] ∧
      w₁.queue.pending = [⟨3, true⟩] ∧ ResendsInOrder 1 w₁ w₂ := by
  let ops : List (FifoOp Nat) := [.pushTail none ⟨1, true⟩ 0 0, .pushTail none ⟨2, true⟩ 0 0]
  let ops₁ : List (FifoOp Nat) :=
    [.popHead true true, .popHead true true, .pushTail none ⟨3, true⟩ 0 0, .ackBacklog 1]
  have hsome : (fifoExecWithin 1 (FifoWorld.new 10 (some 0) (some 0)) ops).isSome := by decide
  have hsome₁ : (fifoExecWithin 1 (Option.get _ hsome) ops₁).isSome := rfl
  have hsome₂ : (fifoStep 1 (Option.get _ hsome₁) .rewindBacklog).isSome := rfl
  have hops₁ : ∀ op ∈ ops₁, op.WithBacklog := by
    simp [ops₁, FifoOp.WithBacklog, FifoOp.Forward]
  have h := rewind_order_iff (fifoRunWithin_of_exec (some_get hsome).symm) hops₁
    (fifoRunWithin_of_exec (some_get hsome₁).symm) (some_get hsome₂).symm
  exact ⟨_, _, rfl, rfl, h.2.1 (.inl rfl)⟩

/-- One of three messages is popped and rewound while the other two are in the output list:
the three pops that follow return `2`, `3` and then `1`. -/
theorem rewind_reorders :
    ∃ w₁ w₂ w₃ : FifoWorld Nat,
      FifoRunWithin 1 (FifoWorld.new 10 (some 0) (some 0))
        [.pushTail none ⟨1, true⟩ 0 0, .pushTail none ⟨2, true⟩ 0 0, .pushTail none ⟨3, true⟩ 0 0,
          .popHead true true] w₁ ∧
      FifoNext 1 w₁ .rewindBacklog w₂ ∧
      FifoRunWithin 1 w₂ [.popHead true true, .popHead true true, .popHead true true] w₃ ∧
      w₁.queue.qbacklog = [⟨1, true⟩] ∧ w₁.queue.pending = [⟨2, true⟩, ⟨3, true⟩] ∧
      w₃.returned = w₁.returned ++ [⟨2, true⟩, ⟨3, true⟩, ⟨1, true⟩] ∧
      ¬ ResendsInOrder 1 w₁ w₂ := by
  have hsome₁ : (fifoExecWithin 1 (FifoWorld.new (M := Nat) 10 (some 0) (some 0))
      [.pushTail none ⟨1, true⟩ 0 0, .pushTail none ⟨2, true⟩ 0 0, .pushTail none ⟨3, true⟩ 0 0,
        .popHead true true]).isSome := by decide
  have hsome₂ : (fifoStep 1 (Option.get _ hsome₁) .rewindBacklog).isSome := rfl
  have hsome₃ : (fifoExecWithin 1 (Option.get _ hsome₂)
      [.popHead true true, .popHead true true, .popHead true true]).isSome := rfl
  refine ⟨_, _, _, fifoRunWithin_of_exec (some_get hsome₁).symm,
    (some_get hsome₂).symm, fifoRunWithin_of_exec (some_get hsome₃).symm,
    rfl, rfl, rfl, fun hres => ?_⟩
  obtain ⟨popped, arrived, hr, ho⟩ := hres [] _ (by simp) (.refl _)
  obtain ⟨hret, hpend⟩ := rewindBacklog_next (some_get hsome₂).symm
  rw [hret, self_eq_append_right] at hr
  rw [hr, nil_append, hpend] at ho
  have hne : (⟨2, true⟩ : LogMessageQueueNode Nat) ≠ ⟨1, true⟩ := by decide
  exact hne (List.cons.inj ho).1

/-! ## The messages of one thread -/

/-- Forward calls in which `source` (`none`: no worker) pushes the nodes in `S`, and only these. -/
def FifoOp.PushedBy (S : LogMessageQueueNode M → Bool) (source : Option Nat) : FifoOp M → Prop
  | .pushTail threadId node _ _ => S node = true ↔ threadId = source
  | op => op.Forward

/-- The nodes in `S` that `source` has in its input list come after those in the queue. -/
structure ProducerOrder (S : LogMessageQueueNode M → Bool) (source : Option Nat)
    (w : FifoWorld M) : Prop where
  others : ∀ t, source ≠ some t → (w.queue.qoverflowInput t).items.filter S = []
  order : ∀ t, ((w.returned ++ w.queue.pending).filter S ++
    (w.queue.qoverflowInput t).items.filter S).Sublist (w.pushed.filter S)

section

variable [DecidableEq M] {maxThreads : Nat} {S : LogMessageQueueNode M → Bool} {source : Option Nat}
  {w w' : FifoWorld M}

theorem producerOrder_step {op : FifoOp M} (hop : op.PushedBy S source) (hq : CountersLe w.queue)
    (hw : ProducerOrder S source w) (h : FifoNext maxThreads w op w') :
    ProducerOrder S source w' := by
  obtain ⟨hothers, horder⟩ := hw
  unfold FifoNext at h
  cases op with
  | pushTail threadId node outputLen notifyLen =>
    simp only [fifoStep, map_eq_some_iff, Prod.exists] at h
    obtain ⟨q, dropped, hp, rfl⟩ := h
    have hnode : S node = true ↔ threadId = source := hop
    have hskip : ∀ u, ((w.returned ++ w.queue.pending).filter S ++
        (w.queue.qoverflowInput u).items.filter S).Sublist ((w.pushed ++ [node]).filter S) :=
      fun u => (horder u).trans (by simp)
    have hlast : ∀ u, ((w.returned ++ w.queue.pending).filter S ++
        (w.queue.qoverflowInput u).items.filter S ++ [node].filter S).Sublist
          ((w.pushed ++ [node]).filter S) := fun u => by simpa using (horder u).append (.refl _)
    obtain ⟨t, rfl, -, -, rfl⟩ | ⟨p, rfl, -, -, rfl⟩ | ⟨-, -, rfl⟩ := pushTail_cases hp
    · refine ⟨fun u hu => ?_, fun u => ?_⟩ <;> by_cases hut : u = t
      · subst hut
        simp [hothers u hu, show S node = false by grind]
      · simpa [update_of_ne hut] using hothers u hu
      · subst hut
        simpa [LogQueueFifo.pending] using hlast u
      · simpa [update_of_ne hut, LogQueueFifo.pending] using hskip u
    · refine ⟨hothers, fun u => ?_⟩
      cases hS : S node with
      | true =>
        -- `source` is no worker: the input lists have none of its nodes
        have hlist := hlast u
        rw [hothers u (by simp [← hnode.1 hS]), append_nil] at hlist ⊢
        simpa [LogQueueFifo.pending] using hlist
      | false => simpa [LogQueueFifo.pending, hS] using hskip u
    · exact ⟨hothers, hskip⟩
  | moveInput t outputLen notifyLen =>
    simp only [fifoStep] at h
    split at h
    · simp only [map_eq_some_iff, Prod.exists] at h
      obtain ⟨q, dropped, hp, rfl⟩ := h
      obtain ⟨kept, p, hitems, -, -, rfl⟩ := moveInput_cases (hq.input t).2 hp
      have hmoved : ((w.returned ++ w.queue.pending).filter S ++ kept.filter S).Sublist
          (w.pushed.filter S) := by
        refine .trans ?_ (horder t)
        rw [hitems, filter_append dropped]
        exact (Sublist.refl _).append (sublist_append_right _ _)
      refine ⟨fun u hu => ?_, fun u => ?_⟩ <;> by_cases hut : u = t
      · simp [hut]
      · simpa [update_of_ne hut] using hothers u hu
      · simpa [hut, LogQueueFifo.pending] using hmoved
      · by_cases hs : source = some t
        · have hnil := hothers u (by simp [hs, Ne.symm hut])
          simpa [update_of_ne hut, LogQueueFifo.pending, hnil] using hmoved
        · have hnil := hothers t hs
          rw [hitems, filter_append, append_eq_nil_iff] at hnil
          simpa [update_of_ne hut, LogQueueFifo.pending, hnil.2] using horder u
    · cases h
  | popHead pushToBacklog ignoreThrottle =>
    simp only [fifoStep, map_eq_some_iff, Prod.exists] at h
    obtain ⟨q, r, hp, rfl⟩ := h
    obtain ⟨hpending, hinput, -⟩ := popHead_inOrder hp
    exact ⟨by simpa only [hinput] using hothers,
      by simpa only [hinput, append_assoc, hpending] using horder⟩
  | ackBacklog n =>
    simp only [fifoStep, map_eq_some_iff, Prod.exists, logQueueFifoAckBacklog] at h
    obtain ⟨q, acked, hp, rfl⟩ := h
    split at hp
    · cases hp
    · obtain ⟨rest, -, rfl, -⟩ := ackBacklogLoop_spec hp
      exact ⟨hothers, horder⟩
  | setThrottle =>
    cases h
    exact ⟨hothers, horder⟩
  | pushHead | rewindBacklog => exact hop.elim

/-- **Order per thread.** However the calls of the threads interleave, the messages of one of them
are popped in the order in which it pushed them, whatever is dropped on the way. -/
theorem popped_in_order {qoverflowSize : Int} {stored dropped : StatsCounterItem}
    {ops : List (FifoOp M)} (hops : ∀ op ∈ ops, op.PushedBy S source)
    (h : Run (FifoNext maxThreads) (FifoWorld.new qoverflowSize stored dropped) ops w) :
    (w.returned.filter S).Sublist (w.pushed.filter S) := by
  have hinv : FifoInv maxThreads dropped _ := fifoInv_new (M := M) qoverflowSize stored dropped
  have horder : ProducerOrder S source (FifoWorld.new qoverflowSize stored dropped) :=
    ⟨fun _ _ => rfl, fun _ => .refl []⟩
  generalize FifoWorld.new qoverflowSize stored dropped = v at h hinv horder
  induction h with
  | refl w =>
    exact (((sublist_append_left _ _).filter S).trans (sublist_append_left _ _)).trans (horder.order 0)
  | step hn _ ih =>
    obtain ⟨hop, hops⟩ := forall_mem_cons.1 hops
    exact ih hops (fifoInv_step hn hinv) (producerOrder_step hop hinv.counters horder hn)

end

/-- Worker `1` moves its message before worker `0` moves its two. -/
theorem popped_in_order_three : ∃ w : FifoWorld Nat,
    w.pushed = [⟨1, true⟩, ⟨2, true⟩, ⟨3, true⟩] ∧ w.returned = [⟨2, true⟩, ⟨1, true⟩, ⟨3, true⟩] ∧
      (w.returned.filter (·.msg % 2 == 1)).Sublist (w.pushed.filter (·.msg % 2 == 1)) := by
  let ops : List (FifoOp Nat) := [.pushTail (some 0) ⟨1, true⟩ 0 0, .pushTail (some 1) ⟨2, true⟩ 0 0,
    .pushTail (some 0) ⟨3, true⟩ 0 0, .moveInput 1 0 0, .moveInput 0 0 0,
    .popHead true true, .popHead true true, .popHead true true]
  have hsome : (exec (fifoStep 2) (FifoWorld.new 10 (some 0) (some 0)) ops).isSome := by decide
  have hops : ∀ op ∈ ops, op.PushedBy (·.msg % 2 == 1) (some 0) := by
    simp [ops, FifoOp.PushedBy, FifoOp.Forward]
  exact ⟨_, rfl, rfl, popped_in_order hops (.of_exec (fun _ _ _ => id) (some_get hsome).symm)⟩

end SyslogNg.LogQueue
