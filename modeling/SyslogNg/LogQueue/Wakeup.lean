import SyslogNg.LogQueue.CheckItems

/-!
# Waking up the consumer

A run of calls on a queue by any number of threads. Every callback that is handed over gets a
number, and its function, its data and its destroy function carry that number from then on. A
thread whose push or move takes the callback is in flight: it calls the function and after that
releases the data, both without the lock, so every other call may come in between.

`waiting`, `waited` and `reached` are not in the code: they say, from the calls and the length of
the queue alone, which callbacks are due. A callback that `log_queue_check_items` left because there
were too few items waits until it is replaced or reset, or a push or move brings the length to its
limit.
-/

namespace SyslogNg.LogQueue

open Lib
open Option hiding map mem_map
open List hiding getElem?_eq_some_iff
open List (append_assoc append_nil filterMap_append map_nil mem_append perm_append_comm)
open Option (bind_none bind_some isSome_some map_eq_some_iff toList_none toList_some)

variable {M F U D : Type}

/-- The callback with its number. -/
def Callback.tag (n : Nat) (c : Callback F U D) : Callback (Nat × F) (Nat × U) (Nat × D) where
  parallelPushNotify := c.parallelPushNotify.map (n, ·)
  userData := c.userData.map (n, ·)
  userDataDestroy := c.userDataDestroy.map (n, ·)

abbrev PushNotify (F U : Type) := (Nat × F) × Option (Nat × U)

abbrev Reference (U D : Type) := (Nat × D) × (Nat × U)

/-- A thread that took a callback in `log_queue_push_notify` and left the lock. -/
structure InFlight (F U D : Type) where
  callback : Callback (Nat × F) (Nat × U) (Nat × D)
  called : Bool

structure WakeupWorld (M F U D : Type) where
  queue : LogQueue M (Nat × F) (Nat × U) (Nat × D)
  registered : List (Callback F U D)
  inFlight : List (InFlight F U D)
  invoked : List (PushNotify F U)
  released : List (Reference U D)
  waiting : Option (Nat × Int)
  waited : List Nat
  reached : List Nat

inductive WakeupOp (M F U D : Type) where
  | queue (op : QueueOp M F U D)
  /-- The thread `i` in flight calls the function. -/
  | callBack (i : Nat)
  /-- The thread `i` in flight releases the data and takes the lock again. -/
  | destroy (i : Nat)

def WakeupWorld.new (qoverflowSize throttle : Int)
    (storedMessages droppedMessages : StatsCounterItem) : WakeupWorld M F U D :=
  ⟨logQueueNew qoverflowSize throttle storedMessages droppedMessages, [], [], [], [], none, [], []⟩

def QueueOp.handedOver : QueueOp M F U D → Option (Callback F U D)
  | .checkItems _ c _ => some c
  | .setParallelPush _ c => some c
  | _ => none

/-- The call as it is made with numbered callbacks. -/
def QueueOp.tag (n : Nat) : QueueOp M F U D → QueueOp M (Nat × F) (Nat × U) (Nat × D)
  | .checkItems batchItems c now => .checkItems batchItems (c.tag n) now
  | .setParallelPush notifyLimit c => .setParallelPush notifyLimit (c.tag n)
  | .resetParallelPush => .resetParallelPush
  | .pushTail threadId node outputLen => .pushTail threadId node outputLen
  | .moveInput threadId outputLen => .moveInput threadId outputLen
  | .popHead pushToBacklog ignoreThrottle => .popHead pushToBacklog ignoreThrottle
  | .pushHead node => .pushHead node
  | .ackBacklog n => .ackBacklog n
  | .rewindBacklog => .rewindBacklog

/-- The callback that waits after a call, with its limit, when the length of the queue was `before`
and is `after`. `n` is the number of the callback handed over. -/
def stillWaiting (waiting : Option (Nat × Int)) (n : Nat) (before after : Int) :
    QueueOp M F U D → Option (Nat × Int)
  | .checkItems batchItems c _ =>
    if c.parallelPushNotify.isSome ∧ (before = 0 ∨ before < batchItems) then
      some (n, if before = 0 then 1 else batchItems)
    else none
  | .setParallelPush _ _ => none
  | .resetParallelPush => none
  | .pushTail _ _ _ => waiting.filter fun w => after < w.2
  | .moveInput _ _ => waiting.filter fun w => after < w.2
  | _ => waiting

def limitReached (waiting : Option (Nat × Int)) (after : Int) : QueueOp M F U D → Option Nat
  | .pushTail _ _ _ => (waiting.filter fun w => w.2 ≤ after).map Prod.fst
  | .moveInput _ _ => (waiting.filter fun w => w.2 ≤ after).map Prod.fst
  | _ => none

def startsWaiting (n : Nat) (before : Int) : QueueOp M F U D → Option Nat
  | .checkItems batchItems c _ =>
    if c.parallelPushNotify.isSome ∧ (before = 0 ∨ before < batchItems) then some n else none
  | _ => none

def wakeupStep (maxThreads : Nat) (w : WakeupWorld M F U D) :
    WakeupOp M F U D → Option (WakeupWorld M F U D)
  | .queue op =>
    let n := w.registered.length
    (queueStep maxThreads w.queue (op.tag n)).map fun (queue, e) =>
      { queue := queue
        registered := w.registered ++ op.handedOver.toList
        inFlight := w.inFlight ++ e.taken.toList.map (⟨·, false⟩)
        invoked := w.invoked
        released := w.released ++ e.released
        waiting := stillWaiting w.waiting n (logQueueGetLength w.queue) (logQueueGetLength queue) op
        waited := w.waited ++ (startsWaiting n (logQueueGetLength w.queue) op).toList
        reached := w.reached ++ (limitReached w.waiting (logQueueGetLength queue) op).toList }
  | .callBack i =>
    match w.inFlight[i]? with
    | some ⟨⟨some f, data, destroy⟩, false⟩ =>
      some { w with
        inFlight := w.inFlight.set i ⟨⟨some f, data, destroy⟩, true⟩
        invoked := w.invoked ++ [(f, data)] }
    | _ => none
  | .destroy i =>
    match w.inFlight[i]? with
    | some ⟨c, true⟩ =>
      some { w with
        inFlight := w.inFlight.eraseIdx i
        released := w.released ++ c.reference.toList }
    | _ => none

def WakeupNext (maxThreads : Nat) (w : WakeupWorld M F U D) (op : WakeupOp M F U D)
    (w' : WakeupWorld M F U D) : Prop :=
  wakeupStep maxThreads w op = some w'

/-! ## What is promised -/

/-- The call that a callback is there for. -/
def Callback.call (c : Callback (Nat × F) (Nat × U) (Nat × D)) : Option (PushNotify F U) :=
  c.parallelPushNotify.map (·, c.userData)

/-- The call a thread in flight is about to make. -/
def InFlight.pending (t : InFlight F U D) : Option (PushNotify F U) :=
  if t.called then none else t.callback.call

/-- The calls made, and those that a thread in flight is about to make. -/
def WakeupWorld.calls (w : WakeupWorld M F U D) : List (PushNotify F U) :=
  w.invoked ++ w.inFlight.filterMap (·.pending)

/-- The references released, and those that are held: in the queue or by a thread in flight. -/
def WakeupWorld.references (w : WakeupWorld M F U D) : List (Reference U D) :=
  w.released ++ w.queue.callback.reference.toList ++ w.inFlight.filterMap (·.callback.reference)

/-- Every callback that waited is called, with its own data, as often as its limit was reached:
once, or not at all. -/
structure CalledOnce (w : WakeupWorld M F U D) : Prop where
  own : ∀ call ∈ w.calls, ∃ c f, w.registered[call.1.1]? = some c ∧
    c.parallelPushNotify = some f ∧ call = ((call.1.1, f), c.userData.map (call.1.1, ·))
  once : ∀ n ∈ w.waited, (w.calls.map (·.1.1)).count n = w.reached.count n
  reached_le : ∀ n, w.reached.count n ≤ 1

/-- Every reference handed over is released once by its own destroy function, or still held. -/
structure Balanced (w : WakeupWorld M F U D) : Prop where
  own : ∀ r ∈ w.references, ∃ c, w.registered[r.2.1]? = some c ∧ (c.tag r.2.1).reference = some r
  once : ∀ n c, w.registered[n]? = some c →
    (w.references.map (·.2.1)).count n = if c.reference.isSome then 1 else 0

def KeepsReference (w : WakeupWorld M F U D) : WakeupOp M F U D → Prop
  | .queue (.setParallelPush _ _) => w.queue.callback.reference = none
  | .queue .resetParallelPush => w.queue.callback.reference = none
  | _ => True

/-- A step that loses no reference. -/
def KeepingNext (maxThreads : Nat) (w : WakeupWorld M F U D) (op : WakeupOp M F U D)
    (w' : WakeupWorld M F U D) : Prop :=
  WakeupNext maxThreads w op w' ∧ KeepsReference w op

/-! ## What a call does to the callback in the queue -/

/-- A call that is not about the callback either leaves it there, and then an unreached limit stays
unreached, or takes it because its limit is reached. -/
inductive SlotStep (q q' : LogQueue M F U D) : Option (Callback F U D) → Prop where
  | kept : q'.callback = q.callback → q'.fifo.parallelPushNotify = q.fifo.parallelPushNotify →
      (∀ limit, q.fifo.parallelPushNotify = some limit → logQueueGetLength q < limit →
        logQueueGetLength q' < limit) → SlotStep q q' none
  | taken (limit : Int) : q.fifo.parallelPushNotify = some limit → limit ≤ logQueueGetLength q' →
      q'.callback = ⟨none, none, none⟩ → q'.fifo.parallelPushNotify = none →
      SlotStep q q' (some q.callback)

variable {q : LogQueue M F U D}

theorem slotStep_of_pushed {fifo : LogQueueFifo M} (h : Pushed q.fifo fifo) :
    SlotStep q (q.notified fifo).1 (q.notified fifo).2 := by
  have hlen : logQueueGetLength (q.notified fifo).1 = fifo.length := by
    simp [logQueueGetLength, LogQueueFifo.length]
  unfold LogQueue.notified at hlen ⊢
  cases hp : q.fifo.parallelPushNotify with
  | none =>
    have hnone : fifo.parallelPushNotify = none := by
      rcases h.notify with heq | ⟨heq, -⟩ <;> simp [heq, hp]
    simp only [isSome_none, Bool.false_and, Bool.false_eq_true, ↓reduceIte]
    exact .kept rfl (by rw [hnone, hp]) (by simp [hp])
  | some limit =>
    rcases h.notify with heq | ⟨heq, hsame⟩
    · by_cases hlt : fifo.length < limit
      · rw [hp, filter_some_pos (by simpa using hlt)] at heq
        simp only [hp, heq, isSome_some, isNone_some, Bool.and_false,
          Bool.false_eq_true, ↓reduceIte] at hlen ⊢
        refine .kept rfl (by rw [hp]; exact heq) fun l hl _ => ?_
        rw [hp] at hl
        cases hl
        rw [hlen]
        exact hlt
      · rw [hp, filter_some_neg (by simpa using hlt)] at heq
        simp only [hp, heq, isSome_some, isNone_none, Bool.and_self, ↓reduceIte] at hlen ⊢
        exact .taken limit hp (by rw [hlen]; omega) rfl heq
    · simp only [hp, heq, isSome_some, isNone_some, Bool.and_false,
        Bool.false_eq_true, ↓reduceIte] at hlen ⊢
      refine .kept rfl (by rw [hp]; exact heq.trans hp) fun l hl hlt => ?_
      rw [hlen, hsame]
      exact hlt

theorem slotStep_of_handled {fifo : LogQueueFifo M} (h : Handled q.fifo fifo) :
    SlotStep q { q with fifo := fifo } none :=
  .kept rfl (h.still_idle.trans h.idle.symm) (by simp [h.idle])

/-- The calls that are not about the callback. -/
def QueueOp.Plain : QueueOp M F U D → Prop
  | .checkItems _ _ _ => False
  | .setParallelPush _ _ => False
  | .resetParallelPush => False
  | _ => True

def QueueOp.Pushes : QueueOp M F U D → Prop
  | .pushTail _ _ _ => True
  | .moveInput _ _ => True
  | _ => False

variable {maxThreads : Nat} {op : QueueOp M F U D}

theorem queueStep_slot {q' : LogQueue M F U D} {e : Effect M F U D}
    (hop : op.Plain) (h : queueStep maxThreads q op = some (q', e)) :
    SlotStep q q' e.taken ∧ e.released = [] ∧ (e.taken.isSome → op.Pushes) := by
  cases op with
  | checkItems batchItems c now => exact hop.elim
  | setParallelPush notifyLimit c => exact hop.elim
  | resetParallelPush => exact hop.elim
  | pushTail threadId node outputLen =>
    obtain ⟨⟨fifo, dropped⟩, hpush, heq⟩ := map_eq_some_iff.1 h
    cases heq
    exact ⟨slotStep_of_pushed (pushed_of_pushTail hpush), rfl, fun _ => trivial⟩
  | moveInput threadId outputLen =>
    dsimp only [queueStep] at h
    split at h
    · obtain ⟨⟨fifo, dropped⟩, hmove, heq⟩ := map_eq_some_iff.1 h
      cases heq
      exact ⟨slotStep_of_pushed (pushed_of_moveInput hmove), rfl, fun _ => trivial⟩
    · cases h
  | popHead pushToBacklog ignoreThrottle =>
    obtain ⟨⟨fifo, node⟩, hpop, heq⟩ := map_eq_some_iff.1 h
    cases heq
    exact ⟨slotStep_of_handled (handled_of_popHead hpop), rfl, by simp⟩
  | pushHead node =>
    obtain ⟨fifo, hpush, heq⟩ := map_eq_some_iff.1 h
    cases heq
    exact ⟨slotStep_of_handled (handled_of_pushHead hpush).1, rfl, by simp⟩
  | ackBacklog n =>
    obtain ⟨⟨fifo, acked⟩, hack, heq⟩ := map_eq_some_iff.1 h
    cases heq
    exact ⟨slotStep_of_handled (handled_of_ackBacklog hack).1, rfl, by simp⟩
  | rewindBacklog =>
    obtain ⟨fifo, hrewind, heq⟩ := map_eq_some_iff.1 h
    cases heq
    exact ⟨slotStep_of_handled (handled_of_rewindBacklog hrewind).1, rfl, by simp⟩

/-- `log_queue_check_items` either leaves the callback with the limit of what is missing, or
releases it; the callback that was there is replaced in both cases. -/
theorem checkItems_slot (q : LogQueue M F U D) (batchItems : Int) (c : Callback F U D)
    (now : DbParser.GTimeVal) : let q' := (logQueueCheckItems q batchItems c now).1
    let released := (logQueueCheckItems q batchItems c now).2.released
    let before := logQueueGetLength q
    if before = 0 ∨ before < batchItems then
      q' = q.register (if before = 0 then 1 else batchItems) c ∧
        released = q.callback.reference.toList
    else
      q'.callback.parallelPushNotify = none ∧ q'.callback.userData = none ∧
        q'.fifo.parallelPushNotify = none ∧
        released = q.callback.reference.toList ++ c.reference.toList := by
  dsimp only
  unfold logQueueCheckItems
  dsimp only
  split
  · exact ⟨rfl, rfl⟩
  · split
    · split
      · exact ⟨by rw [recalculateBuckets_callback]; rfl, by rw [recalculateBuckets_callback]; rfl,
          recalculateBuckets_parallelPushNotify _ _, rfl⟩
      · exact ⟨by rw [recalculateBuckets_callback]; rfl, by rw [recalculateBuckets_callback]; rfl,
          recalculateBuckets_parallelPushNotify _ _, rfl⟩
    · exact ⟨rfl, rfl, rfl, rfl⟩

/-! ## Accounts of numbered references

`Account reg rs`: each reference in `rs` belongs to a registered callback and is there once. A step
registers at most one callback, adds its reference and loses some. -/

structure Account (reg : List (Callback F U D)) (rs : List (Reference U D)) : Prop where
  own : ∀ r ∈ rs, ∃ c, reg[r.2.1]? = some c ∧ (c.tag r.2.1).reference = some r
  le_one : ∀ n, (rs.map (·.2.1)).count n ≤ 1

def Complete (reg : List (Callback F U D)) (rs : List (Reference U D)) : Prop :=
  ∀ n c, reg[n]? = some c → (rs.map (·.2.1)).count n = if c.reference.isSome then 1 else 0

@[simp] theorem tag_reference (n : Nat) (c : Callback F U D) :
    (c.tag n).reference = c.reference.map fun r => ((n, r.1), (n, r.2)) := by
  obtain ⟨f, data, destroy⟩ := c
  cases data <;> cases destroy <;> rfl

theorem Account.lt {reg : List (Callback F U D)} {rs : List (Reference U D)} (h : Account reg rs)
    {r : Reference U D} (hr : r ∈ rs) : r.2.1 < reg.length := by
  obtain ⟨c, hc, -⟩ := h.own r hr
  exact (List.getElem?_eq_some_iff.1 hc).1

theorem Account.count_length {reg : List (Callback F U D)} {rs : List (Reference U D)}
    (h : Account reg rs) : (rs.map (·.2.1)).count reg.length = 0 := by
  rw [count_eq_zero, mem_map]
  rintro ⟨r, hr, heq⟩
  have := h.lt hr
  omega

def broughtBy (n : Nat) (handed : Option (Callback F U D)) : List (Reference U D) :=
  (handed.bind fun c => (c.tag n).reference).toList

theorem broughtBy_count (n m : Nat) (handed : Option (Callback F U D)) :
    ((broughtBy n handed).map (·.2.1)).count m =
      if n = m ∧ (handed.bind Callback.reference).isSome then 1 else 0 := by
  unfold broughtBy
  cases handed with
  | none => simp
  | some c =>
    rw [bind_some, bind_some, tag_reference]
    cases c.reference with
    | none => simp
    | some r => simp [count_singleton]

section

variable {reg : List (Callback F U D)} {rs rs' lost : List (Reference U D)}
  {handed : Option (Callback F U D)}

theorem count_of_perm (hperm : (rs' ++ lost).Perm (rs ++ broughtBy reg.length handed)) (n : Nat) :
    (rs'.map (·.2.1)).count n + (lost.map (·.2.1)).count n =
      (rs.map (·.2.1)).count n +
        if reg.length = n ∧ (handed.bind Callback.reference).isSome then 1 else 0 := by
  have h := ((hperm.map (·.2.1)).count_eq n)
  rwa [map_append, map_append, count_append, count_append, broughtBy_count] at h

theorem Account.move (h : Account reg rs)
    (hperm : (rs' ++ lost).Perm (rs ++ broughtBy reg.length handed)) :
    Account (reg ++ handed.toList) rs' where
  own r hr := by
    rcases mem_append.1 (hperm.mem_iff.1 (mem_append_left lost hr)) with hold | hnew
    · obtain ⟨c, hc, hown⟩ := h.own r hold
      exact ⟨c, by rw [getElem?_append_left (h.lt hold), hc], hown⟩
    · rw [broughtBy, mem_toList, bind_eq_some_iff] at hnew
      obtain ⟨c, rfl, hown⟩ := hnew
      have hn : r.2.1 = reg.length := by
        rw [tag_reference, map_eq_some_iff] at hown
        obtain ⟨r', -, rfl⟩ := hown
        rfl
      exact ⟨c, by rw [hn]; simp, by rw [hn]; exact hown⟩
  le_one n := by
    have hcount := count_of_perm hperm n
    have hold := h.le_one n
    split at hcount
    · rename_i hn
      rw [← hn.1, h.count_length] at hcount
      rw [← hn.1]
      omega
    · omega

theorem Account.complete_iff (h : Account reg rs)
    (hperm : (rs' ++ lost).Perm (rs ++ broughtBy reg.length handed)) (hlost : ∀ r ∈ lost, r ∈ rs) :
    Complete (reg ++ handed.toList) rs' ↔ Complete reg rs ∧ lost = [] := by
  have hcount := count_of_perm hperm
  constructor
  · intro hc
    have hold (n : Nat) (c : Callback F U D) (hn : reg[n]? = some c) :
        (rs'.map (·.2.1)).count n = if c.reference.isSome then 1 else 0 :=
      hc n c (by rw [getElem?_append_left (List.getElem?_eq_some_iff.1 hn).1, hn])
    have hnew (n : Nat) (c : Callback F U D) (hn : reg[n]? = some c) :
        ¬ (reg.length = n ∧ (handed.bind Callback.reference).isSome = true) := fun hlen => by
      have := (List.getElem?_eq_some_iff.1 hn).1
      omega
    have hnone : lost = [] := by
      refine eq_nil_iff_forall_not_mem.2 fun r hr => ?_
      obtain ⟨c, hcreg, hown⟩ := h.own r (hlost r hr)
      have h1 := hcount r.2.1
      have h2 := h.le_one r.2.1
      have h3 := hold _ c hcreg
      have h4 : 0 < (lost.map (·.2.1)).count r.2.1 :=
        count_pos_iff.2 (mem_map_of_mem hr)
      have hsome : c.reference.isSome := by
        rw [tag_reference] at hown
        obtain ⟨r', hr', -⟩ := map_eq_some_iff.1 hown
        simp [hr']
      rw [if_neg (hnew _ c hcreg)] at h1
      rw [if_pos hsome] at h3
      omega
    refine ⟨fun n c hn => ?_, hnone⟩
    have h1 := hcount n
    rw [if_neg (hnew n c hn), hnone, map_nil, count_nil, hold n c hn] at h1
    omega
  · rintro ⟨hc, rfl⟩ n c hn
    have h1 := hcount n
    rw [map_nil, count_nil, Nat.add_zero] at h1
    rw [h1]
    rcases lt_or_ge n reg.length with hlt | hge
    · rw [getElem?_append_left hlt] at hn
      rw [if_neg (by omega), hc n c hn]
      omega
    · rw [getElem?_append_right hge] at hn
      obtain ⟨hzero, hhanded⟩ : n - reg.length = 0 ∧ handed = some c := by
        cases handed with
        | none => cases hn
        | some c' =>
          rcases Nat.eq_zero_or_pos (n - reg.length) with hz | hp
          · rw [hz] at hn
            exact ⟨hz, hn⟩
          · rw [getElem?_eq_none (by rw [toList_some, length_singleton]; omega)] at hn
            cases hn
      obtain rfl : reg.length = n := by omega
      rw [h.count_length, hhanded]
      simp

end

/-! ## One step -/

section

variable {A B : Type} {l : List A} {i : Nat} {a : A}

theorem filterMap_set_perm (f : A → Option B) (a' : A) (h : l[i]? = some a) :
    ((l.set i a').filterMap f ++ (f a).toList).Perm (l.filterMap f ++ (f a').toList) := by
  obtain ⟨hi, rfl⟩ := List.getElem?_eq_some_iff.1 h
  have hl : l.take i ++ l[i] :: l.drop (i + 1) = l := by simp
  have hset : l.set i a' = l.take i ++ a' :: l.drop (i + 1) := by
    rw [set_eq_take_append_cons_drop, if_pos hi]
  have hsplit (b : A) : (l.take i ++ b :: l.drop (i + 1)).filterMap f =
      (l.take i).filterMap f ++ ((f b).toList ++ (l.drop (i + 1)).filterMap f) := by
    rw [filterMap_append, filterMap_cons]
    cases f b <;> rfl
  rw [hset, hsplit]
  conv_rhs => rw [← hl, hsplit]
  simp only [append_assoc]
  refine List.Perm.append_left _ ?_
  calc (f a').toList ++ ((l.drop (i + 1)).filterMap f ++ (f l[i]).toList)
      _ |>.Perm ((l.drop (i + 1)).filterMap f ++ (f l[i]).toList ++ (f a').toList) :=
        perm_append_comm
      _ |>.Perm ((f l[i]).toList ++ (l.drop (i + 1)).filterMap f ++ (f a').toList) :=
        perm_append_comm.append_right _
      _ |>.Perm _ := by rw [append_assoc]

theorem filterMap_eraseIdx_perm (f : A → Option B) (h : l[i]? = some a) :
    ((l.eraseIdx i).filterMap f ++ (f a).toList).Perm (l.filterMap f) := by
  obtain ⟨hi, rfl⟩ := List.getElem?_eq_some_iff.1 h
  have hl : l.take i ++ l[i] :: l.drop (i + 1) = l := by simp
  conv_rhs => rw [← hl, filterMap_append, filterMap_cons]
  rw [eraseIdx_eq_take_drop_succ, filterMap_append, append_assoc]
  refine List.Perm.append_left _ ?_
  cases f l[i] with
  | none => simp
  | some b => exact perm_append_singleton _ _

end

theorem QueueOp.Plain.handedOver (h : op.Plain) : op.handedOver = none := by
  cases op <;> first | rfl | exact h.elim

theorem QueueOp.Plain.tag (h : op.Plain) (n : Nat) : (op.tag n).Plain := by
  cases op <;> first | exact trivial | exact h.elim

theorem QueueOp.Plain.startsWaiting (h : op.Plain) (n : Nat) (before : Int) :
    LogQueue.startsWaiting n before op = none := by
  cases op <;> first | rfl | exact h.elim

inductive WakeupCase (w w' : WakeupWorld M F U D) : WakeupOp M F U D → Prop where
  /-- The callback was left, or taken by a push or a move. -/
  | plain {op : QueueOp M F U D} {taken : Option (Callback (Nat × F) (Nat × U) (Nat × D))} :
      op.Plain → SlotStep w.queue w'.queue taken → (taken.isSome → op.Pushes) →
      w' = { w with
        queue := w'.queue
        inFlight := w.inFlight ++ taken.toList.map (⟨·, false⟩)
        waiting := stillWaiting w.waiting w.registered.length (logQueueGetLength w.queue)
          (logQueueGetLength w'.queue) op
        reached := w.reached ++
          (limitReached w.waiting (logQueueGetLength w'.queue) op).toList } →
      WakeupCase w w' (.queue op)
  /-- The callback was handed over by a look at the queue that found too few items. -/
  | left {batchItems : Int} {c : Callback F U D} {now : DbParser.GTimeVal} (limit : Int) :
      logQueueGetLength w.queue < limit →
      w' = { w with
        queue := w.queue.register limit (c.tag w.registered.length)
        registered := w.registered ++ [c]
        released := w.released ++ w.queue.callback.reference.toList
        waiting := if c.parallelPushNotify.isSome then some (w.registered.length, limit) else none
        waited := w.waited ++
          if c.parallelPushNotify.isSome then [w.registered.length] else [] } →
      WakeupCase w w' (.queue (.checkItems batchItems c now))
  | ready {batchItems : Int} {c : Callback F U D} {now : DbParser.GTimeVal} :
      w'.queue.callback.parallelPushNotify = none → w'.queue.callback.userData = none →
      w'.queue.fifo.parallelPushNotify = none →
      w' = { w with
        queue := w'.queue
        registered := w.registered ++ [c]
        released := w.released ++ (w.queue.callback.reference.toList ++
          (c.tag w.registered.length).reference.toList)
        waiting := none } →
      WakeupCase w w' (.queue (.checkItems batchItems c now))
  | set {notifyLimit : Int} {c : Callback F U D} :
      w' = { w with
        queue := w.queue.register notifyLimit (c.tag w.registered.length)
        registered := w.registered ++ [c]
        waiting := none } →
      WakeupCase w w' (.queue (.setParallelPush notifyLimit c))
  | reset : w' = { w with queue := w.queue.forget, waiting := none } →
      WakeupCase w w' (.queue .resetParallelPush)
  | callBack {i : Nat} {c : Callback (Nat × F) (Nat × U) (Nat × D)} :
      w.inFlight[i]? = some ⟨c, false⟩ → c.parallelPushNotify.isSome →
      w' = { w with
        inFlight := w.inFlight.set i ⟨c, true⟩
        invoked := w.invoked ++ c.call.toList } →
      WakeupCase w w' (.callBack i)
  | destroy {i : Nat} {c : Callback (Nat × F) (Nat × U) (Nat × D)} :
      w.inFlight[i]? = some ⟨c, true⟩ →
      w' = { w with
        inFlight := w.inFlight.eraseIdx i
        released := w.released ++ c.reference.toList } →
      WakeupCase w w' (.destroy i)

theorem queueStep_checkItems (maxThreads : Nat) (q : LogQueue M F U D) (batchItems : Int)
    (c : Callback F U D) (now : DbParser.GTimeVal) :
    queueStep maxThreads q (.checkItems batchItems c now) =
      some ((logQueueCheckItems q batchItems c now).1,
        { readings := if (logQueueCheckItems q batchItems c now).2.readClock then [now] else []
          released := (logQueueCheckItems q batchItems c now).2.released }) := rfl

variable {w w' : WakeupWorld M F U D}

theorem wakeupNext_queue (h : WakeupNext maxThreads w (.queue op) w') :
    ∃ queue e, queueStep maxThreads w.queue (op.tag w.registered.length) = some (queue, e) ∧
      w' = { queue := queue
             registered := w.registered ++ op.handedOver.toList
             inFlight := w.inFlight ++ e.taken.toList.map (⟨·, false⟩)
             invoked := w.invoked
             released := w.released ++ e.released
             waiting := stillWaiting w.waiting w.registered.length (logQueueGetLength w.queue)
               (logQueueGetLength queue) op
             waited := w.waited ++
               (startsWaiting w.registered.length (logQueueGetLength w.queue) op).toList
             reached := w.reached ++ (limitReached w.waiting (logQueueGetLength queue) op).toList } := by
  obtain ⟨⟨queue, e⟩, hstep, heq⟩ := map_eq_some_iff.1 h
  exact ⟨queue, e, hstep, heq.symm⟩

theorem wakeupStep_cases {op : WakeupOp M F U D} (h : WakeupNext maxThreads w op w') :
    WakeupCase w w' op := by
  have hplain {op : QueueOp M F U D} (hop : op.Plain)
      (h : WakeupNext maxThreads w (.queue op) w') : WakeupCase w w' (.queue op) := by
    obtain ⟨q', e, hstep, rfl⟩ := wakeupNext_queue h
    obtain ⟨hslot, hrel, hpush⟩ := queueStep_slot (hop.tag _) hstep
    have hpushes : e.taken.isSome → op.Pushes := fun ht => by
      have := hpush ht
      cases op <;> first | exact trivial | exact this.elim
    refine .plain hop hslot hpushes ?_
    simp [hop.handedOver, hop.startsWaiting, hrel]
  cases op with
  | queue op =>
    cases op with
    | checkItems batchItems c now =>
      clear hplain
      obtain ⟨q', e, hstep, rfl⟩ := wakeupNext_queue h
      clear h
      simp only [QueueOp.tag, queueStep_checkItems, some.injEq, Prod.mk.injEq] at hstep
      obtain ⟨rfl, rfl⟩ := hstep
      have hcheck := checkItems_slot w.queue batchItems (c.tag w.registered.length) now
      dsimp only at hcheck
      split at hcheck
      · rename_i hfew
        obtain ⟨hq, hrel⟩ := hcheck
        have hwait : ((startsWaiting w.registered.length (logQueueGetLength w.queue)
            (.checkItems (M := M) batchItems c now)).toList) =
            if c.parallelPushNotify.isSome then [w.registered.length] else [] := by
          simp only [startsWaiting, hfew, and_true]
          split <;> rfl
        refine .left (if logQueueGetLength w.queue = 0 then 1 else batchItems) ?_ ?_
        · split <;> omega
        · simp only [QueueOp.tag, hq, hrel, hwait, stillWaiting, hfew, and_true, limitReached,
            QueueOp.handedOver, toList_some, toList_none, map_nil,
            append_nil]
      · rename_i hmany
        obtain ⟨hppn, hdata, hfifo, hrel⟩ := hcheck
        refine .ready hppn hdata hfifo ?_
        simp only [QueueOp.tag, hrel, stillWaiting, startsWaiting, hmany, and_false, ↓reduceIte,
          limitReached, QueueOp.handedOver, toList_some, toList_none, map_nil,
          append_nil]
    | setParallelPush notifyLimit c =>
      cases h
      refine .set ?_
      simp [QueueOp.tag, QueueOp.handedOver, stillWaiting, startsWaiting, limitReached,
        logQueueSetParallelPush]
    | resetParallelPush =>
      cases h
      refine .reset ?_
      simp [QueueOp.tag, QueueOp.handedOver, stillWaiting, startsWaiting, limitReached,
        logQueueResetParallelPush]
    | pushTail threadId node outputLen => exact hplain trivial h
    | moveInput threadId outputLen => exact hplain trivial h
    | popHead pushToBacklog ignoreThrottle => exact hplain trivial h
    | pushHead node => exact hplain trivial h
    | ackBacklog n => exact hplain trivial h
    | rewindBacklog => exact hplain trivial h
  | callBack i =>
    unfold WakeupNext wakeupStep at h
    dsimp only at h
    split at h
    · rename_i f data destroy hi
      cases h
      exact .callBack hi rfl rfl
    · cases h
  | destroy i =>
    unfold WakeupNext wakeupStep at h
    dsimp only at h
    split at h
    · rename_i c hi
      cases h
      exact .destroy hi rfl
    · cases h

/-! ## References -/

@[simp] theorem register_callback (q : LogQueue M F U D) (limit : Int) (c : Callback F U D) :
    (q.register limit c).callback = c := rfl

@[simp] theorem forget_reference (q : LogQueue M F U D) : q.forget.callback.reference = none := by
  unfold LogQueue.forget Callback.reference
  cases q.callback.userDataDestroy <;> rfl

theorem reference_none {c : Callback F U D} (h : c.userData = none) : c.reference = none := by
  unfold Callback.reference
  rw [h]
  cases c.userDataDestroy <;> rfl

theorem references_move {op : WakeupOp M F U D} (h : WakeupCase w w' op) :
    ∃ handed lost, w'.registered = w.registered ++ handed.toList ∧
      (w'.references ++ lost).Perm (w.references ++ broughtBy w.registered.length handed) ∧
      (∀ r ∈ lost, r ∈ w.references) ∧ (lost = [] ↔ KeepsReference w op) := by
  have hslot : ∀ r ∈ w.queue.callback.reference.toList, r ∈ w.references := fun r hr =>
    mem_append_left _ (mem_append_right _ hr)
  cases h with
  | @plain op taken hop hslot' hpush heq =>
    have hkeeps : KeepsReference w (.queue op) := by
      cases op <;> first | exact trivial | exact hop.elim
    refine ⟨none, [], by rw [heq]; simp, ?_, by simp, by simpa using hkeeps⟩
    rw [heq]
    unfold WakeupWorld.references
    cases hslot' with
    | kept hcb => simp [hcb, broughtBy]
    | taken limit _ _ hcb =>
      have hempty : w'.queue.callback.reference = none := reference_none (by rw [hcb])
      have hflight : [(⟨w.queue.callback, false⟩ : InFlight F U D)].filterMap
          (·.callback.reference) = w.queue.callback.reference.toList := by
        rw [filterMap_cons]
        cases w.queue.callback.reference <;> rfl
      simp only [hempty, toList_some, toList_none, map_cons, map_nil,
        append_nil, broughtBy, bind_none, filterMap_append, append_assoc,
        hflight]
      exact List.Perm.append_left _ perm_append_comm
  | @left batchItems c now limit hlt heq =>
    refine ⟨some c, [], by rw [heq]; rfl, ?_, by simp, by simp [KeepsReference]⟩
    rw [heq]
    simp only [WakeupWorld.references, register_callback, append_nil, broughtBy, bind_some, append_assoc]
    exact List.Perm.append_left _ (List.Perm.append_left _ perm_append_comm)
  | @ready batchItems c now hppn hdata hfifo heq =>
    refine ⟨some c, [], by rw [heq]; rfl, ?_, by simp, by simp [KeepsReference]⟩
    rw [heq]
    simp only [WakeupWorld.references, reference_none hdata, toList_none, append_nil,
      broughtBy, bind_some, append_assoc]
    exact List.Perm.append_left _ (List.Perm.append_left _ perm_append_comm)
  | @set notifyLimit c heq =>
    refine ⟨some c, w.queue.callback.reference.toList, by rw [heq]; rfl, ?_, hslot,
      by simp [KeepsReference]⟩
    rw [heq]
    simp only [WakeupWorld.references, register_callback, broughtBy, bind_some, append_assoc]
    refine List.Perm.append_left _ (perm_append_comm.trans ?_)
    rw [append_assoc]
    exact perm_append_comm_assoc _ _ _
  | reset heq =>
    refine ⟨none, w.queue.callback.reference.toList, by rw [heq]; simp, ?_, hslot,
      by simp [KeepsReference]⟩
    rw [heq]
    simp only [WakeupWorld.references, forget_reference, toList_none, append_nil,
      broughtBy, bind_none, append_assoc]
    exact List.Perm.append_left _ perm_append_comm
  | @callBack i c hi hsome heq =>
    refine ⟨none, [], by rw [heq]; simp, ?_, by simp, by simp [KeepsReference]⟩
    have hset := filterMap_set_perm (fun t : InFlight F U D => t.callback.reference) ⟨c, true⟩ hi
    rw [heq]
    simp only [WakeupWorld.references, broughtBy, bind_none, toList_none, append_nil, append_assoc]
    exact List.Perm.append_left _ (List.Perm.append_left _ ((perm_append_right_iff _).1 hset))
  | @destroy i c hi heq =>
    refine ⟨none, [], by rw [heq]; simp, ?_, by simp, by simp [KeepsReference]⟩
    have herase := filterMap_eraseIdx_perm (fun t : InFlight F U D => t.callback.reference) hi
    rw [heq]
    simp only [WakeupWorld.references, broughtBy, bind_none, toList_none, append_nil, append_assoc]
    refine List.Perm.append_left _ ?_
    refine (perm_append_comm_assoc _ _ _).trans (List.Perm.append_left _ ?_)
    exact perm_append_comm.trans herase

/-! ## Calls -/

/-- The callback in the queue is one that was registered, and it is waiting if a look at the queue
left it there. -/
structure WakeupInv (w : WakeupWorld M F U D) : Prop where
  agree : w.queue.fifo.parallelPushNotify.isSome = w.queue.callback.parallelPushNotify.isSome
  slot : ∀ f, w.queue.callback.parallelPushNotify = some f →
    ∃ c, w.registered[f.1]? = some c ∧ w.queue.callback = c.tag f.1
  waits : ∀ n limit, w.waiting = some (n, limit) →
    (∃ f, w.queue.callback.parallelPushNotify = some (n, f)) ∧
      w.queue.fifo.parallelPushNotify = some limit ∧ logQueueGetLength w.queue < limit ∧
      n ∈ w.waited ∧ n ∉ w.reached
  due : ∀ f, w.queue.callback.parallelPushNotify = some f → f.1 ∈ w.waited → w.waiting.isSome
  waited_lt : ∀ n ∈ w.waited, n < w.registered.length
  reached_lt : ∀ n ∈ w.reached, n < w.registered.length
  called : CalledOnce w

theorem CalledOnce.lt (h : CalledOnce w) {call : PushNotify F U} (hc : call ∈ w.calls) :
    call.1.1 < w.registered.length := by
  obtain ⟨c, f, hreg, -⟩ := h.own call hc
  exact (List.getElem?_eq_some_iff.1 hreg).1

theorem CalledOnce.of_perm {w w' : WakeupWorld M F U D} (reg : List (Callback F U D))
    (h : CalledOnce w) (hcalls : w'.calls.Perm w.calls) (hreg : w'.registered = w.registered ++ reg)
    (hreached : w'.reached = w.reached) (hlt : ∀ n ∈ w.reached, n < w.registered.length)
    (hwaited : ∀ n ∈ w'.waited, n ∈ w.waited ∨ n = w.registered.length) : CalledOnce w' where
  own call hc := by
    have hold := hcalls.mem_iff.1 hc
    obtain ⟨c, f, hget, hown⟩ := h.own call hold
    exact ⟨c, f, by rw [hreg, getElem?_append_left (h.lt hold), hget], hown⟩
  once n hn := by
    rw [hreached, (hcalls.map _).count_eq]
    rcases hwaited n hn with hold | rfl
    · exact h.once n hold
    · rw [count_eq_zero.2 (fun hmem => ?_), count_eq_zero.2 (fun hmem => ?_)]
      · exact absurd (hlt _ hmem) (lt_irrefl _)
      · obtain ⟨call, hc, heq⟩ := mem_map.1 hmem
        have := h.lt hc
        omega
  reached_le n := by rw [hreached]; exact h.reached_le n

theorem stillWaiting_kept {waiting : Option (Nat × Int)} (n : Nat) (before : Int) {after : Int}
    (hop : op.Plain) (h : ∀ m limit, waiting = some (m, limit) → after < limit) :
    stillWaiting waiting n before after op = waiting ∧ limitReached waiting after op = none := by
  have hfilter : waiting.filter (fun w => after < w.2) = waiting ∧
      waiting.filter (fun w => w.2 ≤ after) = none := by
    cases waiting with
    | none => exact ⟨rfl, rfl⟩
    | some w =>
      have := h w.1 w.2 rfl
      exact ⟨filter_some_pos (by simpa using this),
        filter_some_neg (by simpa using this)⟩
  cases op <;> first | exact hop.elim | exact ⟨hfilter.1, by simp [limitReached, hfilter.2]⟩ |
    exact ⟨rfl, rfl⟩

theorem stillWaiting_reached {waiting : Option (Nat × Int)} (n : Nat) (before : Int) {after : Int}
    (hop : op.Pushes) (h : ∀ m limit, waiting = some (m, limit) → limit ≤ after) :
    stillWaiting waiting n before after op = none ∧ limitReached waiting after op = waiting.map Prod.fst := by
  have hfilter : waiting.filter (fun w => after < w.2) = none ∧
      waiting.filter (fun w => w.2 ≤ after) = waiting := by
    cases waiting with
    | none => exact ⟨rfl, rfl⟩
    | some w =>
      have := h w.1 w.2 rfl
      exact ⟨filter_some_neg (by simpa using this),
        filter_some_pos (by simpa using this)⟩
  cases op <;> first | exact hop.elim | exact ⟨hfilter.1, by simp [limitReached, hfilter.2]⟩

theorem WakeupInv.plain {w w' : WakeupWorld M F U D} {op : QueueOp M F U D}
    {taken : Option (Callback (Nat × F) (Nat × U) (Nat × D))} (h : WakeupInv w) (hop : op.Plain)
    (hslot : SlotStep w.queue w'.queue taken) (hpush : taken.isSome → op.Pushes) (heq : w' = { w with
      queue := w'.queue
      inFlight := w.inFlight ++ taken.toList.map (⟨·, false⟩)
      waiting := stillWaiting w.waiting w.registered.length (logQueueGetLength w.queue)
        (logQueueGetLength w'.queue) op
      reached := w.reached ++
        (limitReached w.waiting (logQueueGetLength w'.queue) op).toList }) : WakeupInv w' := by
  have hcalls : w'.calls = w.calls ++ (taken.bind Callback.call).toList := by
    rw [heq]
    unfold WakeupWorld.calls
    cases taken with
    | none => simp
    | some c =>
      rw [toList_some, map_singleton, filterMap_append, ← append_assoc, filterMap_cons, bind_some]
      cases hc : c.call <;> simp [InFlight.pending, hc]
  cases hslot with
  | kept hcb hppn hlen =>
    obtain ⟨hstill, hnone⟩ := stillWaiting_kept w.registered.length
      (logQueueGetLength w.queue) hop fun m limit hw =>
        hlen limit (h.waits m limit hw).2.1 (h.waits m limit hw).2.2.1
    have hwaiting : w'.waiting = w.waiting := by rw [heq]; exact hstill
    have hreached : w'.reached = w.reached := by rw [heq]; simp [hnone]
    have hwaited : w'.waited = w.waited := by rw [heq]
    have hreg : w'.registered = w.registered := by rw [heq]
    constructor
    · rw [hppn, hcb]; exact h.agree
    · rw [hcb, hreg]; exact h.slot
    · intro n limit hw
      rw [hwaiting] at hw
      obtain ⟨h1, h2, h3, h4, h5⟩ := h.waits n limit hw
      exact ⟨by rw [hcb]; exact h1, by rw [hppn]; exact h2, hlen limit h2 h3, by rw [hwaited]; exact h4,
        by rw [hreached]; exact h5⟩
    · rw [hcb, hwaited, hwaiting]; exact h.due
    · rw [hwaited, hreg]; exact h.waited_lt
    · rw [hreached, hreg]; exact h.reached_lt
    · refine h.called.of_perm [] ?_ (by rw [hreg, append_nil]) hreached h.reached_lt
        fun n hn => .inl (by rwa [hwaited] at hn)
      rw [hcalls]
      simp
  | taken limit hlimit hle hcb hppn =>
    have hwaits : ∀ m l, w.waiting = some (m, l) → l ≤ logQueueGetLength w'.queue := fun m l hw => by
      have := (h.waits m l hw).2.1
      rw [hlimit] at this
      cases this
      exact hle
    obtain ⟨hstill, hdue⟩ := stillWaiting_reached w.registered.length
      (logQueueGetLength w.queue) (hpush rfl) hwaits
    have hwaiting : w'.waiting = none := by rw [heq]; exact hstill
    have hreached : w'.reached = w.reached ++ (w.waiting.map Prod.fst).toList := by
      rw [heq, ← hdue]
    have hwaited : w'.waited = w.waited := by rw [heq]
    have hreg : w'.registered = w.registered := by rw [heq]
    -- the callback that is taken
    obtain ⟨⟨m, f⟩, hf⟩ : ∃ f, w.queue.callback.parallelPushNotify = some f := by
      rw [← isSome_iff_exists, ← h.agree, hlimit]
      rfl
    obtain ⟨c, hc, hown⟩ := h.slot _ hf
    have hcall : (some w.queue.callback).bind Callback.call =
        some ((m, f), w.queue.callback.userData) := by
      simp [Callback.call, hf]
    rw [hcall, toList_some] at hcalls
    have hwaiting_iff : m ∈ w.waited → w.waiting.map Prod.fst = some m := fun hm => by
      obtain ⟨⟨m', l⟩, hw⟩ := isSome_iff_exists.1 (h.due _ hf hm)
      obtain ⟨⟨f', hf'⟩, -⟩ := h.waits m' l hw
      rw [hf] at hf'
      cases hf'
      rw [hw]
      rfl
    have hwaiting_m : ∀ m' ∈ w.waiting.map Prod.fst, m' = m ∧ m ∉ w.reached ∧ m ∈ w.waited := by
      intro m' hm'
      obtain ⟨⟨m'', l⟩, hw, rfl⟩ := map_eq_some_iff.1 hm'
      obtain ⟨⟨f', hf'⟩, -, -, hin, hout⟩ := h.waits m'' l hw
      rw [hf] at hf'
      cases hf'
      exact ⟨rfl, hout, hin⟩
    have hcount (n : Nat) : w'.reached.count n = w.reached.count n +
        if w.waiting.map Prod.fst = some n then 1 else 0 := by
      rw [hreached, count_append]
      cases hw : w.waiting.map Prod.fst with
      | none => simp
      | some m' => simp [count_singleton]
    constructor
    · rw [hppn, hcb]; rfl
    · intro f' hf'
      rw [hcb] at hf'
      cases hf'
    · intro n l hw
      rw [hwaiting] at hw
      cases hw
    · intro f' hf'
      rw [hcb] at hf'
      cases hf'
    · rw [hwaited, hreg]; exact h.waited_lt
    · intro n hn
      rw [hreached, mem_append, mem_toList] at hn
      rw [hreg]
      rcases hn with hold | hnew
      · exact h.reached_lt n hold
      · obtain ⟨rfl, -, hin⟩ := hwaiting_m n hnew
        exact h.waited_lt _ hin
    · refine ⟨fun call hcall' => ?_, fun n hn => ?_, fun n => ?_⟩
      · rw [hreg]
        rw [hcalls, mem_append, mem_singleton] at hcall'
        rcases hcall' with hold | rfl
        · exact h.called.own call hold
        · refine ⟨c, f, hc, ?_, ?_⟩
          · have := hf
            rw [hown] at this
            simpa [Callback.tag] using this
          · rw [hown]
            rfl
      · rw [hwaited] at hn
        rw [hcount, hcalls, map_append, count_append, h.called.once n hn,
          map_singleton, count_singleton]
        by_cases hm : m = n
        · subst hm
          simp [hwaiting_iff hn]
        · have hne : w.waiting.map Prod.fst ≠ some n := fun hw => hm (hwaiting_m n hw).1.symm
          simp [hm, hne]
      · rw [hcount]
        split
        · rename_i hw
          obtain ⟨rfl, hout, -⟩ := hwaiting_m n hw
          rw [count_eq_zero.2 hout]
        · exact h.called.reached_le n

theorem WakeupInv.register {w w' : WakeupWorld M F U D} (h : WakeupInv w) (c : Callback F U D)
    (limit : Int) (waits : Bool) (hlt : waits → logQueueGetLength w.queue < limit)
    (hsome : waits → c.parallelPushNotify.isSome)
    (hq : w'.queue = w.queue.register limit (c.tag w.registered.length))
    (hreg : w'.registered = w.registered ++ [c]) (hcalls : w'.calls = w.calls)
    (hreached : w'.reached = w.reached)
    (hwaiting : w'.waiting = if waits then some (w.registered.length, limit) else none)
    (hwaited : w'.waited = w.waited ++ if waits then [w.registered.length] else []) : WakeupInv w' := by
  have hnew : ∀ n ∈ w'.waited, n ∈ w.waited ∨ n = w.registered.length ∧ waits := by
    intro n hn
    rw [hwaited, mem_append] at hn
    rcases hn with hold | hn
    · exact .inl hold
    · cases waits with
      | false => cases hn
      | true => exact .inr ⟨mem_singleton.1 hn, rfl⟩
  have hlen : w'.registered.length = w.registered.length + 1 := by simp [hreg]
  have hget : w'.registered[w.registered.length]? = some c := by simp [hreg]
  have hslot (f : Nat × F) (hf : w'.queue.callback.parallelPushNotify = some f) :
      f.1 = w.registered.length := by
    rw [hq] at hf
    obtain ⟨f', -, rfl⟩ := map_eq_some_iff.1 hf
    rfl
  constructor
  · rw [hq]
    simp [LogQueue.register]
  · intro f hf
    rw [hslot f hf, hq]
    exact ⟨c, hget, rfl⟩
  · intro n l hw
    rw [hwaiting] at hw
    cases waits with
    | false => cases hw
    | true =>
      cases hw
      obtain ⟨f, hf⟩ := isSome_iff_exists.1 (hsome rfl)
      refine ⟨⟨f, ?_⟩, ?_, ?_, by rw [hwaited]; simp, ?_⟩
      · rw [hq]; simp [LogQueue.register, Callback.tag, hf]
      · rw [hq]; simp [LogQueue.register, Callback.tag, hf]
      · rw [hq]; exact hlt rfl
      · rw [hreached]
        exact fun hmem => absurd (h.reached_lt _ hmem) (lt_irrefl _)
  · intro f hf hmem
    rcases hnew _ hmem with hold | ⟨-, hwaits⟩
    · have := h.waited_lt _ hold
      rw [hslot f hf] at this
      exact absurd this (lt_irrefl _)
    · rw [hwaiting, if_pos hwaits]
      rfl
  · intro n hn
    rw [hlen]
    rcases hnew n hn with hold | ⟨rfl, -⟩
    · exact Nat.lt_succ_of_lt (h.waited_lt n hold)
    · exact Nat.lt_succ_self _
  · intro n hn
    rw [hreached] at hn
    rw [hlen]
    exact Nat.lt_succ_of_lt (h.reached_lt n hn)
  · exact h.called.of_perm _ (by rw [hcalls]) hreg hreached h.reached_lt fun n hn =>
      (hnew n hn).imp_right And.left

theorem WakeupInv.empty (reg : List (Callback F U D)) (h : WakeupInv w)
    (hfifo : w'.queue.fifo.parallelPushNotify = none) (hcb : w'.queue.callback.parallelPushNotify = none)
    (hreg : w'.registered = w.registered ++ reg) (hcalls : w'.calls = w.calls)
    (hreached : w'.reached = w.reached) (hwaiting : w'.waiting = none) (hwaited : w'.waited = w.waited) :
    WakeupInv w' := by
  have hlen : w.registered.length ≤ w'.registered.length := by simp [hreg]
  constructor
  · rw [hfifo, hcb]; rfl
  · intro f hf
    rw [hcb] at hf
    cases hf
  · intro n l hw
    rw [hwaiting] at hw
    cases hw
  · intro f hf
    rw [hcb] at hf
    cases hf
  · rw [hwaited]; exact fun n hn => lt_of_lt_of_le (h.waited_lt n hn) hlen
  · rw [hreached]; exact fun n hn => lt_of_lt_of_le (h.reached_lt n hn) hlen
  · exact h.called.of_perm _ (by rw [hcalls]) hreg hreached h.reached_lt fun n hn =>
      .inl (by rwa [hwaited] at hn)

theorem WakeupInv.flight {w : WakeupWorld M F U D} {inFlight : List (InFlight F U D)}
    {invoked : List (PushNotify F U)} {released : List (Reference U D)} (h : WakeupInv w)
    (hcalls : (invoked ++ inFlight.filterMap (·.pending)).Perm w.calls) :
    WakeupInv { w with inFlight := inFlight, invoked := invoked, released := released } where
  agree := h.agree
  slot := h.slot
  waits := h.waits
  due := h.due
  waited_lt := h.waited_lt
  reached_lt := h.reached_lt
  called := h.called.of_perm [] hcalls (by simp) rfl h.reached_lt fun _ hn => .inl hn

theorem WakeupInv.step {w w' : WakeupWorld M F U D} {op : WakeupOp M F U D} (h : WakeupInv w)
    (hcase : WakeupCase w w' op) : WakeupInv w' := by
  cases hcase with
  | plain hop hslot hpush heq => exact h.plain hop hslot hpush heq
  | @left batchItems c now limit hlt heq =>
    refine h.register c limit c.parallelPushNotify.isSome (fun _ => hlt) id ?_ ?_ ?_ ?_ ?_ ?_ <;> rw [heq]
    rfl
  | @ready batchItems c now hppn hdata hfifo heq =>
    refine h.empty [c] hfifo hppn ?_ ?_ ?_ ?_ ?_ <;> rw [heq]
    rfl
  | @set notifyLimit c heq =>
    refine h.register c notifyLimit false (by simp) (by simp) ?_ ?_ ?_ ?_ ?_ ?_ <;>
      rw [heq]
    · rfl
    · simp
    · simp
  | reset heq =>
    refine h.empty [] ?_ ?_ ?_ ?_ ?_ ?_ ?_ <;> rw [heq] <;> simp [LogQueue.forget]
    rfl
  | @callBack i c hi hsome heq =>
    have hset := filterMap_set_perm (fun t : InFlight F U D => t.pending) ⟨c, true⟩ hi
    rw [heq]
    refine h.flight ?_
    simp only [InFlight.pending, Bool.false_eq_true, ↓reduceIte, toList_none, append_nil] at hset
    rw [append_assoc]
    exact List.Perm.append_left _ (perm_append_comm.trans hset)
  | @destroy i c hi heq =>
    have herase := filterMap_eraseIdx_perm (fun t : InFlight F U D => t.pending) hi
    rw [heq]
    refine h.flight (List.Perm.append_left _ ?_)
    simpa [InFlight.pending] using herase

/-! ## A run -/

theorem WakeupInv.new (qoverflowSize throttle : Int) (storedMessages droppedMessages : StatsCounterItem) :
    WakeupInv (WakeupWorld.new (M := M) (F := F) (U := U) (D := D) qoverflowSize throttle
      storedMessages droppedMessages) := by
  constructor
  · rfl
  · intro f hf; cases hf
  · intro n l hw; cases hw
  · intro f hf; cases hf
  · intro n hn; cases hn
  · intro n hn; cases hn
  · exact ⟨fun call hc => (by cases hc), fun n hn => (by cases hn), fun n => by
      simp [WakeupWorld.new]⟩

theorem Account.step {w w' : WakeupWorld M F U D} {op : WakeupOp M F U D}
    (h : Account w.registered w.references) (hcase : WakeupCase w w' op) :
    Account w'.registered w'.references := by
  obtain ⟨handed, lost, hreg, hperm, -, -⟩ := references_move hcase
  rw [hreg]
  exact h.move hperm

theorem Account.complete_step {op : WakeupOp M F U D} (h : Account w.registered w.references)
    (hcase : WakeupCase w w' op) :
    Complete w'.registered w'.references ↔ Complete w.registered w.references ∧ KeepsReference w op := by
  obtain ⟨handed, lost, hreg, hperm, hlost, hkeeps⟩ := references_move hcase
  rw [hreg, h.complete_iff hperm hlost, hkeeps]

theorem balanced_iff (h : Account w.registered w.references) :
    Balanced w ↔ Complete w.registered w.references :=
  ⟨fun hb => hb.once, fun hc => ⟨h.own, hc⟩⟩

theorem complete_run {ops : List (WakeupOp M F U D)} (hrun : Run (WakeupNext maxThreads) w ops w')
    (h : Account w.registered w.references) :
    Complete w'.registered w'.references ↔
      Complete w.registered w.references ∧ Run (KeepingNext maxThreads) w ops w' := by
  induction hrun with
  | refl w => exact ⟨fun hc => ⟨hc, .refl w⟩, And.left⟩
  | @step w v w' op ops hn hrest ih =>
    have hcase := wakeupStep_cases hn
    rw [ih (h.step hcase), h.complete_step hcase]
    constructor
    · rintro ⟨⟨hc, hkeeps⟩, hkeep⟩
      exact ⟨hc, .step ⟨hn, hkeeps⟩ hkeep⟩
    · rintro ⟨hc, hkeep⟩
      cases hkeep with
      | @step _ u _ _ _ hn' hkeep' =>
        obtain rfl : u = v := some.inj (hn'.1.symm.trans hn)
        exact ⟨⟨hc, hn'.2⟩, hkeep'⟩

/-- **Every callback that waits is called once, by the push or move that reaches its limit, and no
reference is lost exactly when no callback is set or reset over one that holds a reference.** -/
theorem log_queue_wakeup (maxThreads : Nat) (qoverflowSize throttle : Int)
    (storedMessages droppedMessages : StatsCounterItem) {ops : List (WakeupOp M F U D)}
    {w : WakeupWorld M F U D}
    (hrun : Run (WakeupNext maxThreads) (.new qoverflowSize throttle storedMessages droppedMessages)
      ops w) :
    CalledOnce w ∧ (Balanced w ↔ Run (KeepingNext maxThreads)
      (.new qoverflowSize throttle storedMessages droppedMessages) ops w) := by
  have hnew : Account (F := F) (U := U) (D := D) [] [] :=
    ⟨fun r hr => (by cases hr), fun n => by simp⟩
  have hinv : WakeupInv w ∧ Account w.registered w.references := hrun.invariant
    (I := fun w => WakeupInv w ∧ Account w.registered w.references)
    (fun _ _ _ hn h => ⟨h.1.step (wakeupStep_cases hn), h.2.step (wakeupStep_cases hn)⟩)
    ⟨.new qoverflowSize throttle storedMessages droppedMessages, hnew⟩
  refine ⟨hinv.1.called, ?_⟩
  rw [balanced_iff hinv.2, complete_run hrun hnew]
  exact and_iff_right fun n c hn => by cases hn

/-- The consumer finds the queue empty, a message arrives, and the thread that pushed it calls the
consumer back. -/
def wokenUp : List (WakeupOp Unit Unit Unit Unit) :=
  [.queue (.checkItems 1 ⟨some (), some (), some ()⟩ ⟨0, 0⟩),
    .queue (.pushTail none ⟨(), false⟩ 0), .callBack 0, .destroy 0]

theorem log_queue_wakeup_woken_up : ∃ w : WakeupWorld Unit Unit Unit Unit,
    w.invoked.length = 1 ∧ w.released.length = 1 ∧ w.inFlight.length = 0 ∧ CalledOnce w ∧
      Balanced w := by
  have hkeep : Run (KeepingNext 0) (.new 100 0 none none) wokenUp _ :=
    .step ⟨rfl, trivial⟩ (.step ⟨rfl, trivial⟩ (.step ⟨rfl, trivial⟩ (.step ⟨rfl, trivial⟩ (.refl _))))
  have h := log_queue_wakeup 0 100 0 none none (hkeep.mono fun _ _ _ hn => hn.1)
  exact ⟨_, rfl, rfl, rfl, h.1, h.2.2 hkeep⟩

def stoppedWaiting : List (WakeupOp Unit Unit Unit Unit) :=
  [.queue (.checkItems 1 ⟨some (), some (), some ()⟩ ⟨0, 0⟩), .queue .resetParallelPush]

/-- A reset forgets the reference that the queue holds. -/
theorem log_queue_wakeup_stopped_waiting :
    ¬ ∀ (maxThreads : Nat) (qoverflowSize throttle : Int) (ops : List (WakeupOp Unit Unit Unit Unit))
      (w : WakeupWorld Unit Unit Unit Unit),
      Run (WakeupNext maxThreads) (.new qoverflowSize throttle none none) ops w →
        CalledOnce w ∧ Balanced w := by
  intro h
  have hrun : Run (WakeupNext 0) (.new 100 0 none none) stoppedWaiting _ :=
    .step rfl (.step rfl (.refl _))
  have hlost := (h 0 100 0 _ _ hrun).2.once 0 ⟨some (), some (), some ()⟩ rfl
  exact absurd hlost (by decide)

end SyslogNg.LogQueue
