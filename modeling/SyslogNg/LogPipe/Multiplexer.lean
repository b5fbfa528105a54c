import SyslogNg.LogMsg.Isolation

/-!
# The multiplexer (`lib/logmpx.c`)

`log_multiplexer_queue` gives one message to several branches. A branch is what it does with the
messages of the heap, and whether it matched. The delivery that is predicted to be the last one is
not write protected: `log_multiplexer_routes` says that the prediction is right.
-/

namespace SyslogNg.LogPipe

open Lib LogMsg
open List hiding getElem?_eq_some_iff
open List (length_set)
open Option (bind_eq_some_iff bind_some map_eq_some_iff map_some)

variable {P : Type}

/-- The protections of a branch (by multiplexers of its own) are taken back by it, in order. -/
def balanced : Nat → List MsgOp → Bool
  | depth, [] => depth = 0
  | depth, .guard _ :: script => balanced (depth + 1) script
  | 0, .unguard _ :: _ => false
  | depth + 1, .unguard _ :: script => balanced depth script
  | depth, _ :: script => balanced depth script

/-- One of `next_hops`: `PIF_BRANCH_FINAL`, `PIF_BRANCH_FALLBACK`, what it leaves in `*matched`, and
what it does. -/
structure NextHop where
  final : Bool
  fallback : Bool
  matched : Bool
  script : List MsgOp
  balanced : balanced 0 script = true

abbrev LogView (P : Type) := Option (LogContents P) × Option LogScalars

def viewOf (h : LogHeap P) (m : Nat) : LogView P := (contents h m, scalars h m)

/-- What the multiplexer does with the message. -/
inductive MpxEvent (P : Type) where
  | addAck
  | deliver (hop : Nat) (view : LogView P)
  | forward (view : LogView P)
  | drop

/-- `hasNext` says that `super.pipe_next` is not `NULL`. -/
structure LogMultiplexer where
  hasNext : Bool
  nextHops : List NextHop

/-- `fallback_exists`, which `log_multiplexer_init` computes. -/
def LogMultiplexer.fallbackExists (self : LogMultiplexer) : Bool := self.nextHops.any NextHop.fallback

def LogMultiplexer.lastDelivery (self : LogMultiplexer) (i : Nat) (fallback delivered : Bool) :
    Bool :=
  !self.hasNext && i + 1 == self.nextHops.length &&
    (!self.fallbackExists || delivered || fallback)

section

variable (step : LogHeap P → MsgOp → Option (LogHeap P)) (self : LogMultiplexer) (msg : Nat)
  (ackNeeded : Bool)

def mpxDeliver (i : Nat) (fallback delivered : Bool) (hop : NextHop) (h : LogHeap P) :
    Option (LogHeap P × List (MpxEvent P)) :=
  (step h (.addAck msg ackNeeded)).bind fun h =>
    (exec step h (if self.lastDelivery i fallback delivered then hop.script
      else .guard msg :: (hop.script ++ [.unguard msg]))).map fun h' =>
        (h', [.addAck, .deliver i (viewOf h msg)])

/-- The inner loop, from the hop at `i` on. -/
def mpxLoop (fallback : Bool) :
    Nat → List NextHop → Bool → LogHeap P → Option (LogHeap P × Bool × List (MpxEvent P))
  | _, [], delivered, h => some (h, delivered, [])
  | i, hop :: hops, delivered, h =>
    if hop.fallback ≠ fallback then mpxLoop fallback (i + 1) hops delivered h
    else
      (mpxDeliver step self msg ackNeeded i fallback delivered hop h).bind fun (h, events) =>
        if hop.matched && hop.final then some (h, true, events)
        else
          (mpxLoop fallback (i + 1) hops (delivered || hop.matched) h).map fun r =>
            (r.1, r.2.1, events ++ r.2.2)

def logMultiplexerQueue (h : LogHeap P) : Option (LogHeap P × List (MpxEvent P)) :=
  (mpxLoop step self msg ackNeeded false 0 self.nextHops false h).bind fun (h, delivered, events) =>
    (if self.fallbackExists && !delivered then
      (mpxLoop step self msg ackNeeded true 0 self.nextHops delivered h).map fun r =>
        (r.1, events ++ r.2.2)
    else some (h, events)).map fun (h, events) =>
      (h, events ++ [if self.hasNext then .forward (viewOf h msg) else .drop])

end

/-! ## Routing -/

def upToFinal : List (Nat × NextHop) → List (Nat × NextHop)
  | [] => []
  | (i, hop) :: hops => if hop.matched && hop.final then [(i, hop)] else (i, hop) :: upToFinal hops

def hopsOf (fallback : Bool) : Nat → List NextHop → List (Nat × NextHop)
  | _, [] => []
  | i, hop :: hops =>
    if hop.fallback = fallback then (i, hop) :: hopsOf fallback (i + 1) hops
    else hopsOf fallback (i + 1) hops

/-- The hops a message is delivered to, in order: the fallback ones only if no other one matches. -/
def LogMultiplexer.routes (self : LogMultiplexer) : List (Nat × NextHop) :=
  upToFinal (hopsOf false 0 self.nextHops) ++
    if (hopsOf false 0 self.nextHops).any fun hop => hop.2.matched then []
    else upToFinal (hopsOf true 0 self.nextHops)

variable {hops : List NextHop} {i : Nat}

theorem hopsOf_true_of_none (h : ¬ hops.any NextHop.fallback = true) :
    hopsOf true i hops = [] := by
  induction hops generalizing i with
  | nil => rfl
  | cons hop hops ih =>
    rw [any_cons, Bool.or_eq_true, not_or] at h
    rw [hopsOf, if_neg h.1]
    exact ih h.2

/-- The events of a delivery of what is seen in `view`. -/
def deliveries (view : LogView P) (hops : List (Nat × NextHop)) : List (MpxEvent P) :=
  hops.flatMap fun hop => [.addAck, .deliver hop.1 view]

/-! ## The steps of a branch -/

/-- The fields that have no function of their own are changed in messages that are not write
protected. -/
def Disciplined (h : LogHeap P) (op : MsgOp) : Bool :=
  (op.setsField.bind fun m => h.msgs[m]?).all fun msg => !logMsgIsWriteProtected msg

/-- A step that keeps to the discipline, and after which the counters are right. -/
def mpxNext (ops : PayloadOps P) (registry : LogMsgRegistry) (h : LogHeap P) (op : MsgOp) :
    Option (LogHeap P) :=
  if Disciplined h op then msgNext ops registry h op else none

section

variable {ops : PayloadOps P} {registry : LogMsgRegistry} {h h' : LogHeap P} {op : MsgOp} {m : Nat}

theorem mpxNext_eq (hs : mpxNext ops registry h op = some h') :
    Disciplined h op = true ∧ MsgNext ops registry h op h' := by
  unfold mpxNext at hs
  split at hs
  · rename_i hd
    unfold msgNext at hs
    split at hs
    · rename_i hfit
      exact ⟨hd, hfit, hs⟩
    · cases hs
  · cases hs

theorem msgStep_guards (hs : msgStep ops registry h op = some h') :
    h'.guards = op.guardsAfter h.guards := by
  cases msgStep_effect hs with
  | write hop hm hcnt hu =>
    rw [hu.guards]
    cases op <;> first | rfl | cases hop
  | idle _ hg => exact hg.symm
  | field _ hg => exact hg.symm
  | node hop =>
    rw [hop]
    rfl
  | guard hop =>
    rw [hop]
    rfl
  | unguard hop hg =>
    rw [hop, hg]
    rfl
  | clone hop =>
    rcases hop with rfl | rfl
    · rfl
    · rfl

theorem scalars_set {msg msg' : LogMessage} {j : Nat} (hj : h.msgs[j]? = some msg)
    (hmsgs : h'.msgs = h.msgs.set j msg') (hsc : j ≠ m ∨ msg'.scalars = msg.scalars) :
    scalars h' m = scalars h m := by
  unfold scalars
  rw [hmsgs]
  by_cases hjm : j = m
  · subst hjm
    rw [getElem?_set_self (List.getElem?_eq_some_iff.1 hj).1, hj, map_some,
      map_some, hsc.resolve_left fun hne => hne rfl]
  · rw [getElem?_set_ne hjm]

theorem viewOf_set {msg msg' : LogMessage} {j : Nat} {nodes guards : List Nat}
    (hshape : SameShape msg msg') (hj : h.msgs[j]? = some msg) (hsc : j ≠ m ∨ msg'.scalars = msg.scalars) :
    viewOf { h with msgs := h.msgs.set j msg', nodes := nodes, guards := guards } m =
      viewOf h m := by
  refine Prod.ext ?_ ?_
  · exact @SameShape.contents P h
      { h with msgs := h.msgs.set j msg', nodes := nodes, guards := guards } j msg msg' hshape hj rfl
      rfl rfl rfl m
  · exact scalars_set hj rfl hsc

/-- **A step does not change what is seen of a message that is write protected.** -/
theorem viewOf_step (hi : HeapInv h) (hpos : 0 < h.holds m) (hlt : m < h.msgs.length)
    (hs : mpxNext ops registry h op = some h') : viewOf h' m = viewOf h m ∧ m < h'.msgs.length := by
  obtain ⟨hd, hfit, hs⟩ := mpxNext_eq hs
  have hm := getElem?_eq_getElem hlt
  have hprot := hi.isWriteProtected hm hpos
  cases msgStep_effect hs with
  | @write j msg msg' _ hop hj hcnt hu =>
    have hne : j ≠ m := by
      rintro rfl
      rw [hj, Option.some_inj] at hm
      rw [← hm] at hprot
      unfold logMsgIsWriteProtected at hprot
      rw [hcnt] at hprot
      cases hprot
    refine ⟨Prod.ext (hu.contents_ne hi hj hcnt (Ne.symm hne)) (scalars_set hj hu.msgs (.inl hne)), ?_⟩
    rw [hu.msgs, length_set]
    exact hlt
  | idle => exact ⟨rfl, hlt⟩
  | @field j msg msg' hop hg hj hshape hcnt hsc =>
    refine ⟨viewOf_set hshape hj ?_, by rw [length_set]; exact hlt⟩
    rcases hsc with hset | hsame
    · refine .inl ?_
      rintro rfl
      unfold Disciplined at hd
      rw [hset, bind_some, hm, Option.all_some, hprot] at hd
      cases hd
    · exact .inr hsame
  | node hop hj =>
    exact ⟨viewOf_set (sameShape_protect _) hj (.inr rfl), by rw [length_set]; exact hlt⟩
  | guard hop hj =>
    exact ⟨viewOf_set (sameShape_protect _) hj (.inr rfl), by rw [length_set]; exact hlt⟩
  | @unguard j guards hop hg =>
    have hjlt : j < h.msgs.length := hi.inrange (by rw [hg]; exact mem_cons_self)
    have hj := getElem?_eq_getElem hjlt
    rw [modify_eq hj]
    refine ⟨viewOf_set (sameShape_unprotect _) hj (.inr rfl), ?_⟩
    simp only [length_set]
    exact hlt
  | @clone j t msg a hop ht hp hj =>
    have hlen : h.msgs.length < (h.withClone t msg a).msgs.length := by
      unfold LogHeap.withClone
      simp only [length_append, length_set, length_singleton]
      omega
    refine ⟨Prod.ext ((contents_withClone hj).2 m hlt) ?_, hlt.trans hlen⟩
    have hset : scalars { h with msgs := h.msgs.set t (logMsgWriteProtect msg) } m = scalars h m :=
      scalars_set hj rfl (.inr rfl)
    show scalars _ m = scalars h m
    rw [← hset]
    unfold scalars
    show Option.map _ (h.msgs.set t (logMsgWriteProtect msg) ++ [cloneOf t msg a])[m]? = _
    rw [getElem?_append_left (by rwa [length_set])]

theorem length_step (hs : msgStep ops registry h op = some h') : h.msgs.length ≤ h'.msgs.length := by
  cases msgStep_effect hs with
  | write hop hm hcnt hu => rw [hu.msgs, length_set]
  | idle => exact le_refl _
  | field => exact (length_set ..).ge
  | node => exact (length_set ..).ge
  | guard => exact (length_set ..).ge
  | unguard => exact (length_modify ..).ge
  | clone =>
    unfold LogHeap.withClone
    simp only [length_append, length_set]
    omega

theorem exec_balanced {script : List MsgOp} {own base : List Nat} (hi : HeapInv h)
    (hbal : balanced own.length script = true) (hg : h.guards = own ++ base)
    (hs : exec (mpxNext ops registry) h script = some h') :
    HeapInv h' ∧ h'.guards = base ∧ h.msgs.length ≤ h'.msgs.length ∧ ∀ m ∈ base, viewOf h' m = viewOf h m := by
  induction script generalizing h own with
  | nil =>
    cases hs
    unfold balanced at hbal
    rw [decide_eq_true_eq, length_eq_zero_iff] at hbal
    rw [hbal, nil_append] at hg
    exact ⟨hi, hg, le_refl _, fun _ _ => rfl⟩
  | cons op script ih =>
    rw [exec] at hs
    obtain ⟨h1, h1s, hs⟩ := bind_eq_some_iff.1 hs
    obtain ⟨-, hnext⟩ := mpxNext_eq h1s
    have hi1 := hi.step hnext
    have hg1 := msgStep_guards hnext.2
    have hbelow : ∃ own1 : List Nat, balanced own1.length script = true ∧
        op.guardsAfter (own ++ base) = own1 ++ base := by
      cases op with
      | guard m => exact ⟨m :: own, hbal, rfl⟩
      | unguard m =>
        cases own with
        | nil => cases hbal
        | cons g own => exact ⟨own, hbal, rfl⟩
      | _ => exact ⟨own, by simpa [balanced] using hbal, rfl⟩
    obtain ⟨own1, hbal1, hafter⟩ := hbelow
    rw [hg, hafter] at hg1
    obtain ⟨hi', hg', hle, hview⟩ := ih hi1 hbal1 hg1 hs
    have hstep : ∀ m ∈ base, viewOf h1 m = viewOf h m := by
      intro m hm
      have hmem : m ∈ h.guards := by
        rw [hg]
        exact mem_append_right _ hm
      have hpos : 0 < h.holds m := by
        have := count_pos_iff.2 hmem
        unfold LogHeap.holds
        omega
      exact (viewOf_step hi hpos (hi.inrange (mem_append_left _ hmem)) h1s).1
    refine ⟨hi', hg', ?_, fun m hm => (hview m hm).trans (hstep m hm)⟩
    exact (length_step hnext.2).trans hle

/-! ## The loops -/

variable {self : LogMultiplexer} {ackNeeded : Bool}

theorem viewOf_addAck (hs : mpxNext ops registry h (.addAck m ackNeeded) = some h') :
    viewOf h' m = viewOf h m := by
  obtain ⟨-, -, hs⟩ := mpxNext_eq hs
  cases hs
  cases ackNeeded with
  | false => rfl
  | true =>
    cases hm : h.msgs[m]? with
    | none =>
      show viewOf (h.modify m _) m = _
      rw [modify_of_none hm]
    | some msg =>
      show viewOf (h.modify m _) m = _
      have hshape : SameShape msg { msg with ack := (msg.ack + 1) % 2 ^ 16 } := ⟨rfl, rfl, rfl, rfl⟩
      rw [modify_eq hm]
      exact viewOf_set hshape hm (.inr rfl)

variable {delivered fallback : Bool}

theorem mpxDeliver_spec {hop : NextHop} {events : List (MpxEvent P)} (hi : HeapInv h)
    (hlt : m < h.msgs.length)
    (hd : mpxDeliver (mpxNext ops registry) self m ackNeeded i fallback delivered hop h =
      some (h', events)) :
    HeapInv h' ∧ m < h'.msgs.length ∧ events = [.addAck, .deliver i (viewOf h m)] ∧
      (self.lastDelivery i fallback delivered = false → viewOf h' m = viewOf h m) := by
  unfold mpxDeliver at hd
  obtain ⟨h1, hack, hd⟩ := bind_eq_some_iff.1 hd
  obtain ⟨h2, hexec, heq⟩ := map_eq_some_iff.1 hd
  cases heq
  have hnext := (mpxNext_eq hack).2
  have hi1 := hi.step hnext
  have hlt1 : m < h1.msgs.length := hlt.trans_le (length_step hnext.2)
  have hview1 := viewOf_addAck hack
  rw [hview1]
  cases hlast : self.lastDelivery i fallback delivered with
  | true =>
    rw [hlast, if_pos rfl] at hexec
    obtain ⟨hi2, -, hle, -⟩ :=
      @exec_balanced P ops registry h1 h' hop.script [] h1.guards hi1 hop.balanced rfl hexec
    exact ⟨hi2, hlt1.trans_le hle, rfl, fun hcontra => by cases hcontra⟩
  | false =>
    rw [hlast, if_neg Bool.false_ne_true, exec] at hexec
    obtain ⟨h3, hguard, hexec⟩ := bind_eq_some_iff.1 hexec
    rw [exec_append] at hexec
    obtain ⟨h4, hscript, hexec⟩ := bind_eq_some_iff.1 hexec
    obtain ⟨h5, hunguard, hexec⟩ := bind_eq_some_iff.1 hexec
    cases hexec
    have hnext3 := (mpxNext_eq hguard).2
    have hi3 := hi1.step hnext3
    have hg3 : h3.guards = m :: h1.guards := msgStep_guards hnext3.2
    have hle3 := length_step hnext3.2
    obtain ⟨hi4, hg4, hle4, hview4⟩ :=
      @exec_balanced P ops registry h3 h4 hop.script [] (m :: h1.guards) hi3 hop.balanced hg3 hscript
    have hnext5 := (mpxNext_eq hunguard).2
    have hpos4 : 0 < h4.holds m := by
      have : 0 < h4.guards.count m := count_pos_iff.2 (hg4 ▸ mem_cons_self)
      unfold LogHeap.holds
      omega
    have hview3 : viewOf h3 m = viewOf h1 m := by
      cases msgStep_effect hnext3.2 with
      | guard hop1 hj =>
        cases hop1
        exact viewOf_set (sameShape_protect _) hj (.inr rfl)
      | write hop1 => cases hop1
      | idle _ hg => exact absurd (congrArg length hg) (by simp [MsgOp.guardsAfter])
      | field _ hg => exact absurd (congrArg length hg) (by simp [MsgOp.guardsAfter])
      | node hop1 => cases hop1
      | unguard hop1 => cases hop1
      | clone hop1 => rcases hop1 with hop1 | hop1 <;> cases hop1
    obtain ⟨hview5, hlt5⟩ := viewOf_step hi4 hpos4 (by omega) hunguard
    refine ⟨hi4.step hnext5, hlt5, rfl, fun _ => ?_⟩
    rw [hview5, hview4 m mem_cons_self, hview3, hview1]

theorem mpxLoop_spec {delivered' : Bool} {events : List (MpxEvent P)}
    (hlen : i + hops.length = self.nextHops.length) (hi : HeapInv h) (hlt : m < h.msgs.length)
    (hl : mpxLoop (mpxNext ops registry) self m ackNeeded fallback i hops delivered h =
      some (h', delivered', events)) :
    HeapInv h' ∧ m < h'.msgs.length ∧
      events = deliveries (viewOf h m) (upToFinal (hopsOf fallback i hops)) ∧
      delivered' = (delivered || (hopsOf fallback i hops).any fun hop => hop.2.matched) ∧
      (viewOf h' m = viewOf h m ∨
        self.hasNext = false ∧ (self.fallbackExists = false ∨ delivered' = true ∨ fallback = true)) := by
  induction hops generalizing i delivered h events with
  | nil =>
    cases hl
    exact ⟨hi, hlt, rfl, (Bool.or_false _).symm, .inl rfl⟩
  | cons hop hops ih =>
    rw [length_cons] at hlen
    rw [mpxLoop] at hl
    by_cases hkind : hop.fallback = fallback
    swap
    · rw [if_pos hkind] at hl
      obtain ⟨hi', hlt', hev, hdel, hview⟩ := ih (by omega) hi hlt hl
      rw [hopsOf, if_neg hkind]
      exact ⟨hi', hlt', hev, hdel, hview⟩
    rw [if_neg (fun hne => hne hkind)] at hl
    obtain ⟨⟨h1, ev1⟩, hdeliver, hl⟩ := bind_eq_some_iff.1 hl
    obtain ⟨hi1, hlt1, hev1, hview1⟩ := mpxDeliver_spec hi hlt hdeliver
    rw [hopsOf, if_pos hkind, upToFinal, any_cons]
    simp only at hl
    -- the message is as it was, unless this was the last hop
    have hlast : viewOf h1 m = viewOf h m ∨ hops = [] ∧ self.hasNext = false ∧
        (self.fallbackExists = false ∨ delivered = true ∨ fallback = true) := by
      cases hlast : self.lastDelivery i fallback delivered with
      | false => exact .inl (hview1 hlast)
      | true =>
        unfold LogMultiplexer.lastDelivery at hlast
        simp only [Bool.and_eq_true, Bool.or_eq_true, Bool.not_eq_true', beq_iff_eq] at hlast
        refine .inr ⟨length_eq_zero_iff.1 (by omega), hlast.1.1, ?_⟩
        rcases hlast.2 with (h1 | h1) | h1
        · exact .inl h1
        · exact .inr (.inl h1)
        · exact .inr (.inr h1)
    by_cases hfinal : (hop.matched && hop.final) = true
    · rw [if_pos hfinal] at hl ⊢
      cases hl
      rw [Bool.and_eq_true] at hfinal
      refine ⟨hi1, hlt1, hev1, by rw [hfinal.1, Bool.true_or, Bool.or_true], ?_⟩
      exact hlast.imp_right fun hnil => ⟨hnil.2.1, .inr (.inl rfl)⟩
    · rw [if_neg hfinal] at hl ⊢
      obtain ⟨⟨h2, del2, ev2⟩, hloop, heq⟩ := map_eq_some_iff.1 hl
      cases heq
      rcases hlast with hsame | ⟨rfl, hnext, hfb⟩
      · obtain ⟨hi2, hlt2, hev2, hdel2, hview2⟩ := ih (by omega) hi1 hlt1 hloop
        rw [hsame] at hev2 hview2
        refine ⟨hi2, hlt2, ?_, by rw [hdel2, Bool.or_assoc], hview2⟩
        rw [hev1, hev2]
        rfl
      · cases hloop
        refine ⟨hi1, hlt1, ?_, by rw [hopsOf, any_nil, Bool.or_false], .inr ⟨hnext, ?_⟩⟩
        · rw [hev1]
          rfl
        · rcases hfb with hfb | hfb | hfb
          · exact .inl hfb
          · exact .inr (.inl (by rw [hfb, Bool.true_or]))
          · exact .inr (.inr hfb)

/-! ## A run that keeps to the discipline is a run of the code -/

theorem exec_msgStep {script : List MsgOp} (hs : exec (mpxNext ops registry) h script = some h') :
    exec (msgStep ops registry) h script = some h' := by
  induction script generalizing h with
  | nil => exact hs
  | cons op script ih =>
    obtain ⟨h1, h1s, hs⟩ := bind_eq_some_iff.1 hs
    rw [exec, (mpxNext_eq h1s).2.2, bind_some]
    exact ih hs

theorem mpxDeliver_msgStep {hop : NextHop} {r : LogHeap P × List (MpxEvent P)}
    (hd : mpxDeliver (mpxNext ops registry) self m ackNeeded i fallback delivered hop h = some r) :
    mpxDeliver (msgStep ops registry) self m ackNeeded i fallback delivered hop h = some r := by
  unfold mpxDeliver at hd ⊢
  obtain ⟨h1, hack, hd⟩ := bind_eq_some_iff.1 hd
  obtain ⟨h2, hexec, heq⟩ := map_eq_some_iff.1 hd
  rw [(mpxNext_eq hack).2.2, bind_some, exec_msgStep hexec, map_some, heq]

theorem mpxLoop_msgStep {r : LogHeap P × Bool × List (MpxEvent P)}
    (hl : mpxLoop (mpxNext ops registry) self m ackNeeded fallback i hops delivered h = some r) :
    mpxLoop (msgStep ops registry) self m ackNeeded fallback i hops delivered h = some r := by
  induction hops generalizing i delivered h r with
  | nil => exact hl
  | cons hop hops ih =>
    rw [mpxLoop] at hl ⊢
    split at hl
    · rename_i hkind
      rw [if_pos hkind]
      exact ih hl
    · rename_i hkind
      rw [if_neg hkind]
      obtain ⟨⟨h1, ev1⟩, hdeliver, hl⟩ := bind_eq_some_iff.1 hl
      rw [mpxDeliver_msgStep hdeliver, bind_some]
      simp only at hl ⊢
      split at hl
      · rename_i hfinal
        rw [if_pos hfinal]
        exact hl
      · rename_i hfinal
        rw [if_neg hfinal]
        obtain ⟨r1, hloop, heq⟩ := map_eq_some_iff.1 hl
        rw [ih hloop, map_some, heq]

end

/-- **Multiplexer routing.** In every run in which no `protect_cnt` wraps, the multiplexer delivers
the message once to each of its routes, with one ack each; every one of them, and the pipe behind
the multiplexer, sees the message as it came in. -/
theorem log_multiplexer_routes {ops : PayloadOps P} {registry : LogMsgRegistry} {payload : P}
    {recvd : LogStamp} {script : List MsgOp} {h h' : LogHeap P} {self : LogMultiplexer} {m : Nat}
    {ackNeeded : Bool} {trace : List (MpxEvent P)}
    (hrun : Run (MsgNext ops registry) (logMsgNew payload recvd) script h)
    (hlt : m < h.msgs.length)
    (hq : logMultiplexerQueue (mpxNext ops registry) self m ackNeeded h = some (h', trace)) :
    logMultiplexerQueue (msgStep ops registry) self m ackNeeded h = some (h', trace) ∧
      trace = deliveries (viewOf h m) self.routes ++
        [if self.hasNext then .forward (viewOf h m) else .drop] := by
  have hi := (HeapInv.start payload recvd).run hrun
  unfold logMultiplexerQueue at hq ⊢
  obtain ⟨⟨h1, del1, ev1⟩, hl1, hq⟩ := bind_eq_some_iff.1 hq
  obtain ⟨⟨h2, ev2⟩, hl2, heq⟩ := map_eq_some_iff.1 hq
  cases heq
  obtain ⟨hi1, hlt1, hev1, hdel1, hview1⟩ := mpxLoop_spec (Nat.zero_add _) hi hlt hl1
  rw [mpxLoop_msgStep hl1, bind_some]
  rw [Bool.false_or] at hdel1
  -- what is seen in the end, if anybody looks
  have hend : ∀ {h2 : LogHeap P}, (viewOf h2 m = viewOf h m ∨ self.hasNext = false) →
      (if self.hasNext then MpxEvent.forward (viewOf h2 m) else .drop) =
        if self.hasNext then .forward (viewOf h m) else .drop := by
    rintro h2 (hsame | hnone)
    · rw [hsame]
    · rw [hnone]
      rfl
  simp only at hl2 ⊢
  by_cases hfb : (self.fallbackExists && !del1) = true
  · rw [if_pos hfb] at hl2 ⊢
    obtain ⟨⟨h3, del3, ev3⟩, hl3, heq⟩ := map_eq_some_iff.1 hl2
    cases heq
    rw [Bool.and_eq_true, Bool.not_eq_true'] at hfb
    have hsame1 : viewOf h1 m = viewOf h m := by
      rcases hview1 with hsame | ⟨-, hno | hyes | hphase⟩
      · exact hsame
      · rw [hfb.1] at hno
        cases hno
      · rw [hfb.2] at hyes
        cases hyes
      · cases hphase
    obtain ⟨-, -, hev3, -, hview3⟩ := mpxLoop_spec (Nat.zero_add _) hi1 hlt1 hl3
    rw [hsame1] at hev3 hview3
    rw [mpxLoop_msgStep hl3]
    refine ⟨rfl, ?_⟩
    rw [hend (hview3.imp_right And.left), hev1, hev3, LogMultiplexer.routes, ← hdel1, hfb.2,
      if_neg Bool.false_ne_true]
    unfold deliveries
    rw [flatMap_append]
  · rw [if_neg hfb] at hl2 ⊢
    cases hl2
    refine ⟨rfl, ?_⟩
    -- without a second phase there are no fallback hops, or one of the others has matched
    have hroutes : self.routes = upToFinal (hopsOf false 0 self.nextHops) := by
      unfold LogMultiplexer.routes
      rw [← hdel1]
      cases hdel : del1 with
      | true => rw [if_pos rfl, append_nil]
      | false =>
        rw [hdel, Bool.not_false, Bool.and_true] at hfb
        rw [if_neg Bool.false_ne_true, hopsOf_true_of_none hfb]
        exact append_nil _
    rw [hend (hview1.imp_right And.left), hev1, hroutes]

/-- A branch that sets a tag in a copy, and a fallback branch that is not taken. -/
def taggingMpx : LogMultiplexer where
  hasNext := true
  nextHops := [⟨false, false, true, [.makeWritable 0 true, .setTag 1 5 true], rfl⟩,
    ⟨false, true, true, [.queue 0], rfl⟩]

theorem log_multiplexer_routes_tagging : ∃ h' trace,
    logMultiplexerQueue (msgStep nvTableOps plainRegistry) taggingMpx 0 true
      (logMsgNew (NameValue.nvTableNew 9 16 256) ⟨0, 0, 0⟩) = some (h', trace) ∧
    trace = deliveries (viewOf (logMsgNew (NameValue.nvTableNew 9 16 256) ⟨0, 0, 0⟩) 0)
        taggingMpx.routes ++
      [.forward (viewOf (logMsgNew (NameValue.nvTableNew 9 16 256) ⟨0, 0, 0⟩) 0)] := by
  have hsome := show (logMultiplexerQueue (mpxNext nvTableOps plainRegistry) taggingMpx 0 true
    (logMsgNew (NameValue.nvTableNew 9 16 256) ⟨0, 0, 0⟩)).isSome = true by decide +kernel
  obtain ⟨⟨h', trace⟩, hq⟩ := Option.isSome_iff_exists.1 hsome
  exact ⟨h', trace, log_multiplexer_routes (.refl _) (by decide) hq⟩

def MpxEvent.tagSeen (id : Nat) : MpxEvent P → Option Bool
  | .deliver _ view => view.1.map fun c => c.tags id
  | .forward view => view.1.map fun c => c.tags id
  | _ => none

/-- 255 queues, and a branch that sets a tag in front of one more. -/
def crowdedMpx : LogMultiplexer where
  hasNext := false
  nextHops := [⟨false, false, true, replicate 255 (.queue 0), by decide +kernel⟩,
    ⟨false, false, true, [.makeWritable 0 true, .setTag 0 5 true], rfl⟩,
    ⟨false, false, true, [.queue 0], rfl⟩]

/-- The protections wrap to 0, and the last branch sees the tag that the second one has set. -/
theorem log_multiplexer_leaks_tag : ∃ h' trace,
    logMultiplexerQueue (msgStep nvTableOps plainRegistry) crowdedMpx 0 true
      (logMsgNew (NameValue.nvTableNew 9 16 256) ⟨0, 0, 0⟩) = some (h', trace) ∧
    trace ≠ deliveries (viewOf (logMsgNew (NameValue.nvTableNew 9 16 256) ⟨0, 0, 0⟩) 0)
        crowdedMpx.routes ++ [.drop] := by
  have hrun := show (logMultiplexerQueue (msgStep nvTableOps plainRegistry) crowdedMpx 0 true
      (logMsgNew (NameValue.nvTableNew 9 16 256) ⟨0, 0, 0⟩)).map
        (fun r => r.2.map (MpxEvent.tagSeen 5)) =
      some [none, some false, none, some false, none, some true, none] by decide +kernel
  obtain ⟨⟨h', trace⟩, hq, hseen⟩ := map_eq_some_iff.1 hrun
  refine ⟨h', trace, hq, fun heq => ?_⟩
  have hall := show (deliveries (viewOf (logMsgNew (NameValue.nvTableNew 9 16 256) ⟨0, 0, 0⟩) 0)
      crowdedMpx.routes ++ [MpxEvent.drop]).map (MpxEvent.tagSeen 5) =
      [none, some false, none, some false, none, some false, none] by decide +kernel
  simp only [heq] at hseen
  rw [hall] at hseen
  revert hseen
  decide

end SyslogNg.LogPipe
