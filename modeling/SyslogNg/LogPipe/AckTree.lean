import SyslogNg.LogMsg.Isolation
import SyslogNg.Lib.Ledger

/-!
# Acknowledgements through a tree of pipes (`lib/logpipe.h`, `lib/logmpx.c`, `lib/logmsg.c`)

A source sends a message through multiplexers, queues and pipes that change it. The source thread
is a stack of calls that are to be made; the destinations acknowledge the nodes of their queues at
any time, and an acknowledgement that ends a clone goes on to its original as a call of its own. So
the steps of the source and of the destinations come in any order.

The counters are accounts in the sense of `Lib.Ledger`: who has a message to pass on, to drop or to
acknowledge holds a token for it.
-/

namespace SyslogNg.LogPipe

open Lib LogMsg Option
open List hiding getElem?_eq_some_iff
open Option (bind_some map_eq_some_iff some_inj)

variable {P : Type}

/-- What a pipe sets in a message. -/
inductive LogChange where
  | setValue (handle : Nat) (value : List UInt8)
  | setValueIndirect (handle refHandle type ofs len : Nat)
  | setTag (id : Nat) (on : Bool)
  | setPri (pri : UInt16)
  | setStamps (stamp recvd : LogStamp)
  | setFlags (flags : BitVec 32) (initialParse : Bool)

def LogChange.op (m : Nat) : LogChange → MsgOp
  | .setValue handle value => .setValue m handle value
  | .setValueIndirect handle refHandle type ofs len =>
    .setValueIndirect m handle refHandle type ofs len
  | .setTag id on => .setTag m id on
  | .setPri pri => .setPri m pri
  | .setStamps stamp recvd => .setStamps m stamp recvd
  | .setFlags flags initialParse => .setFlags m flags initialParse

/-- `PIF_BRANCH_FINAL`, `PIF_BRANCH_FALLBACK`, and what the branch leaves in `*matched`. -/
structure HopFlags where
  final : Bool
  fallback : Bool
  matched : Bool

/-- A pipe and what follows it; `next` is `pipe_next`. -/
inductive LogPipeTree where
  /-- A pipe that drops the message: a filter that does not match. -/
  | drop
  /-- A destination. -/
  | queue
  | forward (next : Option LogPipeTree)
  /-- `log_msg_make_writable`, changes, and on. -/
  | rewrite (changes : List LogChange) (next : Option LogPipeTree)
  | multiplexer (hops : List (HopFlags × LogPipeTree)) (next : Option LogPipeTree)

inductive PathTask where
  /-- `log_pipe_queue`. -/
  | queue (pipe : LogPipeTree) (m : Nat)
  /-- `log_pipe_forward_msg`. -/
  | forward (next : Option LogPipeTree) (m : Nat)
  /-- The loops of `log_multiplexer_queue`: `rest` is what is left of the inner one. -/
  | hops (hops : List (HopFlags × LogPipeTree)) (next : Option LogPipeTree) (fallback : Bool)
      (rest : List (HopFlags × LogPipeTree)) (delivered : Bool) (m : Nat)
  /-- `log_msg_write_unprotect` after a delivery. -/
  | unprotect (m : Nat)

/-- The message that a call has to acknowledge in the end. -/
def PathTask.owes : PathTask → Option Nat
  | .queue _ m | .forward _ m | .hops _ _ _ _ _ m => some m
  | .unprotect _ => none

/-- `nodes` are the messages of the queue nodes that are not acknowledged, `pending` those of the
calls of `log_msg_ack` that are under way, and `callbacks` counts the calls of
`log_source_msg_ack`. -/
structure AckState (P : Type) where
  heap : LogHeap P
  tasks : List PathTask
  nodes : List Nat
  pending : List Nat
  callbacks : Nat

inductive AckLabel where
  | source
  | ackNode (m : Nat)
  | ack (m : Nat)

/-- `log_source_queue`: the message of the heap is sent to `pipe`. -/
def logSourceQueue (h : LogHeap P) (pipe : LogPipeTree) : AckState P where
  heap := (logMsgAddAck h 0 true).modify 0 fun self =>
    { self with ackFunc := some .logSourceMsgAck }
  tasks := [.forward (some pipe) 0]
  nodes := []
  pending := []
  callbacks := 0

section

variable (ops : PayloadOps P) (registry : LogMsgRegistry)

/-- `log_pipe_queue`, and `log_msg_drop` in a pipe that drops. -/
def logPipeQueue (s : AckState P) (tasks : List PathTask) (m : Nat) :
    LogPipeTree → Option (AckState P)
  | .drop => some { s with tasks := tasks, pending := m :: s.pending }
  | .queue => (logMsgInitQueueNode s.heap m).map fun h =>
      { s with heap := h, tasks := tasks, nodes := m :: s.nodes }
  | .forward next => some { s with tasks := .forward next m :: tasks }
  | .rewrite changes next => (logMsgMakeWritable s.heap m true).bind fun (h, c) =>
      (exec (msgStep ops registry) h (changes.map (LogChange.op c))).map fun h =>
        { s with heap := h, tasks := .forward next c :: tasks }
  | .multiplexer hops next => some { s with tasks := .hops hops next false hops false m :: tasks }

def mpxDeliverHop (s : AckState P) (tasks : List PathTask) (hops : List (HopFlags × LogPipeTree))
    (next : Option LogPipeTree) (fallback : Bool) (hop : HopFlags × LogPipeTree)
    (rest : List (HopFlags × LogPipeTree)) (delivered : Bool) (m : Nat) : AckState P :=
  let h := logMsgAddAck s.heap m true
  let lastDelivery := next.isNone && rest.isEmpty &&
    (!hops.any (fun hop => hop.1.fallback) || delivered || fallback)
  let after := if hop.1.matched then
      PathTask.hops hops next fallback (if hop.1.final then [] else rest) true m
    else .hops hops next fallback rest delivered m
  if lastDelivery then { s with heap := h, tasks := .queue hop.2 m :: after :: tasks }
  else { s with
    heap := h.modify m logMsgWriteProtect
    tasks := .queue hop.2 m :: .unprotect m :: after :: tasks }

def sourceStep (s : AckState P) : Option (AckState P) :=
  match s.tasks with
  | [] => none
  | .queue pipe m :: tasks => logPipeQueue ops registry s tasks m pipe
  | .forward (some pipe) m :: tasks => some { s with tasks := .queue pipe m :: tasks }
  | .forward none m :: tasks => some { s with tasks := tasks, pending := m :: s.pending }
  | .unprotect m :: tasks =>
    some { s with heap := s.heap.modify m logMsgWriteUnprotect, tasks := tasks }
  | .hops hops next fallback [] delivered m :: tasks =>
    if !fallback && hops.any (fun hop => hop.1.fallback) && !delivered then
      some { s with tasks := .hops hops next true hops delivered m :: tasks }
    else some { s with tasks := .forward next m :: tasks }
  | .hops hops next fallback (hop :: rest) delivered m :: tasks =>
    if hop.1.fallback ≠ fallback then
      some { s with tasks := .hops hops next fallback rest delivered m :: tasks }
    else some (mpxDeliverHop s tasks hops next fallback hop rest delivered m)

/-- `log_msg_ack`: the last one calls `ack_func`. -/
def logMsgAck (s : AckState P) (m : Nat) : Option (AckState P) :=
  (s.heap.msgs[m]?).bind fun self =>
    let s := { s with
      heap := s.heap.modify m fun self => { self with ack := (self.ack + (2 ^ 16 - 1)) % 2 ^ 16 }
      pending := s.pending.erase m }
    if self.ack = 1 then
      match self.ackFunc with
      | some .logSourceMsgAck => some { s with callbacks := s.callbacks + 1 }
      | some .logMsgCloneAck => self.original.map fun o => { s with pending := o :: s.pending }
      | none => none
    else some s

def ackStep (s : AckState P) : AckLabel → Option (AckState P)
  | .source => sourceStep ops registry s
  | .ackNode m =>
    if m ∈ s.nodes then some { s with nodes := s.nodes.erase m, pending := m :: s.pending }
    else none
  | .ack m => if m ∈ s.pending then logMsgAck s m else none

/-- A clone that has nothing of its own is cloned through its original only if the caller's is the
only ack that it waits for, and no counter wraps. -/
def ackFits (s : AckState P) : AckLabel → Bool
  | .source =>
    match s.tasks with
    | .queue (.rewrite _ _) m :: _ => (s.heap.msgs[m]?).all fun msg =>
        !(logMsgIsWriteProtected msg && hasNoContent msg) || msg.ack = 1
    | .hops _ _ _ (_ :: _) _ m :: _ => (s.heap.msgs[m]?).all fun msg => msg.ack + 1 < 2 ^ 16
    | _ => true
  | _ => true

def AckNext (s : AckState P) (a : AckLabel) (s' : AckState P) : Prop :=
  ackFits s a = true ∧ ackStep ops registry s a = some s'

end

/-- Nobody has anything to do with the message, or with a clone of it, any more. -/
def AckState.settled (s : AckState P) : Prop :=
  (∀ task ∈ s.tasks, task.owes = none) ∧ s.nodes = [] ∧ s.pending = []

/-! ## The counters as a ledger -/

/-- The tokens for a message. -/
def AckState.owed (s : AckState P) (j : Nat) : Nat :=
  (s.tasks.countP fun task => task.owes = some j) + s.nodes.count j + s.pending.count j

def bookOf (msg : LogMessage) : Nat × Option LMAckFunc × Option Nat :=
  (msg.ack, msg.ackFunc, msg.original)

def books (h : LogHeap P) : List (Nat × Option LMAckFunc × Option Nat) := h.msgs.map bookOf

/-- What it must know, with what it is owed and with its parent. -/
def account (owed : Nat) : Option Nat → Nat × Option LMAckFunc × Option Nat
  | none => (owed, some .logSourceMsgAck, none)
  | some o => (owed, some .logMsgCloneAck, some o)

structure AckInv (s : AckState P) (opens : List (Nat × Option Nat)) : Prop where
  sound : Ledger.Sound ⟨s.owed, opens⟩ s.callbacks
  book : ∀ {m : Nat} {p : Option Nat}, (m, p) ∈ opens →
    (books s.heap)[m]? = some (account (Ledger.owed ⟨s.owed, opens⟩ m) p)
  word : ∀ {m : Nat} {p : Option Nat}, (m, p) ∈ opens → Ledger.owed ⟨s.owed, opens⟩ m < 2 ^ 16

section

variable {h h' : LogHeap P} {m c : Nat} {msg : LogMessage} {ops : PayloadOps P}
  {registry : LogMsgRegistry}

/-! ### What the operations do to the books -/

theorem getElem?_books (hm : h.msgs[m]? = some msg) : (books h)[m]? = some (bookOf msg) := by
  rw [books, getElem?_map, hm]
  rfl

theorem length_books : (books h).length = h.msgs.length := length_map ..

theorem books_set (hm : h.msgs[m]? = some msg) {msg' : LogMessage} (hb : bookOf msg' = bookOf msg) :
    (h.msgs.set m msg').map bookOf = books h := by
  rw [map_set, hb]
  exact set_of_getElem? (getElem?_books hm)

theorem books_modify {f : LogMessage → LogMessage} (hf : ∀ msg, bookOf (f msg) = bookOf msg) :
    books (h.modify m f) = books h := by
  cases hm : h.msgs[m]? with
  | none => rw [modify_of_none hm]
  | some msg =>
    rw [modify_eq hm]
    exact books_set hm (hf msg)

theorem books_change {change : LogChange} (hs : msgStep ops registry h (change.op m) = some h') :
    books h' = books h := by
  have hupdated : ∀ {msg msg' : LogMessage}, h.msgs[m]? = some msg → Updated h h' m msg msg' →
      books h' = books h := by
    intro msg msg' hm hu
    rw [books, hu.msgs]
    refine books_set hm ?_
    rw [bookOf, bookOf, hu.original]
    exact congrArg (fun k : Nat × Nat × Option LMAckFunc => (k.2.1, k.2.2, msg.original))
      hu.counters
  cases change with
  | setValue handle value =>
    obtain ⟨msg, msg', hm, -, hu⟩ := updated_setValue hs
    exact hupdated hm hu
  | setValueIndirect handle refHandle type ofs len =>
    obtain ⟨msg, msg', hm, -, hu⟩ := updated_setValueIndirect hs
    exact hupdated hm hu
  | setTag id on =>
    obtain ⟨msg, msg', hm, -, hu⟩ := updated_setTag hs
    exact hupdated hm hu
  | setPri pri =>
    cases hs
    exact books_modify fun _ => rfl
  | setStamps stamp recvd =>
    cases hs
    exact books_modify fun _ => rfl
  | setFlags flags initialParse =>
    cases hs
    exact books_modify fun _ => rfl

theorem books_changes {changes : List LogChange}
    (hs : exec (msgStep ops registry) h (changes.map (LogChange.op m)) = some h') : books h' = books h := by
  induction changes generalizing h with
  | nil =>
    cases hs
    rfl
  | cons change changes ih =>
    obtain ⟨h1, hs1, hs⟩ := bind_eq_some_iff.1 hs
    rw [ih hs, books_change hs1]

theorem books_makeWritable (hs : logMsgMakeWritable h m true = some (h', c)) :
    (books h' = books h ∧ c = m) ∨ ∃ t msg, h.msgs[m]? = some msg ∧ c = h.msgs.length ∧
      books h' = books h ++ [account 1 (some t)] ∧
      (t = m ∨ logMsgIsWriteProtected msg = true ∧ hasNoContent msg = true ∧ msg.original = some t) := by
  unfold logMsgMakeWritable at hs
  obtain ⟨msg, hm, hs⟩ := bind_eq_some_iff.1 hs
  split at hs
  · rename_i hprot
    obtain ⟨t, orig, ht, hmt, rfl, rfl⟩ := cloneCow_eq hs
    refine .inr ⟨t, msg, hm, rfl, ?_, ?_⟩
    · have hclone : bookOf (cloneOf t orig true) = account 1 (some t) := by
        unfold cloneOf
        simp only
        split
        · rfl
        · rfl
      show (h.msgs.set t (logMsgWriteProtect orig) ++ [cloneOf t orig true]).map bookOf = _
      have hset := books_set hmt (show bookOf (logMsgWriteProtect orig) = _ from rfl)
      rw [map_append, hset, map_singleton, hclone]
    · unfold cloneTarget at ht
      rw [hm, bind_some] at ht
      split at ht
      · rename_i hno
        exact .inr ⟨hprot, hno, ht⟩
      · cases ht
        exact .inl rfl
  · cases hs
    exact .inl ⟨rfl, rfl⟩

/-! ### Steps -/

variable {s s' : AckState P} {opens : List (Nat × Option Nat)}

theorem AckInv.move (hi : AckInv s opens) (howed : s'.owed = s.owed)
    (hbooks : books s'.heap = books s.heap) (hcb : s'.callbacks = s.callbacks) :
    AckInv s' opens where
  sound := by
    rw [howed, hcb]
    exact hi.sound
  book := by
    intro m p hm
    rw [hbooks, howed]
    exact hi.book hm
  word := by
    intro m p hm
    rw [howed]
    exact hi.word hm

theorem AckInv.open_of_owed (hi : AckInv s opens) (hpos : 0 < s.owed m) :
    ∃ p msg, (m, p) ∈ opens ∧ s.heap.msgs[m]? = some msg ∧
      bookOf msg = account (Ledger.owed ⟨s.owed, opens⟩ m) p := by
  obtain ⟨p, hp⟩ := hi.sound.isOpen (m := m) (Nat.add_pos_left hpos _)
  have hbook := hi.book hp
  rw [books, getElem?_map] at hbook
  obtain ⟨msg, hm, heq⟩ := map_eq_some_iff.1 hbook
  exact ⟨p, msg, hp, hm, heq⟩

theorem account_ack {owed : Nat} {p : Option Nat} (hb : bookOf msg = account owed p) :
    msg.ack = owed ∧ msg.original = p := by
  cases p with
  | none => exact ⟨congrArg Prod.fst hb, congrArg (fun b => b.2.2) hb⟩
  | some o => exact ⟨congrArg Prod.fst hb, congrArg (fun b => b.2.2) hb⟩

theorem owed_task {task : PathTask} (ho : task.owes = some m) (tasks : List PathTask) :
    Ledger.Gain { s with tasks := tasks }.owed { s with tasks := task :: tasks }.owed m := by
  intro j
  simp only [AckState.owed, countP_cons, ho, some_inj, decide_eq_true_eq, eq_comm (a := m)]
  omega

theorem owed_pending : Ledger.Gain s.owed { s with pending := m :: s.pending }.owed m := by
  intro j
  simp only [AckState.owed, count_cons_eq]
  omega

theorem owed_nodes : Ledger.Gain s.owed { s with nodes := m :: s.nodes }.owed m := by
  intro j
  simp only [AckState.owed, count_cons_eq]
  omega

theorem AckInv.update {opens' : List (Nat × Option Nat)} (hi : AckInv s opens)
    (hsound : Ledger.Sound ⟨s'.owed, opens'⟩ s'.callbacks) (hsub : opens' ⊆ opens)
    (hbooks : ∀ j, j ≠ m → (books s'.heap)[j]? = (books s.heap)[j]?)
    (howed : ∀ j, j ≠ m → Ledger.owed ⟨s'.owed, opens'⟩ j = Ledger.owed ⟨s.owed, opens⟩ j)
    (hself : ∀ p, (m, p) ∈ opens' →
      (books s'.heap)[m]? = some (account (Ledger.owed ⟨s'.owed, opens'⟩ m) p) ∧
        Ledger.owed ⟨s'.owed, opens'⟩ m < 2 ^ 16) : AckInv s' opens' where
  sound := hsound
  book := by
    intro j p hj
    by_cases hjm : j = m
    · subst hjm
      exact (hself p hj).1
    · rw [hbooks j hjm, howed j hjm]
      exact hi.book (hsub hj)
  word := by
    intro j p hj
    by_cases hjm : j = m
    · subst hjm
      exact (hself p hj).2
    · rw [howed j hjm]
      exact hi.word (hsub hj)

theorem account_set {owed owed' : Nat} {p : Option Nat} (hb : bookOf msg = account owed p) :
    bookOf { msg with ack := owed' } = account owed' p := by
  cases p with
  | none =>
    have hrest := congrArg Prod.snd hb
    exact Prod.ext rfl hrest
  | some o =>
    have hrest := congrArg Prod.snd hb
    exact Prod.ext rfl hrest

theorem getElem?_books_modify {f : LogMessage → LogMessage} (hm : h.msgs[m]? = some msg) (j : Nat) :
    (books (h.modify m f))[j]? = if j = m then some (bookOf (f msg)) else (books h)[j]? := by
  have hlt := (List.getElem?_eq_some_iff.1 hm).1
  rw [modify_eq hm, books, books, map_set]
  by_cases hjm : j = m
  · subst hjm
    rw [if_pos rfl, getElem?_set_self (by rwa [length_map])]
  · rw [if_neg hjm, getElem?_set_ne (Ne.symm hjm)]

theorem AckInv.deliver (hi : AckInv s opens) (hpos : 0 < s.owed m)
    (hfit : (s.heap.msgs[m]?).all (fun msg => msg.ack + 1 < 2 ^ 16) = true)
    (howed : Ledger.Gain s.owed s'.owed m) (hbooks : books s'.heap = books (logMsgAddAck s.heap m true))
    (hcb : s'.callbacks = s.callbacks) : AckInv s' opens := by
  obtain ⟨p, msg, hp, hm, hbook⟩ := hi.open_of_owed hpos
  have hack := (account_ack hbook).1
  rw [hm, all_some, decide_eq_true_eq] at hfit
  have hadd := @getElem?_books_modify P s.heap m msg
    (fun self => { self with ack := (self.ack + 1) % 2 ^ 16 }) hm
  have howed' : ∀ j, Ledger.owed ⟨s'.owed, opens⟩ j =
      Ledger.owed ⟨s.owed, opens⟩ j + if j = m then 1 else 0 := by
    intro j
    have := howed j
    simp only [Ledger.owed]
    omega
  refine hi.update (m := m) (hcb ▸ hi.sound.share hpos howed) (List.Subset.refl _) ?_ ?_ ?_
  · intro j hj
    rw [hbooks]
    exact (hadd j).trans (if_neg hj)
  · intro j hj
    rw [howed', if_neg hj, Nat.add_zero]
  · intro q hq
    obtain rfl := hi.sound.unique hp hq
    rw [howed', if_pos rfl, ← hack, hbooks]
    refine ⟨((hadd m).trans (if_pos rfl)).trans (congrArg some ?_), hfit⟩
    rw [Nat.mod_eq_of_lt hfit]
    exact account_set hbook

theorem AckInv.branch (hi : AckInv s opens) {mid : Nat → Nat} (hspend : Ledger.Gain mid s.owed m)
    (hgain : Ledger.Gain mid s'.owed s.heap.msgs.length)
    (hbooks : books s'.heap = books s.heap ++ [account 1 (some m)]) (hcb : s'.callbacks = s.callbacks) :
    AckInv s' ((s.heap.msgs.length, some m) :: opens) := by
  have hlt : ∀ {j : Nat} {p : Option Nat}, (j, p) ∈ opens → j < s.heap.msgs.length := by
    intro j p hj
    obtain ⟨hlt, -⟩ := List.getElem?_eq_some_iff.1 (hi.book hj)
    rwa [length_books] at hlt
  have hpos : 0 < s.owed m := by
    rw [hspend m, if_pos rfl]
    omega
  obtain ⟨p, msg, hp, -, -⟩ := hi.open_of_owed hpos
  have hfresh : ∀ p, (s.heap.msgs.length, p) ∉ opens := fun p hp => lt_irrefl _ (hlt hp)
  have hsound := hi.sound.branch hspend hgain (hlt hp) hfresh
  have hzero : Ledger.owed ⟨s.owed, opens⟩ s.heap.msgs.length = 0 := by
    by_contra hne
    obtain ⟨p, hp⟩ := hi.sound.isOpen (Nat.pos_of_ne_zero hne)
    exact hfresh p hp
  have howed : ∀ j, Ledger.owed ⟨s'.owed, (s.heap.msgs.length, some m) :: opens⟩ j =
      Ledger.owed ⟨s.owed, opens⟩ j + if j = s.heap.msgs.length then 1 else 0 :=
    fun j => Ledger.owed_branch hspend hgain j
  have hbook : ∀ {j : Nat} {p : Option Nat}, (j, p) ∈ (s.heap.msgs.length, some m) :: opens →
      (books s'.heap)[j]? = some (account (Ledger.owed
        ⟨s'.owed, (s.heap.msgs.length, some m) :: opens⟩ j) p) ∧
      Ledger.owed ⟨s'.owed, (s.heap.msgs.length, some m) :: opens⟩ j < 2 ^ 16 := by
    intro j p hj
    rw [howed, hbooks]
    rcases mem_cons.1 hj with heq | hj
    · cases heq
      rw [hzero, if_pos rfl, getElem?_append_right (by rw [length_books]), length_books,
        Nat.sub_self]
      exact ⟨rfl, by decide⟩
    · rw [if_neg (Nat.ne_of_lt (hlt hj)), Nat.add_zero,
        getElem?_append_left (by rw [length_books]; exact hlt hj)]
      exact ⟨hi.book hj, hi.word hj⟩
  exact ⟨hcb ▸ hsound, fun hj => (hbook hj).1, fun hj => (hbook hj).2⟩

theorem AckInv.close {p : Option Nat} (hi : AckInv s opens) (hp : (m, p) ∈ opens)
    (hone : Ledger.owed ⟨s.owed, opens⟩ m = 1) {mid : Nat → Nat} (hspend : Ledger.Gain mid s.owed m)
    (hrel : Ledger.Release mid s'.owed s.callbacks s'.callbacks p)
    (hbooks : ∀ j, j ≠ m → (books s'.heap)[j]? = (books s.heap)[j]?) : AckInv s' (opens.erase (m, p)) := by
  refine hi.update (hi.sound.close hp hone hspend hrel) erase_subset hbooks ?_ ?_
  · intro j hj
    have := Ledger.owed_close hp hspend hrel j
    rwa [if_neg hj, Nat.add_zero] at this
  · intro q hq
    exact absurd rfl (hi.sound.not_mem_erase hp hq)

theorem owed_pending_erase (hm : m ∈ s.pending) :
    Ledger.Gain { s with pending := s.pending.erase m }.owed s.owed m := by
  intro j
  have hcount := (perm_cons_erase hm).count_eq j
  rw [count_cons_eq] at hcount
  simp only [AckState.owed]
  omega

theorem AckInv.ack (hi : AckInv s opens) (hm : m ∈ s.pending) (hs : logMsgAck s m = some s') :
    ∃ opens', AckInv s' opens' := by
  have hspend := owed_pending_erase hm
  have hpos : 0 < s.owed m := by
    rw [hspend m, if_pos rfl]
    omega
  obtain ⟨p, msg, hp, hmsg, hbook⟩ := hi.open_of_owed hpos
  obtain ⟨hack, horig⟩ := account_ack hbook
  have hword := hi.word hp
  have hopen := hi.sound.owed_pos hp
  have hmod := @getElem?_books_modify P s.heap m msg
    (fun self => { self with ack := (self.ack + (2 ^ 16 - 1)) % 2 ^ 16 }) hmsg
  unfold logMsgAck at hs
  rw [hmsg, bind_some] at hs
  simp only at hs
  split at hs
  · rename_i hone
    rw [hone] at hack
    cases p with
    | none =>
      have hfunc : msg.ackFunc = some .logSourceMsgAck := congrArg (fun b => b.2.1) hbook
      rw [hfunc] at hs
      cases hs
      exact ⟨_, hi.close hp hack.symm hspend ⟨rfl, rfl⟩ fun j hj => (hmod j).trans (if_neg hj)⟩
    | some o =>
      have hfunc : msg.ackFunc = some .logMsgCloneAck := congrArg (fun b => b.2.1) hbook
      rw [hfunc, horig] at hs
      cases hs
      exact ⟨_, hi.close hp hack.symm hspend ⟨owed_pending, rfl⟩ fun j hj =>
        (hmod j).trans (if_neg hj)⟩
  · rename_i hmore
    cases hs
    have howed : ∀ j, Ledger.owed ⟨{ s with pending := s.pending.erase m }.owed, opens⟩ j +
        (if j = m then 1 else 0) = Ledger.owed ⟨s.owed, opens⟩ j := by
      intro j
      have := hspend j
      simp only [Ledger.owed]
      omega
    refine ⟨opens, hi.update (m := m) (hi.sound.spend hspend (by omega)) (List.Subset.refl _)
      (fun j hj => (hmod j).trans (if_neg hj)) ?_ ?_⟩
    · intro j hj
      have := howed j
      rwa [if_neg hj, Nat.add_zero] at this
    · intro q hq
      obtain rfl := hi.sound.unique hp hq
      have hsum := howed m
      rw [if_pos rfl] at hsum
      have hless : (msg.ack + (2 ^ 16 - 1)) % 2 ^ 16 =
          Ledger.owed ⟨{ s with pending := s.pending.erase m }.owed, opens⟩ m := by
        omega
      refine ⟨((hmod m).trans (if_pos rfl)).trans (congrArg some ?_), ?_⟩
      · rw [hless]
        exact account_set hbook
      · show Ledger.owed ⟨{ s with pending := s.pending.erase m }.owed, opens⟩ m < 2 ^ 16
        omega

variable {tasks : List PathTask}

theorem AckInv.rewrite {task : PathTask} {changes : List LogChange} {next : Option LogPipeTree}
    (hi : AckInv s opens) (htasks : s.tasks = task :: tasks) (howes : task.owes = some m)
    (hfit : (s.heap.msgs[m]?).all (fun msg =>
      !(logMsgIsWriteProtected msg && hasNoContent msg) || msg.ack = 1) = true)
    (hw : logMsgMakeWritable s.heap m true = some (h, c))
    (hc : exec (msgStep ops registry) h (changes.map (LogChange.op c)) = some h') :
    ∃ opens', AckInv { s with heap := h', tasks := .forward next c :: tasks } opens' := by
  have hspend : Ledger.Gain { s with tasks := tasks }.owed s.owed m := by
    have := @owed_task P m s task howes tasks
    rwa [← htasks] at this
  have hgain : Ledger.Gain { s with tasks := tasks }.owed
      { s with heap := h', tasks := PathTask.forward next c :: tasks }.owed c :=
    @owed_task P c { s with heap := h' } (.forward next c) rfl tasks
  have hpos : 0 < s.owed m := by
    rw [hspend m, if_pos rfl]
    omega
  have hbooks := books_changes hc
  rcases books_makeWritable hw with ⟨hsame, rfl⟩ | ⟨t, msg, hm, rfl, hclone, hcase⟩
  · exact ⟨opens, hi.move (hgain.ext hspend) (hbooks.trans hsame) rfl⟩
  · rcases hcase with rfl | ⟨hprot, hno, horig⟩
    · exact ⟨_, hi.branch hspend hgain (hbooks.trans hclone) rfl⟩
    · -- the clone takes the place of the message at the original
      rw [hm, all_some, hprot, hno] at hfit
      have hone : msg.ack = 1 := by simpa using hfit
      obtain ⟨p, msg', hp, hm', hbook⟩ := hi.open_of_owed hpos
      rw [hm, some_inj] at hm'
      subst hm'
      obtain ⟨hack, hparent⟩ := account_ack hbook
      rw [hparent] at horig
      subst horig
      have hgain1 := @owed_task P t s (.forward none t) rfl tasks
      have hi1 : AckInv { s with tasks := .forward none t :: tasks } (opens.erase (m, some t)) :=
        hi.close hp (hack.symm.trans hone) hspend ⟨hgain1, rfl⟩ fun j _ => rfl
      exact ⟨_, hi1.branch hgain1 hgain (hbooks.trans hclone) rfl⟩

theorem AckInv.move_head {task : PathTask} (hi : AckInv s opens) (htasks : s.tasks = task :: tasks)
    (howes : task.owes = some m) (hgain : Ledger.Gain { s with tasks := tasks }.owed s'.owed m)
    (hbooks : books s'.heap = books s.heap) (hcb : s'.callbacks = s.callbacks) : AckInv s' opens := by
  have hspend := @owed_task P m s task howes tasks
  rw [← htasks] at hspend
  exact hi.move (hgain.ext hspend) hbooks hcb

theorem AckInv.pipeQueue {pipe : LogPipeTree} (hi : AckInv s opens)
    (htasks : s.tasks = .queue pipe m :: tasks) (hfit : ackFits s .source = true)
    (hs : logPipeQueue ops registry s tasks m pipe = some s') : ∃ opens', AckInv s' opens' := by
  cases pipe with
  | drop =>
    cases hs
    exact ⟨opens, hi.move_head htasks rfl owed_pending rfl rfl⟩
  | queue =>
    obtain ⟨h1, hn, rfl⟩ := map_eq_some_iff.1 hs
    obtain ⟨msg, hm, rfl⟩ := map_eq_some_iff.1 hn
    exact ⟨opens, hi.move_head htasks rfl owed_nodes (books_modify fun _ => rfl) rfl⟩
  | forward next =>
    cases hs
    exact ⟨opens, hi.move_head htasks rfl (owed_task rfl tasks) rfl rfl⟩
  | rewrite changes next =>
    obtain ⟨⟨h1, c⟩, hw, hs⟩ := bind_eq_some_iff.1 hs
    obtain ⟨h2, hc, rfl⟩ := map_eq_some_iff.1 hs
    unfold ackFits at hfit
    rw [htasks] at hfit
    exact hi.rewrite htasks rfl hfit hw hc
  | multiplexer hops next =>
    cases hs
    exact ⟨opens, hi.move_head htasks rfl (owed_task rfl tasks) rfl rfl⟩

theorem AckInv.deliverHop {hops rest : List (HopFlags × LogPipeTree)} {next : Option LogPipeTree}
    {fallback delivered : Bool} {hop : HopFlags × LogPipeTree} (hi : AckInv s opens)
    (htasks : s.tasks = .hops hops next fallback (hop :: rest) delivered m :: tasks)
    (hfit : ackFits s .source = true) :
    AckInv (mpxDeliverHop s tasks hops next fallback hop rest delivered m) opens := by
  unfold ackFits at hfit
  rw [htasks] at hfit
  have hspend := @owed_task P m s (.hops hops next fallback (hop :: rest) delivered m) rfl tasks
  rw [← htasks] at hspend
  have hpos : 0 < s.owed m := by
    rw [hspend m, if_pos rfl]
    omega
  -- the loop goes on with its token, and the hop gets a new one
  have hgain : ∀ (after : PathTask) (guard : List PathTask), after.owes = some m →
      (∀ task ∈ guard, task.owes = none) → Ledger.Gain s.owed
        { s with tasks := .queue hop.2 m :: (guard ++ after :: tasks) }.owed m := by
    intro after guard hafter hguard j
    have h1 := hspend j
    have h2 := @owed_task P m s after hafter tasks j
    have h3 := @owed_task P m s (.queue hop.2 m) rfl (guard ++ after :: tasks) j
    have h4 : (guard.countP fun task => task.owes = some j) = 0 := by
      rw [countP_eq_zero]
      intro task htask
      rw [hguard task htask]
      simp
    simp only [AckState.owed, countP_append] at h1 h2 h3 ⊢
    omega
  unfold mpxDeliverHop
  simp only
  have hafter : (if hop.1.matched = true then
      PathTask.hops hops next fallback (if hop.1.final = true then [] else rest) true m
      else .hops hops next fallback rest delivered m).owes = some m := by
    split
    · rfl
    · rfl
  split
  · refine hi.deliver hpos hfit ?_ rfl rfl
    exact hgain _ [] hafter (by simp)
  · refine hi.deliver hpos hfit ?_ (books_modify fun _ => rfl) rfl
    exact hgain _ [.unprotect m] hafter (by simp [PathTask.owes])

theorem AckInv.source (hi : AckInv s opens) (hfit : ackFits s .source = true)
    (hs : sourceStep ops registry s = some s') : ∃ opens', AckInv s' opens' := by
  unfold sourceStep at hs
  split at hs
  · cases hs
  · rename_i pipe m tasks htasks
    exact hi.pipeQueue htasks hfit hs
  · rename_i pipe m tasks htasks
    cases hs
    exact ⟨opens, hi.move_head htasks rfl (owed_task rfl tasks) rfl rfl⟩
  · rename_i m tasks htasks
    cases hs
    exact ⟨opens, hi.move_head htasks rfl owed_pending rfl rfl⟩
  · rename_i m tasks htasks
    cases hs
    refine ⟨opens, hi.move ?_ (books_modify fun _ => rfl) rfl⟩
    funext j
    simp only [AckState.owed, htasks, countP_cons]
    simp [PathTask.owes]
  · rename_i hops next fallback delivered m tasks htasks
    split at hs
    · cases hs
      exact ⟨opens, hi.move_head htasks rfl (owed_task rfl tasks) rfl rfl⟩
    · cases hs
      exact ⟨opens, hi.move_head htasks rfl (owed_task rfl tasks) rfl rfl⟩
  · rename_i hops next fallback hop rest delivered m tasks htasks
    split at hs
    · cases hs
      exact ⟨opens, hi.move_head htasks rfl (owed_task rfl tasks) rfl rfl⟩
    · cases hs
      exact ⟨opens, hi.deliverHop htasks hfit⟩

/-- **A step keeps the ledger**, if it fits. -/
theorem AckInv.step {a : AckLabel} (hi : ∃ opens, AckInv s opens) (hs : AckNext ops registry s a s') :
    ∃ opens, AckInv s' opens := by
  obtain ⟨opens, hi⟩ := hi
  obtain ⟨hfit, hs⟩ := hs
  cases a with
  | source => exact hi.source hfit hs
  | ackNode m =>
    simp only [ackStep] at hs
    split at hs
    · rename_i hm
      cases hs
      refine ⟨opens, hi.move ?_ rfl rfl⟩
      funext j
      have hcount := (perm_cons_erase hm).count_eq j
      rw [count_cons_eq] at hcount
      simp only [AckState.owed, count_cons_eq]
      omega
    · cases hs
  | ack m =>
    simp only [ackStep] at hs
    split at hs
    · rename_i hm
      exact hi.ack hm hs
    · cases hs

theorem AckInv.start {payload : P} {recvd : LogStamp} {changes : List LogChange} {h : LogHeap P}
    (hp : exec (msgStep ops registry) (logMsgNew payload recvd) (changes.map (LogChange.op 0)) = some h)
    (pipe : LogPipeTree) : AckInv (logSourceQueue h pipe) [(0, none)] := by
  have hbooks : books h = [(0, none, none)] := books_changes hp
  have howed : ∀ j, (logSourceQueue h pipe).owed j = if j = 0 then 1 else 0 := by
    intro j
    simp only [AckState.owed, logSourceQueue, countP_singleton, PathTask.owes,
      count_nil, Nat.add_zero, some_inj, decide_eq_true_eq, eq_comm (a := 0)]
  have hledger : ∀ j, Ledger.owed ⟨(logSourceQueue h pipe).owed, [(0, none)]⟩ j =
      if j = 0 then 1 else 0 := by
    intro j
    simp [Ledger.owed, howed]
  have hmsg : ∃ msg, h.msgs[0]? = some msg ∧ bookOf msg = (0, none, none) := by
    have hfirst : (books h)[0]? = some (0, none, none) := by rw [hbooks]; rfl
    rw [books, getElem?_map] at hfirst
    exact map_eq_some_iff.1 hfirst
  obtain ⟨msg, hm, hbook⟩ := hmsg
  have hstart : books (logSourceQueue h pipe).heap = [account 1 none] := by
    have hset : (logSourceQueue h pipe).heap.msgs = h.msgs.set 0 { msg with
        ack := (msg.ack + 1) % 2 ^ 16, ackFunc := some .logSourceMsgAck } := by
      show ((h.modify 0 _).modify 0 _).msgs = _
      rw [modify_eq hm, modify_eq_set (h := { h with msgs := h.msgs.set 0 _ })
        (getElem?_set_self (List.getElem?_eq_some_iff.1 hm).1), set_set]
    have hack : msg.ack = 0 := congrArg Prod.fst hbook
    have horig : msg.original = none := congrArg (fun b => b.2.2) hbook
    rw [books, hset, map_set]
    show (books h).set 0 _ = _
    rw [hbooks, bookOf, hack, horig]
    rfl
  constructor
  · constructor
    · simp
    · simp
    · intro m p hm
      cases mem_singleton.1 hm
      rw [hledger, if_pos rfl]
      omega
    · intro m hm
      rw [hledger] at hm
      by_cases hz : m = 0
      · exact ⟨none, by rw [hz]; exact mem_singleton_self _⟩
      · rw [if_neg hz] at hm
        omega
    · rfl
  · intro m p hm
    cases mem_singleton.1 hm
    rw [hstart, hledger]
    rfl
  · intro m p hm
    cases mem_singleton.1 hm
    rw [hledger]
    decide

/-! ### Runs -/

theorem AckInv.settled_iff (hi : AckInv s opens) : s.callbacks = 1 ↔ s.settled := by
  rw [hi.sound.done_iff]
  constructor
  · intro hzero
    have hall : ∀ j, (∀ task ∈ s.tasks, task.owes ≠ some j) ∧ j ∉ s.nodes ∧ j ∉ s.pending := by
      intro j
      have := hzero j
      simp only [AckState.owed] at this
      refine ⟨?_, count_eq_zero.1 (by omega), count_eq_zero.1 (by omega)⟩
      have htasks : (s.tasks.countP fun task => task.owes = some j) = 0 := by omega
      rw [countP_eq_zero] at htasks
      exact fun task ht ho => htasks task ht (decide_eq_true ho)
    refine ⟨?_, eq_nil_iff_forall_not_mem.2 fun j => (hall j).2.1,
      eq_nil_iff_forall_not_mem.2 fun j => (hall j).2.2⟩
    intro task ht
    cases ho : task.owes with
    | none => rfl
    | some j => exact absurd ho ((hall j).1 task ht)
  · rintro ⟨htasks, hnodes, hpending⟩ j
    show AckState.owed s j = 0
    rw [AckState.owed, hnodes, hpending, countP_eq_zero.2]
    · rfl
    · intro task ht
      rw [htasks task ht]
      simp

theorem AckInv.run {labels : List AckLabel} (hi : ∃ opens, AckInv s opens)
    (hrun : Run (AckNext ops registry) s labels s') : ∃ opens, AckInv s' opens := by
  induction hrun with
  | refl => exact hi
  | step hs _ ih => exact ih (AckInv.step hi hs)

/-- What the destinations still have to do. -/
def AckState.left (s : AckState P) : Nat :=
  (s.nodes.map (· + 2)).sum + (s.pending.map (· + 1)).sum

theorem sum_erase_add {l : List Nat} {k : Nat} (hm : m ∈ l) :
    ((l.erase m).map (· + k)).sum + (m + k) = (l.map (· + k)).sum := by
  have hperm := ((perm_cons_erase hm).map (· + k)).sum_eq
  rw [map_cons, sum_cons] at hperm
  omega

theorem AckInv.ack_enabled (hi : AckInv s opens) (hm : m ∈ s.pending) :
    ∃ s', logMsgAck s m = some s' ∧ s'.tasks = s.tasks ∧ s'.left < s.left := by
  have hpos : 0 < s.owed m := by
    have := count_pos_iff.2 hm
    rw [AckState.owed]
    omega
  obtain ⟨p, msg, hp, hmsg, hbook⟩ := hi.open_of_owed hpos
  have hsum := @sum_erase_add m s.pending 1 hm
  unfold logMsgAck
  rw [hmsg, bind_some]
  simp only
  split
  · cases p with
    | none =>
      rw [show msg.ackFunc = some .logSourceMsgAck from congrArg (fun b => b.2.1) hbook]
      refine ⟨_, rfl, rfl, ?_⟩
      simp only [AckState.left]
      omega
    | some o =>
      have hlt := hi.sound.older hp
      rw [show msg.ackFunc = some .logMsgCloneAck from congrArg (fun b => b.2.1) hbook,
        (account_ack hbook).2]
      refine ⟨_, rfl, rfl, ?_⟩
      simp only [AckState.left, map_cons, sum_cons]
      omega
  · refine ⟨_, rfl, rfl, ?_⟩
    simp only [AckState.left]
    omega

theorem AckInv.drain (hi : ∃ opens, AckInv s opens) (htasks : s.tasks = []) :
    ∃ labels s', Run (AckNext ops registry) s labels s' ∧ s'.settled := by
  induction hn : s.left using Nat.strongRecOn generalizing s with
  | ind n ih =>
    subst hn
    cases hp : s.pending with
    | cons m rest =>
      have hm : m ∈ s.pending := by rw [hp]; exact mem_cons_self
      obtain ⟨s1, hs1, ht1, hlt⟩ := hi.elim fun _ hi => hi.ack_enabled hm
      have hstep : AckNext ops registry s (.ack m) s1 := ⟨rfl, (if_pos hm).trans hs1⟩
      obtain ⟨labels, s', hrun, hset⟩ := ih _ hlt (AckInv.step hi hstep) (ht1.trans htasks) rfl
      exact ⟨_, s', .step hstep hrun, hset⟩
    | nil =>
      cases hn : s.nodes with
      | nil => exact ⟨[], s, .refl s, by simp [htasks], hn, hp⟩
      | cons m rest =>
        have hm : m ∈ s.nodes := by rw [hn]; exact mem_cons_self
        have hstep : AckNext ops registry s (.ackNode m)
            { s with nodes := s.nodes.erase m, pending := m :: s.pending } := ⟨rfl, if_pos hm⟩
        have hsum := @sum_erase_add m s.nodes 2 hm
        have hlt : AckState.left { s with nodes := s.nodes.erase m, pending := m :: s.pending } <
            s.left := by
          simp only [AckState.left, map_cons, sum_cons]
          omega
        obtain ⟨labels, s', hrun, hset⟩ := ih _ hlt (AckInv.step hi hstep) htasks rfl
        exact ⟨_, s', .step hstep hrun, hset⟩

end

/-- **The source is acknowledged once, when every branch is done.** In every run in which no counter
wraps, and in which a clone of a clone that has nothing of its own is made only by the last one who
has to acknowledge it. -/
theorem log_source_acked_once {ops : PayloadOps P} {registry : LogMsgRegistry} {payload : P}
    {recvd : LogStamp} {changes : List LogChange} {h : LogHeap P} {pipe : LogPipeTree}
    {labels : List AckLabel} {s : AckState P}
    (hp : exec (msgStep ops registry) (logMsgNew payload recvd) (changes.map (LogChange.op 0)) = some h)
    (hrun : Run (AckNext ops registry) (logSourceQueue h pipe) labels s) :
    s.callbacks ≤ 1 ∧ (s.callbacks = 1 ↔ s.settled) ∧
      (s.tasks = [] → ∃ labels' s', Run (AckNext ops registry) s labels' s' ∧ s'.callbacks = 1) := by
  obtain ⟨opens, hi⟩ := AckInv.run ⟨_, AckInv.start hp pipe⟩ hrun
  refine ⟨hi.sound.le_one, hi.settled_iff, fun htasks => ?_⟩
  obtain ⟨labels', s', hrun', hset⟩ := AckInv.drain ⟨opens, hi⟩ htasks
  obtain ⟨opens', hi'⟩ := AckInv.run ⟨opens, hi⟩ hrun'
  exact ⟨labels', s', hrun', hi'.settled_iff.2 hset⟩

def plainHop : HopFlags := ⟨false, false, true⟩

/-- A branch that sets a tag in a copy and queues it, and one that drops the message. -/
def taggingTree : LogPipeTree :=
  .multiplexer [(plainHop, .rewrite [.setTag 5 true] (some .queue)), (plainHop, .drop)] none

def ackNext (ops : PayloadOps P) (registry : LogMsgRegistry) (s : AckState P) (a : AckLabel) :
    Option (AckState P) :=
  if ackFits s a then ackStep ops registry s a else none

theorem ackNext_eq {ops : PayloadOps P} {registry : LogMsgRegistry} (s : AckState P) (a : AckLabel)
    (s' : AckState P) (hs : ackNext ops registry s a = some s') : AckNext ops registry s a s' := by
  unfold ackNext at hs
  split at hs
  · rename_i hfit
    exact ⟨hfit, hs⟩
  · cases hs

theorem log_source_acked_once_tagging : ∃ s,
    Run (AckNext nvTableOps plainRegistry)
      (logSourceQueue (logMsgNew (NameValue.nvTableNew 9 16 256) ⟨0, 0, 0⟩) taggingTree)
      (replicate 11 .source ++ [.ack 0, .ackNode 1, .ack 1, .ack 0, .ack 0]) s ∧
    s.callbacks ≤ 1 ∧ (s.callbacks = 1 ↔ s.settled) ∧ s.callbacks = 1 := by
  have hsome := show (exec (ackNext nvTableOps plainRegistry)
      (logSourceQueue (logMsgNew (NameValue.nvTableNew 9 16 256) ⟨0, 0, 0⟩) taggingTree)
      (replicate 11 .source ++ [.ack 0, .ackNode 1, .ack 1, .ack 0, .ack 0])).map
        AckState.callbacks = some 1 by decide +kernel
  obtain ⟨s, hs, hone⟩ := map_eq_some_iff.1 hsome
  have hrun := Run.of_exec ackNext_eq hs
  have hparsed : exec (msgStep nvTableOps plainRegistry)
      (logMsgNew (NameValue.nvTableNew 9 16 256) ⟨0, 0, 0⟩)
      (([] : List LogChange).map (LogChange.op 0)) =
        some (logMsgNew (NameValue.nvTableNew 9 16 256) ⟨0, 0, 0⟩) := rfl
  have hacked := log_source_acked_once hparsed hrun
  exact ⟨s, hrun, hacked.1, hacked.2.1, hone⟩

/-- A copy with a tag goes to two branches, and one of them makes a copy of it. -/
def nestedTree : LogPipeTree :=
  .multiplexer [(plainHop, .rewrite [.setTag 5 true] (some (.multiplexer
    [(plainHop, .rewrite [] (some .queue)), (plainHop, .queue)] none))), (plainHop, .drop)] none

/-- The second copy acknowledges the message in place of the first one, which is still in a queue. -/
theorem log_source_acked_early : ∃ s,
    exec (ackStep nvTableOps plainRegistry)
      (logSourceQueue (logMsgNew (NameValue.nvTableNew 9 16 256) ⟨0, 0, 0⟩) nestedTree)
      (replicate 20 .source ++ [.ack 0, .ack 0, .ack 1, .ackNode 2, .ack 2, .ack 0]) = some s ∧
    s.callbacks = 1 ∧ 1 ∈ s.nodes := by
  have hsome := show (exec (ackStep nvTableOps plainRegistry)
      (logSourceQueue (logMsgNew (NameValue.nvTableNew 9 16 256) ⟨0, 0, 0⟩) nestedTree)
      (replicate 20 .source ++ [.ack 0, .ack 0, .ack 1, .ackNode 2, .ack 2, .ack 0])).map
        (fun s => (s.callbacks, s.nodes)) = some (1, [1]) by decide +kernel
  obtain ⟨s, hs, heq⟩ := map_eq_some_iff.1 hsome
  have hnodes : s.nodes = [1] := congrArg Prod.snd heq
  exact ⟨s, hs, congrArg Prod.fst heq, by rw [hnodes]; decide⟩

end SyslogNg.LogPipe
