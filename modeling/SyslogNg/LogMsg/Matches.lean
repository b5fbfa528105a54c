import SyslogNg.LogMsg.Updates

/-!
# Match variables, and what filters read of a message (`lib/logmsg.c`)

The elements of a log path work on the heap of messages as a state, and abort in a failed assertion:
`MsgM`. An operation that writes begins with the assertion that its message is not write protected; here
the assertions are told from the other failures. `Confined m`: a computation that only writes to
`m`, and fails in no assertion while `m` is not write protected.
-/

namespace SyslogNg.LogMsg

open Lib

inductive MsgFault where
  /-- An assertion of `log_msg_set_value`, `log_msg_set_value_indirect` or
  `log_msg_set_tag_by_id_onoff`. -/
  | assertion
  /-- An access outside of an object. -/
  | invalid
  /-- The given number of rounds of a loop is not enough. -/
  | rounds
  /-- The given depth of nested calls is not enough. -/
  | stack
  deriving DecidableEq

abbrev MsgM (P : Type) := StateT (LogHeap P) (Except MsgFault)

inductive GSockAddr where
  | inet (address : BitVec 32)
  | unix
  | other

/-- The registry of names and the parts of a message that are not in the heap. -/
structure MsgEnv (P : Type) where
  ops : PayloadOps P
  registry : LogMsgRegistry
  /-- `match_handles`, which are registered after the built-in names. -/
  matchHandle : Nat → Nat
  matchHandle_ge : ∀ index, lmVMax ≤ matchHandle index
  /-- `log_msg_get_value_handle`. -/
  valueHandle : List UInt8 → Nat
  /-- `LM_VF_MACRO`. -/
  isHandleMacro : Nat → Bool
  nvTableGetValue : P → Nat → List UInt8
  getMacroValue : LogHeap P → Nat → Nat → List UInt8
  saddr : LogHeap P → Nat → Option GSockAddr

/-- A compiled template, formatted for the messages of a context. -/
abbrev LogTemplate (P : Type) := LogHeap P → (msgs : List Nat) → List UInt8

variable {P α β : Type}

def logMsgGetValue (env : MsgEnv P) (h : LogHeap P) (m handle : Nat) : List UInt8 :=
  if env.isHandleMacro handle then env.getMacroValue h m handle
  else
    match (h.msgs[m]?).bind fun self => h.payloads[self.payload]? with
    | some payload => env.nvTableGetValue payload handle
    | none => []

/-- An operation that asserts that `m` is not write protected, and that its handle is `valid`. -/
def asserting (m : Nat) (valid : Bool) (op : LogHeap P → Option (LogHeap P)) : MsgM P Unit := do
  let h ← get
  if (h.msgs[m]?).any logMsgIsWriteProtected || !valid then throw .assertion
  match op h with
  | some h => set h
  | none => throw .invalid

def msgSetValue (env : MsgEnv P) (m handle : Nat) (value : List UInt8) : MsgM P Unit :=
  asserting m true fun h => logMsgSetValue env.ops env.registry h m handle value

/-- `log_msg_set_match`; `num_matches` is a `guint8`. -/
def logMsgSetMatch (env : MsgEnv P) (m index : Nat) (value : List UInt8) : MsgM P Unit := do
  modify fun h => h.modify m fun self =>
    if self.numMatches ≤ index then { self with numMatches := (index + 1) % 2 ^ 8 } else self
  msgSetValue env m (env.matchHandle index) value

def logMsgSetMatchIndirect (env : MsgEnv P) (m index refHandle type ofs len : Nat) : MsgM P Unit :=
  asserting m (lmVMax ≤ env.matchHandle index) fun h => logMsgSetValueIndirect env.ops env.registry
    h m (env.matchHandle index) refHandle type ofs len

def logMsgClearMatches (env : MsgEnv P) (m : Nat) : MsgM P Unit := do
  let h ← get
  ((List.range (((h.msgs[m]?).map (·.numMatches)).getD 0))).forM fun i =>
    msgSetValue env m (env.matchHandle i) []
  modify fun h => h.modify m fun self => { self with numMatches := 0 }

def msgSetTag (m id : Nat) (on : Bool) : MsgM P Unit :=
  asserting m true fun h => logMsgSetTagByIdOnoff h m id on

/-- `log_msg_make_writable`, with the message that takes the place of `m`. -/
def msgMakeWritable (m : Nat) (ackNeeded : Bool) : MsgM P Nat := do
  match logMsgMakeWritable (← get) m ackNeeded with
  | some (h, m) =>
    set h
    return m
  | none => throw .invalid

/-! ## Computations that write to one message -/

/-- What a computation that writes to `m` has done. -/
def Written (m : Nat) (h h' : LogHeap P) : Prop :=
  ∃ msg msg', h.msgs[m]? = some msg ∧ Updated h h' m msg msg'

/-- There is a message at `m`, and it is not write protected. -/
def Writable (m : Nat) (h : LogHeap P) : Prop :=
  ∃ msg, h.msgs[m]? = some msg ∧ msg.protectCnt = 0

structure Confined (m : Nat) (x : MsgM P α) : Prop where
  asserts : ∀ {h}, Writable m h → x.run h ≠ .error .assertion
  written : ∀ {h a h'}, Writable m h → x.run h = .ok (a, h') → Written m h h'

section

variable {m : Nat} {h h' h'' : LogHeap P}

theorem Written.refl (hw : Writable m h) : Written m h h := by
  obtain ⟨msg, hm, -⟩ := hw
  exact ⟨msg, msg, hm, (set_of_getElem? hm).symm, rfl, rfl, rfl, .refl, .refl, .refl, id⟩

theorem Written.writable (hw : Writable m h) (hu : Written m h h') : Writable m h' := by
  obtain ⟨msg, hm, hcnt⟩ := hw
  obtain ⟨msg1, msg', hm1, hu⟩ := hu
  rw [hm, Option.some_inj] at hm1
  subst hm1
  exact ⟨msg', hu.getElem_self hm, hu.protectCnt.trans hcnt⟩

theorem Written.trans (hu : Written m h h') (hu' : Written m h' h'') : Written m h h'' := by
  obtain ⟨msg, msg', hm, hu⟩ := hu
  obtain ⟨msg1, msg'', hm1, hu'⟩ := hu'
  rw [hu.getElem_self hm, Option.some_inj] at hm1
  subst hm1
  exact ⟨msg, msg'', hm, hu.trans hu'⟩

theorem Confined.pure (a : α) : Confined m (pure a : MsgM P α) := by
  refine ⟨fun _ hx => (by cases hx), fun hw hx => ?_⟩
  cases hx
  exact .refl hw

theorem Confined.get : Confined m (get : MsgM P (LogHeap P)) := by
  refine ⟨fun _ hx => (by cases hx), fun hw hx => ?_⟩
  cases hx
  exact .refl hw

theorem Confined.throw {e : MsgFault} (he : e ≠ .assertion) : Confined m (throw e : MsgM P α) := by
  refine ⟨fun _ hx => he ?_, fun _ hx => (by cases hx)⟩
  cases hx
  rfl

theorem Confined.bind {x : MsgM P α} {f : α → MsgM P β} (hx : Confined m x) (hf : ∀ a, Confined m (f a)) :
    Confined m (x >>= f) := by
  constructor
  · intro h hw hrun
    rw [StateT.run_bind] at hrun
    cases hxr : x.run h with
    | error e =>
      rw [hxr] at hrun
      cases hrun
      exact hx.asserts hw hxr
    | ok r =>
      rw [hxr] at hrun
      exact (hf r.1).asserts ((hx.written hw hxr).writable hw) hrun
  · intro h b h' hw hrun
    rw [StateT.run_bind] at hrun
    cases hxr : x.run h with
    | error e =>
      rw [hxr] at hrun
      cases hrun
    | ok r =>
      rw [hxr] at hrun
      have hu := hx.written hw hxr
      exact hu.trans ((hf r.1).written (hu.writable hw) hrun)

theorem Confined.ite {c : Prop} [Decidable c] {x y : MsgM P α} (hx : Confined m x) (hy : Confined m y) :
    Confined m (if c then x else y) := by
  split
  · exact hx
  · exact hy

theorem Confined.forM {l : List α} {f : α → MsgM P Unit} (hf : ∀ a, Confined m (f a)) :
    Confined m (l.forM f) := by
  induction l with
  | nil => exact .pure ()
  | cons a l ih => exact .bind (hf a) fun _ => ih

theorem Confined.asserting {op : LogHeap P → Option (LogHeap P)}
    (hop : ∀ {h h'}, op h = some h' → Writable m h → Written m h h') :
    Confined m (asserting m true op) := by
  have hrun : ∀ h : LogHeap P, Writable m h →
      (SyslogNg.LogMsg.asserting m true op).run h = match op h with
        | some h => .ok ((), h)
        | none => .error .invalid := by
    rintro h ⟨msg, hm, hcnt⟩
    have hprot : (h.msgs[m]?).any logMsgIsWriteProtected = false := by
      rw [hm, Option.any_some]
      unfold logMsgIsWriteProtected
      rw [hcnt]
      rfl
    unfold SyslogNg.LogMsg.asserting
    rw [StateT.run_bind, StateT.run_get]
    show StateT.run (if ((h.msgs[m]?).any logMsgIsWriteProtected || !true) = true then _ else _) h = _
    rw [hprot, if_neg (by decide)]
    cases op h with
    | some h' => rfl
    | none => rfl
  constructor
  · intro h hw hfault
    rw [hrun h hw] at hfault
    cases hop : op h with
    | some h' =>
      rw [hop] at hfault
      cases hfault
    | none =>
      rw [hop] at hfault
      cases hfault
  · intro h a h' hw hok
    rw [hrun h hw] at hok
    cases hres : op h with
    | some h1 =>
      rw [hres] at hok
      cases hok
      exact hop hres hw
    | none =>
      rw [hres] at hok
      cases hok

theorem Confined.modify {f : LogMessage → LogMessage}
    (hf : ∀ msg, SameShape msg (f msg) ∧ (f msg).counters = msg.counters) :
    Confined m (modify fun h => h.modify m f : MsgM P Unit) := by
  refine ⟨fun _ hx => (by cases hx), ?_⟩
  rintro h a h' ⟨msg, hm, -⟩ hx
  cases hx
  exact ⟨msg, f msg, hm, .of_sameShape hm (hf msg).1 (hf msg).2⟩

variable {env : MsgEnv P}

theorem confined_msgSetValue {handle : Nat} {value : List UInt8} :
    Confined m (msgSetValue env m handle value) := by
  refine .asserting fun hs _ => ?_
  obtain ⟨msg, msg', hm, -, hu⟩ := updated_setValue hs
  exact ⟨msg, msg', hm, hu⟩

theorem confined_setMatch {index : Nat} {value : List UInt8} :
    Confined m (logMsgSetMatch env m index value) := by
  refine .bind (.modify fun msg => ?_) fun _ => confined_msgSetValue
  split
  · exact ⟨⟨rfl, rfl, rfl, rfl⟩, rfl⟩
  · exact ⟨⟨rfl, rfl, rfl, rfl⟩, rfl⟩

theorem confined_setMatchIndirect {index refHandle type ofs len : Nat} :
    Confined m (logMsgSetMatchIndirect env m index refHandle type ofs len) := by
  unfold logMsgSetMatchIndirect
  rw [decide_eq_true (env.matchHandle_ge index)]
  refine .asserting fun hs _ => ?_
  obtain ⟨msg, msg', hm, -, hu⟩ := updated_setValueIndirect hs
  exact ⟨msg, msg', hm, hu⟩

theorem confined_clearMatches : Confined m (logMsgClearMatches env m) :=
  .bind .get fun _ => .bind (.forM fun _ => confined_msgSetValue) fun _ =>
    .modify fun _ => ⟨⟨rfl, rfl, rfl, rfl⟩, rfl⟩

theorem confined_msgSetTag {id : Nat} {on : Bool} : Confined m (msgSetTag m id on : MsgM P Unit) := by
  refine .asserting fun hs _ => ?_
  obtain ⟨msg, msg', hm, -, hu⟩ := updated_setTag hs
  exact ⟨msg, msg', hm, hu⟩

theorem asserting_protected {valid : Bool} {op : LogHeap P → Option (LogHeap P)}
    (hprot : (h.msgs[m]?).any logMsgIsWriteProtected = true) :
    (asserting m valid op).run h = .error .assertion := by
  unfold asserting
  rw [StateT.run_bind, StateT.run_get]
  show StateT.run (if ((h.msgs[m]?).any logMsgIsWriteProtected || !valid) = true then _ else _) h = _
  rw [if_pos (by rw [hprot, Bool.true_or])]
  rfl

end

end SyslogNg.LogMsg
