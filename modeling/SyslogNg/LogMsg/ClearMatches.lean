import SyslogNg.LogMsg.OwnTable

/-!
# Clearing the match variables

`log_msg_clear_matches` empties the variables below `num_matches`, which `log_msg_set_match` raises
and `log_msg_set_match_indirect` does not. A run of both is told which indices it has used since the
last time, and the variables that it has not used are blank.
-/

namespace SyslogNg.LogMsg

open Lib NameValue NameValue.NVTable List
open Option hiding all all_eq_true

/-- The environment of `lib/nvtable.c`: 256 match variables with handles of their own. -/
structure MatchEnv (env : MsgEnv NVTable) (registry : NVRegistry) : Prop where
  ops : env.ops = nvTableOps
  name : env.registry.name = registry.name
  handle_lt : ∀ index < 256, env.matchHandle index < 2 ^ 16
  handle_inj : ∀ i < 256, ∀ j < 256, env.matchHandle i = env.matchHandle j → i = j
  notMacro : ∀ index < 256, env.isHandleMacro (env.matchHandle index) = false
  getValue : ∀ t handle, env.nvTableGetValue t handle = (t.getValue handle).getD []

inductive MatchOp where
  | setMatch (index : Nat) (value : List UInt8)
  | setMatchIndirect (index refHandle type ofs len : Nat)
  /-- A value that is no match variable. -/
  | setValue (handle : Nat) (value : List UInt8)
  | clearMatches

def matchStep (env : MsgEnv NVTable) (m : Nat) : MatchOp → MsgM NVTable Unit
  | .setMatch index value => logMsgSetMatch env m index value
  | .setMatchIndirect index refHandle type ofs len =>
    logMsgSetMatchIndirect env m index refHandle type ofs len
  | .setValue handle value => msgSetValue env m handle value
  | .clearMatches => logMsgClearMatches env m

/-- Indices are at most 255, offsets and lengths 16 bit wide. -/
def MatchOp.ok (env : MsgEnv NVTable) : MatchOp → Bool
  | .setMatch index _ => index < 256
  | .setMatchIndirect index _ _ ofs len => index < 256 && ofs < 2 ^ 16 && len < 2 ^ 16
  | .setValue handle _ =>
    0 < handle && handle < 2 ^ 16 && (List.range 256).all (env.matchHandle · ≠ handle)
  | .clearMatches => true

/-- The indices that were used since the variables were cleared. -/
def MatchOp.touch (touched : List Nat) : MatchOp → List Nat
  | .setMatch index _ | .setMatchIndirect index _ _ _ _ => index :: touched
  | .setValue _ _ => touched
  | .clearMatches => []

def tableOf (h : LogHeap NVTable) (m : Nat) : Option NVTable :=
  (h.msgs[m]?).bind fun self => h.payloads[self.payload]?

/-- If the handle has an entry, an empty value fits, with what refers to the old one made direct. -/
def emptyFits (env : MsgEnv NVTable) (t : NVTable) (handle : Nat) : Bool :=
  (t.entryOf handle).isNone ||
    t.ofsTableTop + t.used + t.storeSpace handle (env.registry.name handle) [] ≤ nvTableMaxBytes

/-- Each round of `log_msg_clear_matches` finds the room for its empty value. -/
def clearFits (env : MsgEnv NVTable) (m : Nat) : List Nat → LogHeap NVTable → Bool
  | [], _ => true
  | i :: is, h => (tableOf h m).all (emptyFits env · (env.matchHandle i)) &&
    match (msgSetValue env m (env.matchHandle i) []).run h with
    | .ok (_, h') => clearFits env m is h'
    | .error _ => true

/-- Before the variables are cleared, those that were used are below `num_matches`. -/
def clearReaches (env : MsgEnv NVTable) (m : Nat) (s : LogHeap NVTable × List Nat) :
    MatchOp → Bool
  | .clearMatches => (s.1.msgs[m]?).any fun msg =>
      s.2.all (· < msg.numMatches) && clearFits env m (List.range msg.numMatches) s.1
  | _ => true

def MatchNext (env : MsgEnv NVTable) (m : Nat) (s : LogHeap NVTable × List Nat) (op : MatchOp)
    (s' : LogHeap NVTable × List Nat) : Prop :=
  (matchStep env m op).run s.1 = .ok ((), s'.1) ∧ op.ok env ∧ s'.2 = op.touch s.2

/-- The message owns its table, and the variables that were not used are blank. -/
structure MatchInv (env : MsgEnv NVTable) (registry : NVRegistry) (m : Nat) (h : LogHeap NVTable)
    (touched : List Nat) (msg : LogMessage) (t : NVTable) : Prop where
  owns : OwnsTable h m msg t
  inUse : InUse registry t
  blank : ∀ i < 256, i ∉ touched → t.Blank (env.matchHandle i)
  below : ∀ i ∈ touched, i < 256
  num_le : msg.numMatches ≤ 256

section

variable {env : MsgEnv NVTable} {registry : NVRegistry} {m handle index : Nat}
  {h h' : LogHeap NVTable} {touched : List Nat} {msg : LogMessage} {t : NVTable}

theorem MatchEnv.handle_pos (env : MsgEnv NVTable) (index : Nat) : 0 < env.matchHandle index :=
  lt_of_lt_of_le (by decide) (env.matchHandle_ge index)

/-- **`log_msg_set_value`** ends, and leaves the other handles alone. -/
theorem OwnsTable.setValue_framed (ho : OwnsTable h m msg t) (he : MatchEnv env registry)
    (ht : InUse registry t) (hpos : 0 < handle) (hlt : handle < 2 ^ 16) (value : List UInt8) :
    ∃ h' msg' r, (msgSetValue env m handle value).run h = .ok ((), h') ∧
      retryLoop (·.addValue handle (env.registry.name handle) value true) 64 t = some r ∧
      OwnsTable h' m msg' r.table ∧ msg'.numMatches = msg.numMatches ∧ InUse registry r.table ∧
      Framed handle (some (value.take nvTableMaxBytes)) t r := by
  have hsize : nvTableMaxBytes ≤ t.size * 2 ^ 28 := by
    have hpos := size_pos ht.kept
    have hmax : nvTableMaxBytes = 2 ^ 28 := by decide
    omega
  obtain ⟨r, hr⟩ := (addValue_call registry hpos hlt value).ends (show 28 < 64 by decide)
    ht trivial hsize
  obtain ⟨htr, hframed⟩ := retryLoop_framed (framed_addValue registry hpos hlt value) ht hr
  rw [← he.name] at hr
  obtain ⟨h', msg', hrun, ho', hnum⟩ := (ho.setValue he.ops hpos value).1 r hr
  exact ⟨h', msg', r, hrun, hr, ho', hnum, htr, hframed⟩

theorem OwnsTable.setEmpty (ho : OwnsTable h m msg t) (he : MatchEnv env registry)
    (ht : InUse registry t) (hpos : 0 < handle) (hlt : handle < 2 ^ 16)
    (hfits : emptyFits env t handle = true) :
    ∃ h' msg' t', (msgSetValue env m handle []).run h = .ok ((), h') ∧ OwnsTable h' m msg' t' ∧
      msg'.numMatches = msg.numMatches ∧ InUse registry t' ∧ t'.Blank handle ∧
      ∀ k, t.Blank k → t'.Blank k := by
  obtain ⟨h', msg', r, hrun, hr, ho', hnum, htr, hframed⟩ := ho.setValue_framed he ht hpos hlt []
  have hblank : r.table.Blank handle := by
    cases hok : r.ok with
    | true => exact .inr (hframed.stored _ rfl hok)
    | false =>
      -- only what has no entry may fail
      by_cases hent : t.entryOf handle = none
      · refine .inl ?_
        rw [hframed.failed hok, EntryMap.cells, hent]
        rfl
      · have hroom : t.ofsTableTop + t.used +
            t.storeSpace handle (env.registry.name handle) [] ≤ nvTableMaxBytes := by
          unfold emptyFits at hfits
          rw [Bool.or_eq_true, isNone_iff_eq_none, decide_eq_true_eq] at hfits
          exact hfits.resolve_left hent
        rw [he.name] at hr hroom
        obtain ⟨r', hr', hok'⟩ := (addValue_call registry hpos hlt []).stores ht.kept trivial
          (.inl ht.owned) hroom
        cases hr.symm.trans hr'
        rw [hok'] at hok
        cases hok
  refine ⟨h', msg', r.table, hrun, ho', hnum, htr, hblank, fun k hk => ?_⟩
  by_cases hkh : k = handle
  · exact hkh ▸ hblank
  · exact (hframed.other k hkh).blank hk

/-- **The loop of `log_msg_clear_matches`.** -/
theorem clearLoop (is : List Nat) (hlt : ∀ i ∈ is, i < 256) (he : MatchEnv env registry)
    (ho : OwnsTable h m msg t) (ht : InUse registry t) (hfits : clearFits env m is h = true) :
    ∃ h' msg' t', (is.forM fun i => msgSetValue env m (env.matchHandle i) []).run h = .ok ((), h') ∧
      OwnsTable h' m msg' t' ∧ msg'.numMatches = msg.numMatches ∧ InUse registry t' ∧
      (∀ i ∈ is, t'.Blank (env.matchHandle i)) ∧ ∀ k, t.Blank k → t'.Blank k := by
  induction is generalizing h msg t with
  | nil => exact ⟨h, msg, t, rfl, ho, rfl, ht, by simp, fun _ hk => hk⟩
  | cons i is ih =>
    obtain ⟨hi, his⟩ := forall_mem_cons.1 hlt
    have htable : tableOf h m = some t := by
      unfold tableOf
      rw [ho.found, bind_some, ho.table]
    rw [clearFits, Bool.and_eq_true, htable, all_some] at hfits
    obtain ⟨hfit, hrest⟩ := hfits
    obtain ⟨h1, msg1, t1, hrun1, ho1, hnum1, ht1, hblank1, hkeep1⟩ :=
      ho.setEmpty he ht (MatchEnv.handle_pos env i) (he.handle_lt i hi) hfit
    rw [hrun1] at hrest
    obtain ⟨h2, msg2, t2, hrun2, ho2, hnum2, ht2, hblank2, hkeep2⟩ :=
      ih his ho1 ht1 hrest
    refine ⟨h2, msg2, t2, ?_, ho2, hnum2.trans hnum1, ht2, ?_, fun k hk => hkeep2 k (hkeep1 k hk)⟩
    · show StateT.run (msgSetValue env m (env.matchHandle i) [] >>= fun _ => is.forM _) h = _
      rw [StateT.run_bind, hrun1]
      exact hrun2
    · intro j hj
      obtain rfl | hj := mem_cons.1 hj
      · exact hkeep2 _ hblank1
      · exact hblank2 j hj

/-- **The variables are blank** once those that were used are below `num_matches`. -/
theorem MatchInv.clear (hi : MatchInv env registry m h touched msg t) (he : MatchEnv env registry)
    (hreach : clearReaches env m (h, touched) .clearMatches = true) :
    ∃ h' msg' t', (logMsgClearMatches env m).run h = .ok ((), h') ∧
      MatchInv env registry m h' [] msg' t' := by
  unfold clearReaches at hreach
  rw [hi.owns.found, any_some, Bool.and_eq_true, all_eq_true] at hreach
  obtain ⟨hbelow, hfits⟩ := hreach
  have hlt : ∀ i ∈ List.range msg.numMatches, i < 256 := fun i hi' =>
    (mem_range.1 hi').trans_le hi.num_le
  obtain ⟨h1, msg1, t1, hrun1, ho1, -, ht1, hblank1, hkeep1⟩ :=
    clearLoop _ hlt he hi.owns hi.inUse hfits
  refine ⟨h1.modify m fun self => { self with numMatches := 0 }, _, t1, ?_,
    ho1.modify rfl rfl ho1.own, ht1, fun i hi256 _ => ?_, by simp, Nat.zero_le _⟩
  · unfold logMsgClearMatches
    rw [StateT.run_bind, StateT.run_get]
    show StateT.run (do
      ((List.range (((h.msgs[m]?).map (·.numMatches)).getD 0))).forM fun i =>
        msgSetValue env m (env.matchHandle i) []
      modify fun h => h.modify m fun self => { self with numMatches := 0 }) h = _
    rw [hi.owns.found, map_some, getD_some, StateT.run_bind, hrun1]
    rfl
  · by_cases hmem : i < msg.numMatches
    · exact hblank1 i (mem_range.2 hmem)
    · exact hkeep1 _ (hi.blank i hi256 fun ht => hmem (of_decide_eq_true (hbelow i ht)))

/-! ## Runs -/

theorem MatchInv.framed {h' : LogHeap NVTable} {msg' : LogMessage} {r : AddResult}
    {stored : Option (List UInt8)} (hi : MatchInv env registry m h touched msg t)
    (he : MatchEnv env registry) (hindex : index < 256) (ho : OwnsTable h' m msg' r.table)
    (ht : InUse registry r.table) (hnum : msg'.numMatches ≤ 256)
    (hf : Framed (env.matchHandle index) stored t r) :
    MatchInv env registry m h' (index :: touched) msg' r.table where
  owns := ho
  inUse := ht
  blank := by
    intro i hi256 hnot
    rw [mem_cons, not_or] at hnot
    exact (hf.other _ fun heq => hnot.1 (he.handle_inj i hi256 index hindex heq)).blank
      (hi.blank i hi256 hnot.2)
  below := by
    intro i hmem
    obtain rfl | hmem := mem_cons.1 hmem
    · exact hindex
    · exact hi.below i hmem
  num_le := hnum

/-- **Every step** keeps the invariant, if `log_msg_clear_matches` reaches what was used. -/
theorem MatchInv.step {s s' : LogHeap NVTable × List Nat} {op : MatchOp}
    (hi : MatchInv env registry m s.1 s.2 msg t) (he : MatchEnv env registry)
    (hs : MatchNext env m s op s') (hreach : clearReaches env m s op = true) :
    ∃ msg' t', MatchInv env registry m s'.1 s'.2 msg' t' := by
  obtain ⟨hrun, hok, htouch⟩ := hs
  rw [htouch]
  cases op with
  | setMatch index value =>
    have hindex : index < 256 := of_decide_eq_true hok
    have hpos := MatchEnv.handle_pos env index
    have hlt := he.handle_lt index hindex
    -- the mark is raised first
    have ho : OwnsTable (s.1.modify m fun self => if self.numMatches ≤ index then
          { self with numMatches := (index + 1) % 2 ^ 8 } else self) m
        (if msg.numMatches ≤ index then { msg with numMatches := (index + 1) % 2 ^ 8 } else msg) t := by
      refine hi.owns.modify ?_ ?_ ?_
      · split <;> rfl
      · split <;> rfl
      · split
        · exact hi.owns.own
        · exact hi.owns.own
    have hnum : (if msg.numMatches ≤ index then { msg with numMatches := (index + 1) % 2 ^ 8 }
        else msg).numMatches ≤ 256 := by
      split
      · exact (Nat.mod_lt _ (by decide)).le
      · exact hi.num_le
    obtain ⟨h1, msg1, r, hrun1, -, ho1, hnum1, ht1, hf⟩ := ho.setValue_framed he hi.inUse hpos hlt value
    have hstep : (matchStep env m (.setMatch index value)).run s.1 = .ok ((), h1) := by
      unfold matchStep logMsgSetMatch
      rw [StateT.run_bind]
      exact hrun1
    cases hstep.symm.trans hrun
    exact ⟨msg1, r.table, hi.framed he hindex ho1 ht1 (hnum1 ▸ hnum) hf⟩
  | setMatchIndirect index ref type ofs len =>
    rw [MatchOp.ok, Bool.and_eq_true, Bool.and_eq_true, decide_eq_true_eq, decide_eq_true_eq,
      decide_eq_true_eq] at hok
    obtain ⟨⟨hindex, hofs⟩, hlen⟩ := hok
    have hpos := MatchEnv.handle_pos env index
    have hlt := he.handle_lt index hindex
    obtain ⟨hsome, hnone⟩ := hi.owns.setMatchIndirect he.ops index ref type ofs len
    cases hr : retryLoop (·.addValueIndirect (env.matchHandle index)
        (env.registry.name (env.matchHandle index)) ref type ofs len true) 64 t with
    | none =>
      rw [matchStep, hnone hr] at hrun
      cases hrun
    | some r =>
      obtain ⟨h1, msg1, hrun1, ho1, hnum1⟩ := hsome r hr
      cases hrun1.symm.trans hrun
      rw [he.name] at hr
      obtain ⟨ht1, hf⟩ := retryLoop_framed
        (framed_addValueIndirect registry hpos hlt ref type (by omega)) hi.inUse hr
      exact ⟨msg1, r.table, hi.framed he hindex ho1 ht1 (hnum1 ▸ hi.num_le) hf⟩
  | setValue handle value =>
    rw [MatchOp.ok, Bool.and_eq_true, Bool.and_eq_true, decide_eq_true_eq, decide_eq_true_eq,
      all_eq_true] at hok
    obtain ⟨⟨hpos, hlt⟩, hother⟩ := hok
    obtain ⟨h1, msg1, r, hrun1, -, ho1, hnum1, ht1, hf⟩ :=
      hi.owns.setValue_framed he hi.inUse hpos hlt value
    cases hrun1.symm.trans hrun
    exact ⟨msg1, r.table, ho1, ht1, fun i hi256 hnot =>
      (hf.other _ (of_decide_eq_true (hother i (mem_range.2 hi256)))).blank (hi.blank i hi256 hnot), hi.below, hnum1 ▸ hi.num_le⟩
  | clearMatches =>
    obtain ⟨h1, msg1, t1, hrun1, hi1⟩ := hi.clear he hreach
    cases hrun1.symm.trans hrun
    exact ⟨msg1, t1, hi1⟩

theorem MatchInv.start (env : MsgEnv NVTable) (registry : NVRegistry) (initLength : Nat)
    (recvd : LogStamp) : ∃ msg, MatchInv env registry 0
      (logMsgNew (nvTableNew 9 16 initLength) recvd) [] msg (nvTableNew 9 16 initLength) := by
  refine ⟨_, ⟨rfl, rfl, ?_, rfl⟩, ⟨(Reachable.new 9 16 initLength).kept, ⟨rfl, rfl⟩, ?_⟩, ?_, ?_,
    Nat.zero_le _⟩
  · exact decide_eq_true (show lfStateOwnMask &&& lfStateOwnPayload ≠ 0 by decide)
  · show nvTableGetAllocSize 9 16 initLength ≤ nvTableMaxBytes
    unfold nvTableGetAllocSize nvTableMaxBytes
    dsimp only
    split <;> omega
  · intro i _ _
    refine .inl ?_
    rw [EntryMap.cells, (nvTableNew_sound registry.name 9 16 initLength).2]
    rfl
  · intro i hmem
    cases hmem

end

end SyslogNg.LogMsg
