import SyslogNg.NameValue.Frame
import SyslogNg.LogMsg.Matches
import SyslogNg.LogMsg.StoreLoop

/-!
# A message with a table of its own

What the operations that store a value do to the table of a message that owns it: they go through
`retryLoop`, which keeps the table in order and leaves the other handles alone (`retryLoop_framed`).
-/

namespace SyslogNg.LogMsg

open NameValue NameValue.NVTable Option

/-! ## The loop -/

section

variable {registry : NVRegistry} {t : NVTable} {handle : Nat} {add : NVTable → Option AddResult}
  {need : NVTable → Nat} {P : NVTable → Prop}

theorem stands_of_owned (hk : t.Kept registry) (ho : t.Owned) : t.Stands registry.name := by
  have hsame : t.withOwner 1 false = t := by
    unfold withOwner
    rw [← ho.1, ← ho.2]
  exact hsame ▸ hk.stands

/-- A table as a message has it: in order, with one owner, and not too large. -/
structure InUse (registry : NVRegistry) (t : NVTable) : Prop where
  kept : t.Kept registry
  owned : t.Owned
  size_le : t.size ≤ nvTableMaxBytes

theorem InUse.realloc {t' : NVTable} {grown : Bool} (ht : InUse registry t)
    (hr : t.realloc = some (grown, t')) : InUse registry t' ∧ t'.entryOf = t.entryOf ∧
      (grown = true → t'.size = min (2 * t.size) nvTableMaxBytes) := by
  have hkept : t'.Kept registry :=
    ht.kept.call (c := .realloc) trivial (by rw [nvCall, hr]; rfl)
  have hle := ht.size_le
  have hpos := size_pos ht.kept
  by_cases hlt : t.size < nvTableMaxBytes
  · rw [realloc_owned ht.owned hpos hlt] at hr
    cases hr
    exact ⟨⟨hkept, ht.owned, Nat.min_le_right _ _⟩, rfl, fun _ => rfl⟩
  · unfold NVTable.realloc at hr
    dsimp only at hr
    rw [if_pos (by omega)] at hr
    cases hr
    exact ⟨ht, rfl, by simp⟩

def FramedCall (registry : NVRegistry) (handle : Nat) (stored : Option (List UInt8))
    (add : NVTable → Option AddResult) : Prop :=
  ∀ t r, InUse registry t → add t = some r → InUse registry r.table ∧ Framed handle stored t r

theorem retryLoop_framed {stored : Option (List UInt8)} {rounds : Nat} {r : AddResult}
    (hadd : FramedCall registry handle stored add) (ht : InUse registry t)
    (hr : retryLoop add rounds t = some r) : InUse registry r.table ∧ Framed handle stored t r := by
  induction rounds generalizing t with
  | zero => cases hr
  | succ rounds ih =>
    obtain ⟨r1, hr1, hr⟩ := bind_eq_some_iff.1 hr
    obtain ⟨ht1, hf1⟩ := hadd t r1 ht hr1
    split at hr
    · cases hr
      exact ⟨ht1, hf1⟩
    rename_i hok
    replace hok := eq_false_of_ne_true hok
    obtain ⟨⟨grown, t2⟩, hrealloc, hr⟩ := bind_eq_some_iff.1 hr
    obtain ⟨ht2, hof, -⟩ := ht1.realloc hrealloc
    have hcells := congrArg EntryMap.cells hof
    cases grown with
    | true =>
      obtain ⟨ht3, hf3⟩ := ih ht2 hr
      refine ⟨ht3, fun h hne => ?_, hf3.stored, fun h => ?_⟩
      · exact ((hf1.other h hne).trans (.of_cell (congrFun hcells h))).trans (hf3.other h hne)
      · rw [hf3.failed h, hcells, hf1.failed hok]
    | false =>
      cases hr
      refine ⟨ht2, fun h hne => (hf1.other h hne).trans (.of_cell (congrFun hcells h)), ?_, fun _ => ?_⟩
      · intro v hv h
        exact absurd (hok.symm.trans h) (by decide)
      · show EntryMap.cells t2.entryOf handle = _
        rw [hcells, hf1.failed hok]

theorem LoopCall.ends (hc : LoopCall registry handle add need P) {k rounds : Nat}
    (hrounds : k < rounds) (ht : InUse registry t) (hP : P t)
    (hsize : nvTableMaxBytes ≤ t.size * 2 ^ k) : ∃ r, retryLoop add rounds t = some r := by
  induction k generalizing rounds t with
  | zero =>
    obtain ⟨rounds, rfl⟩ := Nat.exists_eq_succ_of_ne_zero (Nat.ne_of_gt hrounds)
    obtain ⟨r, hr, -, -, hfail⟩ := hc.call t ht.kept hP
    rw [retryLoop, hr, bind_some]
    cases hok : r.ok with
    | true => exact ⟨r, rfl⟩
    | false =>
      obtain ⟨-, hsize1, -⟩ := hfail hok
      have hle := ht.size_le
      have hfull : r.table.realloc = some (false, r.table) := by
        unfold NVTable.realloc
        dsimp only
        rw [if_pos (by omega)]
      rw [if_neg (by decide), hfull]
      exact ⟨_, rfl⟩
  | succ k ih =>
    obtain ⟨rounds, rfl⟩ := Nat.exists_eq_succ_of_ne_zero (show rounds ≠ 0 by omega)
    obtain ⟨r, hr, hk1, hw, hfail⟩ := hc.call t ht.kept hP
    rw [retryLoop, hr, bind_some]
    cases hok : r.ok with
    | true => exact ⟨r, rfl⟩
    | false =>
      obtain ⟨hP1, hsize1, -⟩ := hfail hok
      have ht1 : InUse registry r.table := ⟨hk1,
        ⟨hw.owner.1.trans ht.owned.1, hw.owner.2.trans ht.owned.2⟩, hsize1 ▸ ht.size_le⟩
      rw [if_neg (by decide)]
      by_cases hlt : r.table.size < nvTableMaxBytes
      · have hgrow := realloc_owned ht1.owned (size_pos hk1) hlt
        obtain ⟨ht2, -, -⟩ := ht1.realloc hgrow
        rw [hgrow]
        refine ih (by omega) ht2 (hc.resize r.table _ r.table.refCnt r.table.borrowed hP1).1 ?_
        show nvTableMaxBytes ≤ min (2 * r.table.size) nvTableMaxBytes * 2 ^ k
        rw [Nat.pow_succ, ← hsize1] at hsize
        rcases Nat.le_total (2 * r.table.size) nvTableMaxBytes with hle | hle
        · rw [Nat.min_eq_left hle]
          calc nvTableMaxBytes ≤ r.table.size * (2 ^ k * 2) := hsize
            _ = 2 * r.table.size * 2 ^ k := by ring
        · rw [Nat.min_eq_right hle]
          exact Nat.le_mul_of_pos_right _ Nat.one_le_two_pow
      · have hle := ht1.size_le
        have hfull : r.table.realloc = some (false, r.table) := by
          unfold NVTable.realloc
          dsimp only
          rw [if_pos (by omega)]
        rw [hfull]
        exact ⟨_, rfl⟩

theorem framedCall_of {stored : Option (List UInt8)}
    (hwrites : ∀ {t r}, add t = some r → Writes t r.table)
    (hcall : ∀ {t r}, t.Kept registry → t.Owned → add t = some r →
      r.table.Kept registry ∧ r.table.size = t.size ∧ Framed handle stored t r) :
    FramedCall registry handle stored add := by
  intro t r ht hr
  obtain ⟨hkept, hsize, hframed⟩ := hcall ht.kept ht.owned hr
  obtain ⟨href, hborrowed⟩ := (hwrites hr).owner
  exact ⟨⟨hkept, ⟨href.trans ht.owned.1, hborrowed.trans ht.owned.2⟩, hsize ▸ ht.size_le⟩, hframed⟩

theorem framed_addValue (registry : NVRegistry) {handle : Nat} (hpos : 0 < handle)
    (hlt : handle < 2 ^ 16) (value : List UInt8) :
    FramedCall registry handle (some (value.take nvTableMaxBytes))
      (·.addValue handle (registry.name handle) value true) := by
  refine framedCall_of (fun hr => addValueDepth_writes hr) fun {t r} hk ho hr => ?_
  obtain ⟨r', hr', hkept, hserved⟩ := hk.addValue hpos hlt value true
  cases hr.symm.trans hr'
  exact ⟨hkept, hserved.size, addValue_framed (stands_of_owned hk ho) hpos hlt hr⟩

theorem framed_addValueIndirect (registry : NVRegistry) {handle : Nat} (hpos : 0 < handle)
    (hlt : handle < 2 ^ 16) (ref type : Nat) {ofs len : Nat} (hlen : ofs + len < 2 ^ 32) :
    FramedCall registry handle none
      (·.addValueIndirect handle (registry.name handle) ref type ofs len true) := by
  refine framedCall_of (fun hr => addValueIndirect_writes hr) fun {t r} hk ho hr => ?_
  refine ⟨hk.addValueIndirect hpos hlt hlen hr, ?_,
    addValueIndirect_framed (stands_of_owned hk ho) hpos hlt hlen hr⟩
  cases href : t.indirectAt ref with
  | false => exact (hk.referred hpos hlt href hr).size
  | true =>
    rw [hk.addValueIndirect_copy href hlen] at hr
    obtain ⟨value, -, hr⟩ := bind_eq_some_iff.1 hr
    obtain ⟨r', hr', -, hserved⟩ := hk.addValue hpos hlt (resolveSlice value ofs len) true
    cases hr.symm.trans hr'
    exact hserved.size

end

/-! ## The message -/

/-- The message at `m` may be written, and owns the table `t`. -/
structure OwnsTable (h : LogHeap NVTable) (m : Nat) (msg : LogMessage) (t : NVTable) : Prop where
  found : h.msgs[m]? = some msg
  writable : msg.protectCnt = 0
  own : logMsgChkFlag msg lfStateOwnPayload = true
  table : h.payloads[msg.payload]? = some t

section

variable {h h' : LogHeap NVTable} {m handle : Nat} {msg : LogMessage} {t : NVTable}
  {env : MsgEnv NVTable}

theorem OwnsTable.modify {f : LogMessage → LogMessage} (ho : OwnsTable h m msg t)
    (hcnt : (f msg).protectCnt = msg.protectCnt) (hpayload : (f msg).payload = msg.payload)
    (hown : logMsgChkFlag (f msg) lfStateOwnPayload = true) :
    OwnsTable (h.modify m f) m (f msg) t where
  found := by
    rw [modify_eq_set ho.found, List.getElem?_set_self (List.getElem?_eq_some_iff.1 ho.found).1]
  writable := hcnt.trans ho.writable
  own := hown
  table := by
    rw [hpayload]
    exact ho.table

theorem OwnsTable.updateSdata (ho : OwnsTable h m msg t) (registry : LogMsgRegistry)
    (handle : Nat) : ∃ msg', OwnsTable (logMsgUpdateSdata registry h m handle) m msg' t ∧
      msg'.numMatches = msg.numMatches := by
  unfold logMsgUpdateSdata
  rw [ho.found]
  dsimp only
  split
  swap
  · exact ⟨msg, ho, rfl⟩
  unfold logMsgUpdateSdataSlow
  split
  · exact ⟨msg, ho, rfl⟩
  dsimp only
  split
  · have hmod := ho.modify (f := fun self => { self with numSdata := self.numSdata + 1 }) rfl rfl
      ho.own
    exact ⟨_, ⟨hmod.found, hmod.writable, hmod.own, hmod.table⟩, rfl⟩
  · have hmod := ho.modify (f := fun self => logMsgSetFlag { self with
        numSdata := self.numSdata + 1, sdata := some h.sdataArrays.length } lfStateOwnSdata) rfl rfl
      ((chkFlag_setFlag_of_disjoint (by decide)).trans ho.own)
    exact ⟨_, ⟨hmod.found, hmod.writable, hmod.own, hmod.table⟩, rfl⟩

theorem OwnsTable.changePayload (ho : OwnsTable h m msg t) (ops : PayloadOps NVTable) (space : Nat)
    (change : NVTable → Option (NVTable × Bool)) :
    (change t = none → logMsgChangePayload ops h m msg space change = none) ∧
      ∀ t' newEntry, change t = some (t', newEntry) → ∃ h',
        logMsgChangePayload ops h m msg space change = some (h', newEntry) ∧
          OwnsTable h' m msg t' := by
  unfold logMsgChangePayload
  rw [ho.table, bind_some, if_pos ho.own]
  refine ⟨fun hnone => by rw [hnone]; rfl, fun t' newEntry hsome => ?_⟩
  rw [hsome]
  refine ⟨_, rfl, ho.found, ho.writable, ho.own, ?_⟩
  exact List.getElem?_set_self (List.getElem?_eq_some_iff.1 ho.table).1

theorem run_asserting {valid : Bool} {op : LogHeap NVTable → Option (LogHeap NVTable)}
    (ho : OwnsTable h m msg t) (hvalid : valid = true) :
    (asserting m valid op).run h = match op h with
      | some h => .ok ((), h)
      | none => .error .invalid := by
  have hprot : (h.msgs[m]?).any logMsgIsWriteProtected = false := by
    rw [ho.found, any_some]
    unfold logMsgIsWriteProtected
    rw [ho.writable]
    rfl
  unfold asserting
  rw [StateT.run_bind, StateT.run_get]
  show StateT.run (if ((h.msgs[m]?).any logMsgIsWriteProtected || !valid) = true then _ else _) h = _
  rw [hprot, hvalid, if_neg (by decide)]
  cases op h with
  | some h' => rfl
  | none => rfl

/-- **`log_msg_set_value`** does to the table what the loop does. -/
theorem OwnsTable.setValue (ho : OwnsTable h m msg t) (hops : env.ops = nvTableOps)
    (hpos : 0 < handle) (value : List UInt8) :
    (∀ r, retryLoop (·.addValue handle (env.registry.name handle) value true) 64 t = some r →
      ∃ h' msg', (msgSetValue env m handle value).run h = .ok ((), h') ∧
        OwnsTable h' m msg' r.table ∧ msg'.numMatches = msg.numMatches) ∧
    (retryLoop (·.addValue handle (env.registry.name handle) value true) 64 t = none →
      (msgSetValue env m handle value).run h = .error .invalid) := by
  have hloop : env.ops.addValue t handle (env.registry.name handle) value =
      (retryLoop (·.addValue handle (env.registry.name handle) value true) 64 t).map
        fun r => (r.table, r.newEntry) := by
    rw [hops]
    exact addLoop_eq (·.addValue handle (env.registry.name handle) value true) 64 t
  unfold msgSetValue
  rw [run_asserting ho rfl, logMsgSetValue, ho.found, bind_some, if_neg (by
    unfold logMsgIsWriteProtected
    rw [ho.writable]
    decide), if_neg (show handle ≠ lmVNone from Nat.ne_of_gt hpos)]
  dsimp only
  obtain ⟨hnone, hsome⟩ := ho.changePayload env.ops
    ((env.registry.name handle).length + value.length + 2)
    (env.ops.addValue · handle (env.registry.name handle) value)
  refine ⟨fun r hr => ?_, fun hr => ?_⟩
  · rw [hr] at hloop
    obtain ⟨h1, hc, ho1⟩ := hsome _ _ hloop
    rw [hc]
    have hsdata : ∃ msg2, OwnsTable (if r.newEntry then logMsgUpdateSdata env.registry h1 m handle
        else h1) m msg2 r.table ∧ msg2.numMatches = msg.numMatches := by
      split
      · exact ho1.updateSdata env.registry handle
      · exact ⟨msg, ho1, rfl⟩
    obtain ⟨msg2, ho2, hnum⟩ := hsdata
    simp only [map_some]
    split
    · exact ⟨_, _, rfl, ho2.modify rfl rfl
        ((chkFlag_unsetFlag_of_disjoint (by decide)).trans ho2.own), hnum⟩
    · exact ⟨_, _, rfl, ho2, hnum⟩
  · rw [hr] at hloop
    rw [hnone hloop]
    rfl

/-- **`log_msg_set_value_indirect`** likewise. -/
theorem OwnsTable.setMatchIndirect (ho : OwnsTable h m msg t) (hops : env.ops = nvTableOps)
    (index ref type ofs len : Nat) :
    (∀ r, retryLoop (·.addValueIndirect (env.matchHandle index)
        (env.registry.name (env.matchHandle index)) ref type ofs len true) 64 t = some r →
      ∃ h' msg', (logMsgSetMatchIndirect env m index ref type ofs len).run h = .ok ((), h') ∧
        OwnsTable h' m msg' r.table ∧ msg'.numMatches = msg.numMatches) ∧
    (retryLoop (·.addValueIndirect (env.matchHandle index)
        (env.registry.name (env.matchHandle index)) ref type ofs len true) 64 t = none →
      (logMsgSetMatchIndirect env m index ref type ofs len).run h = .error .invalid) := by
  have hloop : env.ops.addValueIndirect t (env.matchHandle index)
      (env.registry.name (env.matchHandle index)) ref type ofs len =
      (retryLoop (·.addValueIndirect (env.matchHandle index)
        (env.registry.name (env.matchHandle index)) ref type ofs len true) 64 t).map
          fun r => (r.table, r.newEntry) := by
    rw [hops]
    exact addLoop_eq (·.addValueIndirect (env.matchHandle index)
      (env.registry.name (env.matchHandle index)) ref type ofs len true) 64 t
  have hge := env.matchHandle_ge index
  unfold logMsgSetMatchIndirect
  rw [run_asserting ho (decide_eq_true hge), logMsgSetValueIndirect, ho.found, bind_some, if_neg (by
      unfold logMsgIsWriteProtected
      rw [ho.writable]
      decide), if_neg (by
      unfold lmVMax at hge
      unfold lmVNone
      omega), if_neg (Nat.not_lt.2 hge)]
  dsimp only
  obtain ⟨hnone, hsome⟩ := ho.changePayload env.ops
    ((env.registry.name (env.matchHandle index)).length + 1) (env.ops.addValueIndirect ·
      (env.matchHandle index) (env.registry.name (env.matchHandle index)) ref type ofs len)
  refine ⟨fun r hr => ?_, fun hr => ?_⟩
  · rw [hr] at hloop
    obtain ⟨h1, hc, ho1⟩ := hsome _ _ hloop
    rw [hc]
    simp only [map_some]
    split
    · obtain ⟨msg2, ho2, hnum⟩ := ho1.updateSdata env.registry (env.matchHandle index)
      exact ⟨_, msg2, rfl, ho2, hnum⟩
    · exact ⟨_, msg, rfl, ho1, rfl⟩
  · rw [hr] at hloop
    rw [hnone hloop]
    rfl

end

end SyslogNg.LogMsg
