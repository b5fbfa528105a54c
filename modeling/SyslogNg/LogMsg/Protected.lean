import SyslogNg.LogMsg.Matches
import SyslogNg.LogMsg.Isolation

/-!
# Computations on a message that is write protected

`Dry`: nothing happens to the heap before the first write, which fails in the assertion. A
computation that first makes its message writable goes on with a clone; what it writes to the clone
is not seen through any message that was there before (`leaves_makeWritable`).
-/

namespace SyslogNg.LogMsg

open Lib
open List hiding getElem?_eq_some_iff

variable {P α β : Type}

def shown (h : LogHeap P) (m : Nat) : Option (LogContents P) × Option Nat :=
  (contents h m, (h.msgs[m]?).map (·.numMatches))

/-- No assertion fails; a protected message, and every other one then, shows what
it showed before. -/
def LeavesProtected (h : LogHeap P) (m : Nat) (x : MsgM P α) : Prop :=
  x.run h ≠ .error .assertion ∧
    ∀ a h', x.run h = .ok (a, h') → (h.msgs[m]?).any logMsgIsWriteProtected = true →
      ∀ j < h.msgs.length, shown h' j = shown h j

/-! ## Valid pointers -/

/-- The pointers of all messages are valid. -/
structure LogHeap.InBounds (h : LogHeap P) : Prop where
  payload : ∀ msg ∈ h.msgs, ∀ a, (payloadHandle msg).obj = some a → a < h.payloads.length
  tags : ∀ msg ∈ h.msgs, ∀ a, (tagsHandle msg).obj = some a → a < h.tagArrays.length
  sdata : ∀ msg ∈ h.msgs, ∀ a, (sdataHandle msg).obj = some a → a < h.sdataArrays.length

section

variable {h h' : LogHeap P} {m : Nat} {msg msg' : LogMessage}

theorem Touch.bound {mem mem' : List α} {c c' : Handle} (ht : Touch mem mem' c c')
    (hc : ∀ a, c.obj = some a → a < mem.length) (a : Nat) (ha : c'.obj = some a) : a < mem'.length := by
  have hle := ht.le
  rcases ht.handle with rfl | ⟨-, hnone | ⟨-, hsame⟩ | ⟨b, hb, -, hlt⟩⟩
  · exact (hc a ha).trans_le hle
  · rw [hnone] at ha
    cases ha
  · exact (hc a (hsame ▸ ha)).trans_le hle
  · rw [hb] at ha
    cases ha
    exact hlt

theorem LogHeap.InBounds.updated (hin : h.InBounds) (hm : h.msgs[m]? = some msg)
    (hu : Updated h h' m msg msg') : h'.InBounds := by
  have hmem := mem_of_getElem? hm
  constructor
  · intro self hself a ha
    rw [hu.msgs] at hself
    rcases mem_or_eq_of_mem_set hself with hold | rfl
    · exact (hin.payload self hold a ha).trans_le hu.payload.le
    · exact Touch.bound hu.payload (hin.payload msg hmem) a ha
  · intro self hself a ha
    rw [hu.msgs] at hself
    rcases mem_or_eq_of_mem_set hself with hold | rfl
    · exact (hin.tags self hold a ha).trans_le hu.tags.le
    · exact Touch.bound hu.tags (hin.tags msg hmem) a ha
  · intro self hself a ha
    rw [hu.msgs] at hself
    rcases mem_or_eq_of_mem_set hself with hold | rfl
    · exact (hin.sdata self hold a ha).trans_le hu.sdata.le
    · exact Touch.bound hu.sdata (hin.sdata msg hmem) a ha

theorem LogHeap.InBounds.of_same (hin : h.InBounds) (hp : h'.payloads = h.payloads)
    (ht : h'.tagArrays = h.tagArrays) (hs : h'.sdataArrays = h.sdataArrays)
    (hmsgs : ∀ msg' ∈ h'.msgs, ∃ msg ∈ h.msgs, (payloadHandle msg').obj = (payloadHandle msg).obj ∧
      (tagsHandle msg').obj = (tagsHandle msg).obj ∧
      (sdataHandle msg').obj = (sdataHandle msg).obj) : h'.InBounds := by
  constructor
  · intro msg' hmem a ha
    obtain ⟨msg, hold, heq, -, -⟩ := hmsgs msg' hmem
    rw [hp]
    exact hin.payload msg hold a (heq ▸ ha)
  · intro msg' hmem a ha
    obtain ⟨msg, hold, -, heq, -⟩ := hmsgs msg' hmem
    rw [ht]
    exact hin.tags msg hold a (heq ▸ ha)
  · intro msg' hmem a ha
    obtain ⟨msg, hold, -, -, heq⟩ := hmsgs msg' hmem
    rw [hs]
    exact hin.sdata msg hold a (heq ▸ ha)

theorem LogHeap.InBounds.set (hin : h.InBounds) (hm : h.msgs[m]? = some msg) (hshape : SameShape msg msg')
    (hp : h'.payloads = h.payloads) (ht : h'.tagArrays = h.tagArrays)
    (hs : h'.sdataArrays = h.sdataArrays) (hmsgs : h'.msgs = h.msgs.set m msg') : h'.InBounds := by
  refine hin.of_same hp ht hs fun self hself => ?_
  rw [hmsgs] at hself
  rcases mem_or_eq_of_mem_set hself with hold | rfl
  · exact ⟨self, hold, rfl, rfl, rfl⟩
  · exact ⟨msg, mem_of_getElem? hm, by rw [hshape.payload], by rw [hshape.tags],
      by rw [hshape.sdata]⟩

theorem LogHeap.InBounds.step {ops : PayloadOps P} {registry : LogMsgRegistry} {op : MsgOp}
    (hin : h.InBounds) (hs : msgStep ops registry h op = some h') : h'.InBounds := by
  cases msgStep_effect hs with
  | write hop hm hcnt hu => exact hin.updated hm hu
  | idle => exact hin
  | field hop hg hm hshape => exact hin.set hm hshape rfl rfl rfl rfl
  | node hop hm => exact hin.set hm (sameShape_protect _) rfl rfl rfl rfl
  | guard hop hm => exact hin.set hm (sameShape_protect _) rfl rfl rfl rfl
  | @unguard m guards hop hg =>
    cases hm : h.msgs[m]? with
    | none =>
      rw [modify_of_none hm]
      exact hin.of_same rfl rfl rfl fun self hself => ⟨self, hself, rfl, rfl, rfl⟩
    | some msg => exact hin.set hm (sameShape_unprotect msg) rfl rfl rfl (modify_eq_set hm)
  | @clone m t msg ackNeeded hop ht hprot hm =>
    refine hin.of_same rfl rfl rfl fun self hself => ?_
    rcases mem_append.1 hself with hset | hlast
    · rcases mem_or_eq_of_mem_set hset with hold | rfl
      · exact ⟨self, hold, rfl, rfl, rfl⟩
      · exact ⟨msg, mem_of_getElem? hm, rfl, rfl, rfl⟩
    · rw [mem_singleton] at hlast
      subst hlast
      refine ⟨msg, mem_of_getElem? hm, ?_, ?_, ?_⟩
      · rw [payloadHandle_cloneOf]
      · show (cloneOf t msg ackNeeded).tags.obj = msg.tags.obj
        rw [cloneOf_fields.2.2]
      · rw [sdataHandle_cloneOf]

theorem inBounds_of_run {ops : PayloadOps P} {registry : LogMsgRegistry} {payload : P} {recvd : LogStamp}
    {script : List MsgOp}
    (hrun : Run (fun h op h' => msgStep ops registry h op = some h') (logMsgNew payload recvd) script h) :
    h.InBounds := by
  refine hrun.invariant (fun _ _ _ hs hin => hin.step hs) ⟨?_, ?_, ?_⟩
  · intro msg hmem a ha
    rw [mem_singleton.1 hmem] at ha
    cases ha
    exact Nat.one_pos
  · intro msg hmem a ha
    rw [mem_singleton.1 hmem] at ha
    cases ha
  · intro msg hmem a ha
    rw [mem_singleton.1 hmem] at ha
    cases ha

end

/-! ## Before the first write -/

/-- On the heap `h` a computation fails in the assertion, or it leaves the heap as it is. -/
structure Dry (h : LogHeap P) (x : MsgM P α) (stores : Bool) (outcome : Except MsgFault α) : Prop
    where
  run : x.run h = if stores then .error .assertion else outcome.map (·, h)
  other : outcome ≠ .error .assertion

variable {x : MsgM P α}

theorem run_bind_of_error {f : α → MsgM P β} {h : LogHeap P} {e : MsgFault}
    (hx : x.run h = .error e) : (x >>= f).run h = .error e := by
  rw [StateT.run_bind, hx]
  rfl

theorem run_bind_of_ok {f : α → MsgM P β} {h h' : LogHeap P} {a : α}
    (hx : x.run h = .ok (a, h')) : (x >>= f).run h = (f a).run h' := by
  rw [StateT.run_bind, hx]
  rfl

theorem run_get_bind {f : LogHeap P → MsgM P α} {h : LogHeap P} : (get >>= f).run h = (f h).run h := rfl

section

variable {env : MsgEnv P} {h : LogHeap P} {m : Nat}

theorem Dry.pure {a : α} : Dry h (pure a : MsgM P α) false (.ok a) := ⟨rfl, by simp⟩

theorem Dry.get : Dry h (get : MsgM P (LogHeap P)) false (.ok h) := ⟨rfl, by simp⟩

theorem Dry.throw {e : MsgFault} (he : e ≠ .assertion) : Dry h (throw e : MsgM P α) false (.error e) :=
  ⟨rfl, by simpa using he⟩

theorem Dry.fault (hx : x.run h = .error .assertion) : Dry h x true (.error .invalid) :=
  ⟨hx, by simp⟩

theorem Dry.bind {x : MsgM P α} {f : α → MsgM P β} {stores : Bool} {outcome : Except MsgFault α}
    {storesF : α → Bool} {outcomeF : α → Except MsgFault β} (hx : Dry h x stores outcome)
    (hf : ∀ a, Dry h (f a) (storesF a) (outcomeF a)) :
    Dry h (x >>= f) (stores || outcome.toOption.any storesF) (outcome.bind outcomeF) := by
  constructor
  · cases stores with
    | true => exact run_bind_of_error hx.run
    | false =>
      cases outcome with
      | error e => exact run_bind_of_error hx.run
      | ok a => exact (run_bind_of_ok hx.run).trans (hf a).run
  · cases outcome with
    | error e => simpa [Except.bind] using hx.other
    | ok a => exact (hf a).other

theorem Dry.map {x : MsgM P α} {f : α → β} {stores : Bool} {outcome : Except MsgFault α}
    (hx : Dry h x stores outcome) : Dry h (x >>= fun a => Pure.pure (f a)) stores (outcome.map f) := by
  constructor
  · cases stores with
    | true => exact run_bind_of_error hx.run
    | false =>
      cases outcome with
      | error e => exact run_bind_of_error hx.run
      | ok a => exact run_bind_of_ok hx.run
  · cases outcome with
    | error e => simpa [Except.map] using hx.other
    | ok a => simp [Except.map]

/-- A computation that neither fails in the assertion nor changes the heap. -/
def Silent (h : LogHeap P) (x : MsgM P α) : Prop := ∃ outcome, Dry h x false outcome

theorem Silent.bind {x : MsgM P α} {f : α → MsgM P β} (hx : Silent h x) (hf : ∀ a, Silent h (f a)) :
    Silent h (x >>= f) := by
  obtain ⟨outcome, hx⟩ := hx
  choose outcomes hf using hf
  have hbind := hx.bind hf
  rw [Bool.false_or] at hbind
  cases outcome with
  | error e => exact ⟨_, hbind⟩
  | ok a => exact ⟨_, hbind⟩

theorem Silent.ite {c : Prop} [Decidable c] {x y : MsgM P α} (hx : Silent h x) (hy : Silent h y) :
    Silent h (if c then x else y) := by
  split
  · exact hx
  · exact hy

theorem setMatch_protected {index : Nat} {value : List UInt8}
    (hprot : (h.msgs[m]?).any logMsgIsWriteProtected = true) :
    (logMsgSetMatch env m index value).run h = .error .assertion := by
  refine (run_bind_of_ok rfl).trans (asserting_protected ?_)
  obtain ⟨msg, hm, hp⟩ := (Option.any_eq_true _ _).1 hprot
  rw [modify_eq_set hm, getElem?_set_self (List.getElem?_eq_some_iff.1 hm).1, Option.any_some]
  split
  · exact hp
  · exact hp

theorem clearMatches_protected (hprot : (h.msgs[m]?).any logMsgIsWriteProtected = true)
    (hnum : ((h.msgs[m]?).map (·.numMatches)).getD 0 ≠ 0) :
    (logMsgClearMatches env m).run h = .error .assertion := by
  obtain ⟨n, hn⟩ := Nat.exists_eq_succ_of_ne_zero hnum
  unfold logMsgClearMatches
  refine run_get_bind.trans (run_bind_of_error ?_)
  rw [hn, range_succ_eq_map]
  exact run_bind_of_error (asserting_protected hprot)

theorem clearMatches_silent (hnum : ((h.msgs[m]?).map (·.numMatches)).getD 0 = 0) :
    Silent h (logMsgClearMatches env m) := by
  refine ⟨.ok (), ⟨?_, by simp⟩⟩
  unfold logMsgClearMatches
  rw [run_get_bind, hnum]
  have hsame : (h.modify m fun self => { self with numMatches := 0 }) = h := by
    cases hm : h.msgs[m]? with
    | none => exact modify_of_none hm
    | some msg =>
      rw [hm, Option.map_some, Option.getD_some] at hnum
      rw [modify_eq hm, ← hnum, set_of_getElem? hm]
  show Except.ok ((), h.modify m fun self => { self with numMatches := 0 }) = _
  rw [hsame]
  rfl

end

/-! ## Clones -/

section

variable {h h' : LogHeap P} {m t j : Nat} {msg : LogMessage} {ackNeeded : Bool}

theorem getElem_withClone (hm : h.msgs[t]? = some msg) (hj : j < h.msgs.length) :
    ∃ self self', h.msgs[j]? = some self ∧ (h.withClone t msg ackNeeded).msgs[j]? = some self' ∧
      self'.payload = self.payload ∧ self'.tags = self.tags ∧ self'.sdata = self.sdata ∧
      self'.numSdata = self.numSdata ∧ self'.numMatches = self.numMatches := by
  have hleft : (h.withClone t msg ackNeeded).msgs[j]? =
      (h.msgs.set t (logMsgWriteProtect msg))[j]? := by
    show (h.msgs.set t (logMsgWriteProtect msg) ++ [cloneOf t msg ackNeeded])[j]? = _
    rw [getElem?_append_left (by rwa [length_set])]
  rw [hleft]
  by_cases hjt : j = t
  · subst hjt
    refine ⟨msg, logMsgWriteProtect msg, hm, ?_, rfl, rfl, rfl, rfl, rfl⟩
    rw [getElem?_set_self hj]
  · refine ⟨h.msgs[j], h.msgs[j], getElem?_eq_getElem hj, ?_, rfl, rfl, rfl, rfl, rfl⟩
    rw [getElem?_set_ne (Ne.symm hjt), getElem?_eq_getElem hj]

theorem shown_of_written (hin : h.InBounds) (hm : h.msgs[t]? = some msg)
    (hw : Written h.msgs.length (h.withClone t msg ackNeeded) h') (hj : j < h.msgs.length) :
    shown h' j = shown h j := by
  obtain ⟨clone, clone', hc, hu⟩ := hw
  have hclone : clone = cloneOf t msg ackNeeded := by
    rcases withClone_getElem hc with hc | ⟨-, hc⟩
    · have := (List.getElem?_eq_some_iff.1 hc).1
      rw [length_set] at this
      omega
    · exact hc
  subst hclone
  obtain ⟨self, self', hself, hself', hp, ht, hs, hns, hn⟩ :=
    @getElem_withClone P h t j msg ackNeeded hm hj
  have hmem := mem_of_getElem? hself
  have hget : h'.msgs[j]? = some self' := by rw [hu.getElem_ne (by omega), hself']
  have hpayload : h'.payloads[self.payload]? = h.payloads[self.payload]? := by
    refine hu.payload.same (hin.payload self hmem _ rfl) fun hown => ?_
    rw [payloadHandle_cloneOf] at hown
    cases hown
  have htags : logMsgIsTagById h' self' = logMsgIsTagById h self := by
    funext id
    unfold logMsgIsTagById
    rw [ht]
    cases htag : self.tags with
    | word w => rfl
    | array a last =>
      have hsame : h'.tagArrays[a]? = h.tagArrays[a]? := by
        refine hu.tags.same (hin.tags self hmem a ?_) fun hown => ?_
        · show self.tags.obj = some a
          rw [htag]
          rfl
        rcases @tagsHandle_cloneOf msg t ackNeeded with ⟨hno, -⟩ | ⟨-, hnone⟩
        · rw [hno] at hown
          cases hown
        · rw [hnone]
          exact Option.some_ne_none a ∘ Eq.symm
      simp only [hsame]
  have hsdata : (self'.sdata.bind fun s => h'.sdataArrays[s]?) =
      self.sdata.bind fun s => h.sdataArrays[s]? := by
    rw [hs]
    cases hsd : self.sdata with
    | none => rfl
    | some s =>
      refine hu.sdata.same (hin.sdata self hmem s hsd) fun hown => ?_
      rw [sdataHandle_cloneOf] at hown
      cases hown
  unfold shown contents
  rw [hget, hself]
  simp only [Option.map_some, hn, contentsOf, hp, hpayload, htags, hsdata, hns]

theorem makeWritable_writable (hw : Writable m h) : (msgMakeWritable m ackNeeded).run h = .ok (m, h) := by
  obtain ⟨msg, hm, hcnt⟩ := hw
  have hmake : logMsgMakeWritable h m ackNeeded = some (h, m) := by
    unfold logMsgMakeWritable
    rw [hm, Option.bind_some, if_neg]
    unfold logMsgIsWriteProtected
    rw [hcnt]
    decide
  unfold msgMakeWritable
  rw [StateT.run_bind, StateT.run_get, pure_bind]
  dsimp only
  rw [hmake]
  rfl

theorem confined_makeWritable {ackNeeded : Bool} {f : Nat → MsgM P α} (hf : Confined m (f m)) :
    Confined m (msgMakeWritable m ackNeeded >>= f) := by
  have hrun : ∀ {h}, Writable m h → (msgMakeWritable m ackNeeded >>= f).run h = (f m).run h := by
    intro h hw
    rw [StateT.run_bind, makeWritable_writable hw]
    rfl
  constructor
  · intro h hw hfault
    rw [hrun hw] at hfault
    exact hf.asserts hw hfault
  · intro h a h' hw hok
    rw [hrun hw] at hok
    exact hf.written hw hok

theorem leaves_makeWritable (hin : h.InBounds) (hprot : (h.msgs[m]?).any logMsgIsWriteProtected = true)
    {f : Nat → MsgM P α} (hf : ∀ c, Confined c (f c)) :
    LeavesProtected h m (msgMakeWritable m ackNeeded >>= f) := by
  obtain ⟨msg, hm, hp⟩ := (Option.any_eq_true _ _).1 hprot
  have hmake : logMsgMakeWritable h m ackNeeded = logMsgCloneCow h m ackNeeded := by
    unfold logMsgMakeWritable
    rw [hm, Option.bind_some, if_pos hp]
  have hrun : (msgMakeWritable m ackNeeded >>= f).run h =
      (logMsgCloneCow h m ackNeeded).elim (.error .invalid) fun r => (f r.2).run r.1 := by
    unfold msgMakeWritable
    rw [bind_assoc, StateT.run_bind, StateT.run_get, pure_bind]
    dsimp only
    rw [hmake]
    cases logMsgCloneCow h m ackNeeded with
    | none => rfl
    | some r => rfl
  unfold LeavesProtected
  rw [hrun]
  cases hclone : logMsgCloneCow h m ackNeeded with
  | none => exact ⟨by simp, fun a h' hok => by cases hok⟩
  | some r =>
    have hclone : logMsgCloneCow h m ackNeeded = some (r.1, r.2) := hclone
    obtain ⟨t, orig, -, horig, hc, hh⟩ := cloneCow_eq hclone
    have hw : Writable r.2 r.1 := by
      refine ⟨cloneOf t orig ackNeeded, ?_, cloneOf_fields.2.1⟩
      rw [hc, hh]
      show (h.msgs.set t (logMsgWriteProtect orig) ++ [cloneOf t orig ackNeeded])[h.msgs.length]? = _
      rw [getElem?_append_right (by rw [length_set]), length_set, Nat.sub_self]
      rfl
    refine ⟨(hf r.2).asserts hw, fun a h' hok _ j hj => ?_⟩
    have hwritten := (hf r.2).written hw hok
    rw [hc, hh] at hwritten
    exact shown_of_written hin horig hwritten hj

/-! ## Both together -/

/-- A computation on a protected message: it fails in the assertion, or it leaves what is there. -/
structure FaultsIf (h : LogHeap P) (m : Nat) (x : MsgM P α) (stores : Bool) : Prop where
  faults : stores = true → x.run h = .error .assertion
  leaves : stores = false → LeavesProtected h m x

theorem FaultsIf.of_dry {stores : Bool} {outcome : Except MsgFault α}
    (hx : Dry h x stores outcome) : FaultsIf h m x stores := by
  obtain ⟨hrun, hother⟩ := hx
  constructor
  · rintro rfl
    exact hrun
  · rintro rfl
    have hrun : x.run h = outcome.map (·, h) := hrun
    unfold LeavesProtected
    rw [hrun]
    cases outcome with
    | error e => exact ⟨by simpa [Except.map] using hother, fun a h' hok => by cases hok⟩
    | ok a =>
      refine ⟨by simp [Except.map], fun a h' hok _ j _ => ?_⟩
      cases hok
      rfl

theorem FaultsIf.of_leaves (hx : LeavesProtected h m x) : FaultsIf h m x false :=
  ⟨by simp, fun _ => hx⟩

theorem FaultsIf.bind {x : MsgM P α} {f : α → MsgM P β} {stores : Bool} {outcome : Except MsgFault α}
    {storesF : α → Bool} (hx : Dry h x stores outcome) (hf : ∀ a, FaultsIf h m (f a) (storesF a)) :
    FaultsIf h m (x >>= f) (stores || outcome.toOption.any storesF) := by
  cases stores with
  | true => exact ⟨fun _ => run_bind_of_error hx.run, by simp⟩
  | false =>
    cases outcome with
    | error e =>
      have hrun : (x >>= f).run h = .error e := run_bind_of_error hx.run
      have hdry : Dry h (x >>= f) false (.error e) := ⟨hrun, by simpa using hx.other⟩
      exact .of_dry hdry
    | ok a =>
      have hrun : (x >>= f).run h = (f a).run h := run_bind_of_ok hx.run
      constructor
      · intro hstores
        rw [hrun]
        exact (hf a).faults hstores
      · intro hstores
        unfold LeavesProtected
        rw [hrun]
        exact (hf a).leaves hstores

theorem FaultsIf.bind_leaves {f : α → MsgM P β} {stores : Bool}
    {outcome : Except MsgFault α} (hx : Dry h x stores outcome) (hf : ∀ a, FaultsIf h m (f a) false) :
    FaultsIf h m (x >>= f) stores := by
  have hbind := FaultsIf.bind hx hf
  have hnone : outcome.toOption.any (fun _ => false) = false := by cases outcome <;> rfl
  rwa [hnone, Bool.or_false] at hbind

theorem FaultsIf.get_bind {f : LogHeap P → MsgM P α} {stores : Bool} (hf : FaultsIf h m (f h) stores) :
    FaultsIf h m (get >>= f) stores :=
  ⟨hf.faults, hf.leaves⟩

theorem FaultsIf.map {x : MsgM P α} {f : α → β} {stores : Bool} (hx : FaultsIf h m x stores) :
    FaultsIf h m (x >>= fun a => Pure.pure (f a)) stores := by
  constructor
  · intro hstores
    exact run_bind_of_error (hx.faults hstores)
  · intro hstores
    obtain ⟨hassert, hshown⟩ := hx.leaves hstores
    unfold LeavesProtected
    cases hrun : x.run h with
    | error e =>
      rw [run_bind_of_error hrun]
      refine ⟨fun hfault => hassert ?_, fun b h' hok => by cases hok⟩
      rw [hrun]
      exact congrArg Except.error (Except.error.inj hfault)
    | ok r =>
      rw [run_bind_of_ok hrun]
      refine ⟨fun hfault => (by cases hfault), fun b h' hok hprot => ?_⟩
      cases hok
      exact hshown r.1 r.2 hrun hprot

end

end SyslogNg.LogMsg
