import SyslogNg.LogMsg.Shown
import SyslogNg.LogMsg.StoreLoop

/-!
# `log_msg_clear` (`lib/logmsg.c`)

A cleared message shows what a fresh one shows, and every update of it from then on changes both in
the same way (`shows_run`). Its parts are reset by rules of their own: tags in the pointer itself,
an array of tags or structured data that belongs to the original, are those that it gets wrong
(`CanClear`).
-/

namespace SyslogNg.LogMsg

open Lib NameValue
open List hiding getElem?_eq_some_iff
open Option (bind_eq_some_iff map_eq_some_iff)

def clearPayload (h : LogHeap NVTable) (self : LogMessage) : Option (List NVTable × Nat) :=
  if logMsgChkFlag self lfStateOwnPayload then
    ((h.payloads[self.payload]?).bind NVTable.clear).map fun payload =>
      (h.payloads.set self.payload payload, self.payload)
  else some (h.payloads ++ [nvTableNew lmVMax 16 256], h.payloads.length)

/-- The arrays and the tags of the message: `num_tags` stays, so tags in the pointer itself are no
words to be zeroed, and a pointer that becomes `NULL` is an array without its words. -/
def clearTags (h : LogHeap NVTable) (self : LogMessage) : List (List (BitVec 64)) × LogTags :=
  match self.tags with
  | .word word => (h.tagArrays, .word (if logMsgChkFlag self lfStateOwnTags then word else 0))
  | .array a last =>
    if logMsgChkFlag self lfStateOwnTags then
      (h.tagArrays.modify a fun words => replicate (last + 1) 0 ++ words.drop (last + 1),
        .array a last)
    else (h.tagArrays ++ [[]], .array h.tagArrays.length last)

/-- `log_msg_clear`. The write protection of the original is never taken back, like that of a queue
node that stays. -/
def logMsgClear (h : LogHeap NVTable) (m : Nat) : Option (LogHeap NVTable) :=
  (h.msgs[m]?).bind fun self => (clearPayload h self).map fun (payloads, payload) =>
    let (tagArrays, tags) := clearTags h self
    { h with
      msgs := h.msgs.set m { self with
        payload := payload
        tags := tags
        numMatches := 0
        numSdata := 0
        original := none
        flags := self.flags ||| lfStateOwnMask }
      payloads := payloads
      tagArrays := tagArrays
      nodes := self.original.toList ++ h.nodes }

/-- Nobody shares the message, no tag is in the pointer itself, and an array of tags or structured
data is its own. -/
def CanClear (self : LogMessage) : Bool :=
  self.protectCnt = 0 &&
  (match self.tags with
    | .word word => word = 0
    | .array _ _ => logMsgChkFlag self lfStateOwnTags) &&
  (self.sdata.isNone || logMsgChkFlag self lfStateOwnSdata)

inductive ClearOp where
  | update (op : MsgOp)
  | clear (m : Nat)

/-- A step of a run whose counters do not wrap, and whose clears meet the condition. -/
def ClearNext (registry : LogMsgRegistry) (h : LogHeap NVTable) (op : ClearOp)
    (h' : LogHeap NVTable) : Prop :=
  match op with
  | .update op => MsgNext nvTableOps registry h op h'
  | .clear m => (h.msgs[m]?).any CanClear = true ∧ logMsgClear h m = some h'

def clearNext (registry : LogMsgRegistry) (h : LogHeap NVTable) : ClearOp → Option (LogHeap NVTable)
  | .update op => msgNext nvTableOps registry h op
  | .clear m => if (h.msgs[m]?).any CanClear then logMsgClear h m else none

/-- A message as `log_msg_init` and `nv_table_init` leave it, parsed or not. -/
def freshMessage (size : Nat) (borrowed initialParse : Bool) : LogHeap NVTable :=
  (logMsgNew (nvTableInit size lmVMax borrowed) ⟨0, 0, 0⟩).modify 0 fun self =>
    { self with initialParse := initialParse }

/-- The values, tags and structured data of the message `m` after some updates of it. -/
def updatedContents (registry : LogMsgRegistry) (h : LogHeap NVTable) (m : Nat) (us : List Update) :
    Option (LogContents NVTable) :=
  (exec (msgStep nvTableOps registry) h (us.map (Update.on m))).bind (contents · m)

/-- `h'` is `h` with the message `m` reset. -/
structure Cleared (registry : LogMsgRegistry) (h h' : LogHeap NVTable) (m : Nat) : Prop where
  empty : ∃ table, contents h' m = some ⟨some table, fun _ => false, []⟩ ∧
    ∀ handle, table.getValue handle = some []
  fresh : ∃ size borrowed initialParse, ∀ us : List Update, updatedContents registry h' m us =
    updatedContents registry (freshMessage size borrowed initialParse) 0 us
  others : ∀ (us : List Update) h'', exec (msgStep nvTableOps registry) h' (us.map (Update.on m)) = some h'' →
    ∀ m', m' ≠ m → contents h'' m' = contents h m'

/-! ## Tables in a heap -/

def MessageTable (t : NVTable) : Prop := t.refCnt = 1 ∧ t.numStaticEntries = lmVMax

section

variable {t t' : NVTable}

theorem MessageTable.init (size : Nat) (borrowed : Bool) :
    MessageTable (nvTableInit size lmVMax borrowed) := by
  refine ⟨rfl, ?_⟩
  show (replicate (lmVMax % 2 ^ 8) 0).length = lmVMax
  rw [length_replicate]
  rfl

theorem MessageTable.writes (ht : MessageTable t) (hw : NVTable.Writes t t') : MessageTable t' :=
  ⟨hw.owner.1.trans ht.1, hw.numStaticEntries.trans ht.2⟩

theorem MessageTable.realloc {grown : Bool} (ht : MessageTable t)
    (hr : t.realloc = some (grown, t')) : MessageTable t' := by
  unfold NVTable.realloc at hr
  dsimp only at hr
  split at hr
  · cases hr
    exact ht
  split at hr
  · cases hr
  split at hr
  · cases hr
    exact ht
  split at hr
  · cases hr
    exact ⟨rfl, ht.2⟩
  · cases hr

theorem MessageTable.addLoop {add : NVTable → Option AddResult} {rounds : Nat} {newEntry : Bool}
    (hadd : ∀ t r, add t = some r → NVTable.Writes t r.table) (ht : MessageTable t)
    (hr : LogMsg.addLoop add rounds t = some (t', newEntry)) : MessageTable t' := by
  induction rounds generalizing t with
  | zero => cases hr
  | succ rounds ih =>
    obtain ⟨r, hadded, hr⟩ := bind_eq_some_iff.1 hr
    have hr1 := ht.writes (hadd t r hadded)
    split at hr
    · cases hr
      exact hr1
    obtain ⟨⟨grown, t2⟩, hrealloc, hr⟩ := bind_eq_some_iff.1 hr
    have ht2 := hr1.realloc hrealloc
    cases grown with
    | true => exact ih ht2 hr
    | false =>
      cases hr
      exact ht2

theorem MessageTable.clone {space : Int} (ht : MessageTable t) (hc : t.clone space = some t') :
    MessageTable t' := by
  unfold NVTable.clone at hc
  dsimp only at hc
  split at hc
  · cases hc
    exact ⟨rfl, ht.2⟩
  · cases hc

theorem MessageTable.clear (ht : MessageTable t) :
    t.clear = some (nvTableInit t.size lmVMax t.borrowed) := by
  unfold NVTable.clear
  rw [if_pos ht.1, ht.2]
  obtain ⟨size, used, refCnt, borrowed, statics, dyns, entries⟩ := t
  obtain ⟨rfl, -⟩ := ht
  rfl

theorem getValue_init (size : Nat) (borrowed : Bool) (handle : Nat) :
    (nvTableInit size lmVMax borrowed).getValue handle = some [] := by
  have hnone : ((nvTableInit size lmVMax borrowed).getEntry handle).1 = none := by
    unfold NVTable.getEntry
    split
    · rfl
    split
    · show NVTable.entryAtOfs (((replicate (lmVMax % 2 ^ 8) 0)[handle - 1]?).getD 0) = none
      rw [getElem?_replicate]
      split <;> rfl
    · rfl
  unfold NVTable.getValue NVTable.getValueDepth
  rw [hnone]

end

/-! ## Heaps -/

structure HeapOk (h : LogHeap NVTable) : Prop where
  sound : Sound h
  tables : Everywhere (fun t _ => MessageTable t) h

section

variable {h h' : LogHeap NVTable} {m : Nat} {msg : LogMessage} {registry : LogMsgRegistry}

theorem MessageTable.writable {a : Shown NVTable} {space : Nat} {t : NVTable}
    (ht : MessageTable a.payload) (hw : a.writable nvTableOps space = some t) : MessageTable t := by
  unfold Shown.writable at hw
  split at hw
  · cases hw
    exact ht
  · exact ht.clone hw

theorem MessageTable.step {a a' : Shown NVTable} {u : Update} (ht : MessageTable a.payload)
    (hs : a.step nvTableOps registry u = some a') : MessageTable a'.payload := by
  cases u with
  | value handle bytes =>
    rw [Shown.step] at hs
    split at hs
    · cases hs
      exact ht
    obtain ⟨⟨t, newEntry⟩, hadd, rfl⟩ := map_eq_some_iff.1 hs
    obtain ⟨t0, hw, hadd⟩ := bind_eq_some_iff.1 hadd
    exact (ht.writable hw).addLoop (fun _ _ hr => NVTable.addValueDepth_writes hr) hadd
  | reference handle refHandle type ofs len =>
    rw [Shown.step] at hs
    split at hs
    · cases hs
      exact ht
    split at hs
    · cases hs
    obtain ⟨⟨t, newEntry⟩, hadd, rfl⟩ := map_eq_some_iff.1 hs
    obtain ⟨t0, hw, hadd⟩ := bind_eq_some_iff.1 hadd
    exact (ht.writable hw).addLoop (fun _ _ hr => NVTable.addValueIndirect_writes hr) hadd
  | tag id on =>
    cases hs
    exact ht

theorem HeapOk.step {op : MsgOp} (hi : HeapOk h) (hs : MsgNext nvTableOps registry h op h') :
    HeapOk h' :=
  ⟨hi.sound.step hs, hi.tables.step hi.sound hs fun _ _ _ hstep ht => ht.step hstep⟩

theorem HeapOk.start (size : Nat) (borrowed : Bool) (recvd : LogStamp) :
    HeapOk (logMsgNew (nvTableInit size lmVMax borrowed) recvd) := by
  refine ⟨.start _ recvd, fun {m msg payload} hm hp => ?_⟩
  obtain rfl := mem_singleton.1 (mem_of_getElem? hp)
  exact .init size borrowed

/-! ## A clear -/

theorem or_ownMask_and {x f : BitVec 32} (hf : f &&& ~~~lfStateOwnMask = 0) :
    (x ||| lfStateOwnMask) &&& f = f := by
  ext i hi
  have := congrArg (fun b => b.getLsbD i) hf
  simp at this ⊢
  grind

def clearedMessage (self : LogMessage) (payload : Nat) (tags : LogTags) : LogMessage :=
  { self with
    payload := payload
    tags := tags
    numMatches := 0
    numSdata := 0
    flags := self.flags ||| lfStateOwnMask }

theorem chkFlag_clearedMessage {f : BitVec 32} {payload : Nat} {tags : LogTags}
    (hf : f &&& ~~~lfStateOwnMask = 0) (hne : f ≠ 0) :
    logMsgChkFlag (clearedMessage msg payload tags) f = true := by
  unfold logMsgChkFlag clearedMessage
  rw [or_ownMask_and hf]
  exact decide_eq_true hne

theorem HeapInv.orphan (hi : HeapInv h) (hm : h.msgs[m]? = some msg)
    (hp : logMsgChkFlag msg lfStateOwnPayload = true) (ht : logMsgChkFlag msg lfStateOwnTags = true)
    (hs : logMsgChkFlag msg lfStateOwnSdata = true) :
    HeapInv { h with
      msgs := h.msgs.set m { msg with original := none }
      nodes := msg.original.toList ++ h.nodes } := by
  have hlt := (List.getElem?_eq_some_iff.1 hm).1
  have hholds : ∀ j, LogHeap.holds { h with
      msgs := h.msgs.set m { msg with original := none }
      nodes := msg.original.toList ++ h.nodes } j = h.holds j := by
    intro j
    have hself : h.msgs[m] = msg := (List.getElem?_eq_some_iff.1 hm).2
    have hle : (if msg.original = some j then 1 else 0) ≤
        h.msgs.countP fun c => c.original = some j := by
      have := boole_getElem_le_countP (p := fun c : LogMessage => c.original = some j) hlt
      simpa [hself] using this
    have hcount : ((h.msgs.set m { msg with original := none }).countP fun c => c.original = some j) =
        (h.msgs.countP fun c => c.original = some j) - if msg.original = some j then 1 else 0 := by
      rw [countP_set hlt, hself]
      simp
    unfold LogHeap.holds
    dsimp only
    rw [hcount, count_append]
    cases ho : msg.original with
    | none => simp
    | some o =>
      rw [ho] at hle
      by_cases hoj : o = j
      · subst hoj
        simp only [↓reduceIte, Option.toList_some, count_singleton_self] at hle ⊢
        omega
      · simp [hoj]
  have hget : ∀ {j : Nat} {self : LogMessage},
      (h.msgs.set m { msg with original := none })[j]? = some self → ∃ old, h.msgs[j]? = some old ∧
        old.protectCnt = self.protectCnt ∧ old.tags = self.tags ∧
          (self.original = none ∨ old = self) := by
    intro j self hj
    by_cases hjm : j = m
    · subst hjm
      rw [getElem?_set_self hlt] at hj
      cases hj
      exact ⟨msg, hm, rfl, rfl, .inl rfl⟩
    · rw [getElem?_set_ne (Ne.symm hjm)] at hj
      exact ⟨self, hj, rfl, rfl, .inr rfl⟩
  refine ⟨?_, ?_, ?_, ?_, ?_, ?_, ?_⟩
  · show Owned ((h.msgs.set m { msg with original := none }).map payloadHandle) _
    rw [map_set]
    exact hi.payload.orphan (map_set_getElem hm) hp
  · show Owned ((h.msgs.set m { msg with original := none }).map tagsHandle) _
    rw [map_set]
    exact hi.tags.orphan (map_set_getElem hm) ht
  · show Owned ((h.msgs.set m { msg with original := none }).map sdataHandle) _
    rw [map_set]
    exact hi.sdata.orphan (map_set_getElem hm) hs
  · intro j self hj
    obtain ⟨old, hold, hcnt, -, -⟩ := hget hj
    rw [hholds, ← hcnt]
    exact hi.count hold
  · intro j self hj
    obtain ⟨old, hold, -, -, -⟩ := hget hj
    rw [hholds]
    exact hi.byte hold
  · intro j hj
    show j < (h.msgs.set m { msg with original := none }).length
    rw [length_set]
    have hj : j ∈ h.guards ++ (msg.original.toList ++ h.nodes) := hj
    rcases mem_append.1 hj with hj | hj
    · exact hi.inrange (mem_append_left _ hj)
    rcases mem_append.1 hj with hj | hj
    · exact (hi.payload.parent_lt (map_set_getElem hm) (Option.mem_toList.1 hj)).trans hlt
    · exact hi.inrange (mem_append_right _ hj)
  · intro c o clone orig hc ho horig hw
    obtain ⟨clone', hc', -, hct, hnone | rfl⟩ := hget hc
    · rw [hnone] at ho
      cases ho
    · obtain ⟨orig', ho', -, hot, -⟩ := hget horig
      rw [← hot]
      exact hi.word hc' ho ho' hw

theorem clearPayload_spec (hi : HeapOk h) (hm : h.msgs[m]? = some msg) :
    ∃ payloads payload size borrowed, clearPayload h msg = some (payloads, payload) ∧
      payloads[payload]? = some (nvTableInit size lmVMax borrowed) ∧
      ∀ tags, Touch h.payloads payloads (payloadHandle msg)
        (payloadHandle (clearedMessage msg payload tags)) := by
  have hown : ∀ payload tags,
      logMsgChkFlag (clearedMessage msg payload tags) lfStateOwnPayload = true :=
    fun _ _ => chkFlag_clearedMessage (by decide) (by decide)
  have hlt : msg.payload < h.payloads.length := hi.sound.heap.payload.bound (map_set_getElem hm) rfl
  have hpayload := getElem?_eq_getElem hlt
  generalize h.payloads[msg.payload] = table at hpayload
  unfold clearPayload
  split
  · rename_i hset
    have htable : MessageTable table := hi.tables hm hpayload
    refine ⟨_, _, table.size, table.borrowed, ?_, getElem?_set_self hlt,
      fun tags => .own rfl hset rfl (hown _ _) rfl⟩
    rw [hpayload, Option.bind_some, htable.clear]
    rfl
  · exact ⟨_, _, nvTableGetAllocSize lmVMax 16 256, false, rfl, getElem?_concat_length,
      fun tags => .fresh rfl (hown _ _) rfl⟩

structure TagsCleared (h : LogHeap NVTable) (msg : LogMessage) : Prop where
  array : ArrayOk h msg
  none : ∀ id, logMsgIsTagById h msg id = false

theorem clearTags_spec (hi : HeapOk h) (hm : h.msgs[m]? = some msg) (hc : CanClear msg = true) :
    ∃ tagArrays tags, clearTags h msg = (tagArrays, tags) ∧
      (tags.numTags = 0 → msg.tags.numTags = 0) ∧
      (∀ payload, Touch h.tagArrays tagArrays (tagsHandle msg)
        (tagsHandle (clearedMessage msg payload tags))) ∧
      ∀ h' msg', h'.tagArrays = tagArrays → msg'.tags = tags → TagsCleared h' msg' := by
  have hown : ∀ payload tags,
      logMsgChkFlag (clearedMessage msg payload tags) lfStateOwnTags = true :=
    fun _ _ => chkFlag_clearedMessage (by decide) (by decide)
  unfold CanClear at hc
  unfold clearTags
  cases ht : msg.tags with
  | word word =>
    rw [ht] at hc
    have hzero : word = 0 := by simp at hc; exact hc.1.2
    subst hzero
    refine ⟨h.tagArrays, .word 0, by simp, fun _ => rfl, fun payload => ?_, fun h' msg' _ ht' => ?_⟩
    · exact ⟨rfl, le_refl _, fun _ _ => rfl, .inr ⟨hown payload _, .inl rfl⟩⟩
    · have hok : ArrayOk h' msg' := fun a last ha => by rw [ht'] at ha; cases ha
      refine ⟨hok, fun id => ?_⟩
      unfold logMsgIsTagById
      rw [ht']
      simp
  | array a last =>
    rw [ht] at hc
    have hset : logMsgChkFlag msg lfStateOwnTags = true := by simp at hc; exact hc.1.2
    obtain ⟨words, hw, hlen, hlast⟩ := hi.sound.arrays hm a last ht
    have ha := (List.getElem?_eq_some_iff.1 hw).1
    have hmod : (h.tagArrays.modify a fun words =>
        replicate (last + 1) 0 ++ words.drop (last + 1)) =
          h.tagArrays.set a (replicate (last + 1) 0) := by
      rw [modify_eq_set_getElem?, hw]
      simp [drop_of_length_le hlen.le]
    dsimp only
    rw [if_pos hset, hmod]
    refine ⟨_, _, rfl, fun hnum => (by cases hnum), fun payload => ?_, fun h' msg' harr ht' => ?_⟩
    · refine .own rfl hset ?_ (hown payload _) rfl
      show msg.tags.obj = some a
      rw [ht]
      rfl
    · have hw' : h'.tagArrays[a]? = some (replicate (last + 1) 0) := by
        rw [harr, getElem?_set_self ha]
      have hok : ArrayOk h' msg' := fun a' last' ha' => by
        rw [ht'] at ha'
        cases ha'
        exact ⟨_, hw', length_replicate, hlast⟩
      refine ⟨hok, fun id => ?_⟩
      have hwords := tagWords_array ht' hw' length_replicate
      have hzero : logMsgGetBit ([] ++ replicate (last + 1) 0) id = logMsgGetBit [] id :=
        getBit_append_zeros (last + 1)
      rw [hok.isTag, hwords, ← nil_append (replicate (last + 1) _), hzero]
      simp [logMsgGetBit]

/-- **A clear** that meets the condition: the message shows what a fresh one shows, the others keep
what they show. -/
theorem HeapOk.clear (hi : HeapOk h) (hm : h.msgs[m]? = some msg) (hc : CanClear msg = true) :
    ∃ h', logMsgClear h m = some h' ∧ HeapOk h' ∧
      (∀ j, j ≠ m → contents h' j = contents h j) ∧ ∃ size borrowed, Shows h' m
        ⟨nvTableInit size lmVMax borrowed, true, [], msg.initialParse, fun _ => false⟩ := by
  have hlt := (List.getElem?_eq_some_iff.1 hm).1
  obtain ⟨payloads, payload, size, borrowed, hp, htable, htouch⟩ := clearPayload_spec hi hm
  obtain ⟨tagArrays, tags, ht, hword, htouch', hcleared⟩ := clearTags_spec hi hm hc
  have hcnt : msg.protectCnt = 0 := by
    unfold CanClear at hc
    simp at hc
    exact hc.1.1
  have hsdata : msg.sdata = none ∨ logMsgChkFlag msg lfStateOwnSdata = true := by
    unfold CanClear at hc
    simp at hc
    exact hc.2
  -- first everything but the original
  let msg1 := clearedMessage msg payload tags
  let h1 : LogHeap NVTable := { h with
    msgs := h.msgs.set m msg1
    payloads := payloads
    tagArrays := tagArrays }
  have hu : Updated h h1 m msg msg1 := by
    refine ⟨rfl, rfl, rfl, rfl, htouch tags, htouch' payload, ?_, hword⟩
    refine ⟨rfl, le_refl _, fun _ _ => rfl, .inr ⟨chkFlag_clearedMessage (by decide) (by decide), ?_⟩⟩
    rcases hsdata with hnone | hown
    · exact .inl hnone
    · exact .inr (.inl ⟨hown, rfl⟩)
  have hm1 : h1.msgs[m]? = some msg1 := getElem?_set_self hlt
  have hcleared1 := hcleared h1 msg1 rfl rfl
  have hsound := hi.sound.updated hm hcnt hu hcleared1.array (by
    show (take 0 _).length = 0
    rfl)
  have horphan := hsound.heap.orphan hm1 (chkFlag_clearedMessage (by decide) (by decide))
    (chkFlag_clearedMessage (by decide) (by decide)) (chkFlag_clearedMessage (by decide) (by decide))
  have hset : h1.msgs.set m { msg1 with original := none } =
      h.msgs.set m { msg1 with original := none } := set_set ..
  have hlt1 : m < h1.msgs.length := by rwa [length_set]
  let h' : LogHeap NVTable := { h1 with
    msgs := h1.msgs.set m { msg1 with original := none }
    nodes := msg.original.toList ++ h.nodes }
  have hparts : SameParts msg1 { msg1 with original := none } := ⟨rfl, rfl, rfl, rfl⟩
  have hderived : Derived h1 h' := ⟨rfl, rfl, rfl, fun hj => sameParts_set hm1 hparts hj⟩
  have hshows : Shows h' m
      ⟨nvTableInit size lmVMax borrowed, true, [], msg.initialParse, fun _ => false⟩ := by
    have hown : logMsgChkFlag msg1 lfStateOwnPayload = true :=
      chkFlag_clearedMessage (by decide) (by decide)
    refine ⟨{ msg1 with original := none }, getElem?_set_self hlt1, hcnt, htable, hown, ?_, rfl,
      fun s hs => ?_, rfl, hcleared1.array, hcleared1.none⟩
    · unfold sdataOf
      exact take_zero
    · exact hi.sound.heap.sdata.bound (map_set_getElem hm) hs
  have hother : ∀ j, j ≠ m → contents h' j = contents h j := by
    intro j hne
    rw [← hu.contents_ne hi.sound.heap hm hcnt hne]
    unfold LogMsg.contents
    show ((h1.msgs.set m _)[j]?).map _ = _
    rw [getElem?_set_ne (Ne.symm hne)]
    rfl
  refine ⟨h', ?_, ⟨hsound.derived horphan hderived, hi.tables.of_contents hshows (.init _ _) hother⟩,
    hother, size, borrowed, hshows⟩
  unfold logMsgClear
  rw [hm, Option.bind_some, hp, Option.map_some, ht]
  show _ = some h'
  unfold h'
  rw [hset]
  rfl

/-! ## Updates of a cleared message -/

theorem freshMessage_shows (size : Nat) (borrowed initialParse : Bool) :
    Shows (freshMessage size borrowed initialParse) 0
      ⟨nvTableInit size lmVMax borrowed, true, [], initialParse, fun _ => false⟩ := by
  refine ⟨_, rfl, rfl, rfl, ?_, rfl, rfl, fun s hs => (by cases hs), rfl, ?_, fun id => ?_⟩
  · exact decide_eq_true (show lfStateOwnMask &&& lfStateOwnPayload ≠ 0 by decide)
  · intro a last ha
    cases ha
  · unfold logMsgIsTagById
    simp

theorem updatedContents_eq {a : Shown NVTable} (hs : Shows h m a) (us : List Update) :
    updatedContents registry h m us =
      (exec (Shown.step nvTableOps registry) a us).map fun a => ⟨some a.payload, a.tags, a.sdata⟩ := by
  have hrun := shows_run nvTableOps registry hs us
  unfold updatedContents
  generalize exec (msgStep nvTableOps registry) h (us.map (Update.on m)) = x at hrun
  generalize exec (Shown.step nvTableOps registry) a us = y at hrun
  cases hrun with
  | none => rfl
  | some hshows => exact hshows.contents

theorem updates_others (hi : HeapInv h) {us : List Update}
    (hs : exec (msgStep nvTableOps registry) h (us.map (Update.on m)) = some h') {j : Nat}
    (hne : j ≠ m) : contents h' j = contents h j := by
  induction us generalizing h with
  | nil =>
    cases hs
    rfl
  | cons u us ih =>
    rw [map_cons, exec] at hs
    obtain ⟨h1, hstep, hs⟩ := bind_eq_some_iff.1 hs
    have hfit : Fits h (u.on m) := by cases u <;> rfl
    rw [ih (hi.step ⟨hfit, hstep⟩) hs]
    obtain ⟨msg, msg', hm, hcnt, hu⟩ := update_effect hstep
    exact hu.contents_ne hi hm hcnt hne

theorem HeapOk.next {op : ClearOp} (hi : HeapOk h) (hs : ClearNext registry h op h') : HeapOk h' := by
  cases op with
  | update op => exact hi.step hs
  | clear m =>
    obtain ⟨hc, hs⟩ := hs
    obtain ⟨msg, hm, hc⟩ := (Option.any_eq_true ..).1 hc
    obtain ⟨h1, hclear, hok, -⟩ := hi.clear hm hc
    obtain rfl : h1 = h' := Option.some.inj (hclear.symm.trans hs)
    exact hok

/-- **`log_msg_clear` resets a message**, in every run whose clears meet the condition: no value and
no tag is left, and no structured data; updates of the message have the effect that they have on a
fresh one; nobody else sees the clear or the updates. -/
theorem log_msg_clear_resets {size : Nat} {borrowed : Bool} {recvd : LogStamp}
    {script : List ClearOp}
    (hrun : Run (ClearNext registry) (logMsgNew (nvTableInit size lmVMax borrowed) recvd) script h)
    (hm : h.msgs[m]? = some msg) (hc : CanClear msg = true) :
    ∃ h', logMsgClear h m = some h' ∧ Cleared registry h h' m := by
  have hi : HeapOk h := hrun.invariant (fun _ _ _ hs hi => hi.next hs) (.start size borrowed recvd)
  obtain ⟨h', hclear, hi', hothers, size', borrowed', hshows⟩ := hi.clear hm hc
  refine ⟨h', hclear, ?_, ⟨size', borrowed', msg.initialParse, fun us => ?_⟩, fun us h'' hs j hne => ?_⟩
  · exact ⟨_, hshows.contents, getValue_init size' borrowed'⟩
  · rw [updatedContents_eq hshows, updatedContents_eq (freshMessage_shows ..)]
  · rw [updates_others hi'.sound.heap hs hne, hothers j hne]

theorem clearNext_sound {op : ClearOp} (hs : clearNext registry h op = some h') :
    ClearNext registry h op h' := by
  cases op with
  | update op =>
    rw [clearNext] at hs
    unfold msgNext at hs
    split at hs
    · rename_i hfit
      exact ⟨hfit, hs⟩
    · cases hs
  | clear m =>
    rw [clearNext] at hs
    split at hs
    · rename_i hc
      exact ⟨hc, hs⟩
    · cases hs

end

/-- A clone with a value and an array of tags of its own is cleared, updated and cleared again. -/
theorem log_msg_clear_resets_twice : ∃ h msg h',
    Run (ClearNext plainRegistry) (logMsgNew (nvTableInit 256 lmVMax true) ⟨0, 0, 0⟩)
      [.update (.setValue 0 3 [97]), .update (.setTag 0 70 true), .update (.clone 0 true),
        .update (.setValue 1 3 [98]), .update (.setTag 1 71 true), .clear 1,
        .update (.setTag 1 2 true)] h ∧
    h.msgs[1]? = some msg ∧ logMsgClear h 1 = some h' ∧ Cleared plainRegistry h h' 1 := by
  have hsome := show ((exec (clearNext plainRegistry) (logMsgNew (nvTableInit 256 lmVMax true) ⟨0, 0, 0⟩)
      [.update (.setValue 0 3 [97]), .update (.setTag 0 70 true), .update (.clone 0 true),
        .update (.setValue 1 3 [98]), .update (.setTag 1 71 true), .clear 1,
        .update (.setTag 1 2 true)]).bind fun h => (h.msgs[1]?).map CanClear) = some true by
    decide +kernel
  obtain ⟨h, hexec, hmap⟩ := bind_eq_some_iff.1 hsome
  obtain ⟨msg, hm, hc⟩ := map_eq_some_iff.1 hmap
  have hrun := Run.of_exec (fun _ _ _ => clearNext_sound) hexec
  obtain ⟨h', hclear, hcleared⟩ := log_msg_clear_resets hrun hm hc
  exact ⟨h, msg, h', hrun, hm, hclear, hcleared⟩

/-- A registry of structured data alone. -/
def sdataRegistry : LogMsgRegistry := ⟨fun handle => [46, UInt8.ofNat handle], fun _ => true⟩

/-- A tag in the pointer itself survives; structured data of a cleared clone is written over that of
its original. -/
theorem log_msg_clear_leaves :
    (∃ h h', Run (ClearNext plainRegistry) (logMsgNew (nvTableInit 256 lmVMax true) ⟨0, 0, 0⟩)
        [.update (.setTag 0 3 true)] h ∧
      logMsgClear h 0 = some h' ∧ ¬ Cleared plainRegistry h h' 0) ∧
    ∃ h h', Run (ClearNext sdataRegistry) (logMsgNew (nvTableInit 256 lmVMax true) ⟨0, 0, 0⟩)
        [.update (.setValue 0 100 [97]), .update (.clone 0 false)] h ∧
      logMsgClear h 1 = some h' ∧ ¬ Cleared sdataRegistry h h' 1 := by
  refine ⟨?_, ?_⟩
  · have hsome := show ((exec (clearNext plainRegistry)
        (logMsgNew (nvTableInit 256 lmVMax true) ⟨0, 0, 0⟩) [.update (.setTag 0 3 true)]).bind fun h =>
          (logMsgClear h 0).bind fun h' => (contents h' 0).map fun c => c.tags 3) = some true by
      decide +kernel
    obtain ⟨h, hexec, hsome⟩ := bind_eq_some_iff.1 hsome
    obtain ⟨h', hclear, hsome⟩ := bind_eq_some_iff.1 hsome
    refine ⟨h, h', Run.of_exec (fun _ _ _ => clearNext_sound) hexec, hclear, fun hc => ?_⟩
    obtain ⟨table, hcontents, -⟩ := hc.empty
    rw [hcontents] at hsome
    cases hsome
  · have hsome := show ((exec (clearNext sdataRegistry) (logMsgNew (nvTableInit 256 lmVMax true) ⟨0, 0, 0⟩)
        [.update (.setValue 0 100 [97]), .update (.clone 0 false)]).bind fun h =>
          (logMsgClear h 1).bind fun h' =>
            (exec (msgStep nvTableOps sdataRegistry) h'
              ([Update.value 101 [98]].map (Update.on 1))).map fun h'' =>
                ((contents h 0).map LogContents.sdata, (contents h'' 0).map LogContents.sdata)) =
          some (some [100], some [101]) by decide +kernel
    obtain ⟨h, hexec, hsome⟩ := bind_eq_some_iff.1 hsome
    obtain ⟨h', hclear, hsome⟩ := bind_eq_some_iff.1 hsome
    obtain ⟨h'', hupdate, heq⟩ := map_eq_some_iff.1 hsome
    rw [Prod.mk.injEq] at heq
    refine ⟨h, h', Run.of_exec (fun _ _ _ => clearNext_sound) hexec, hclear, fun hc => ?_⟩
    have hother := hc.others _ h'' hupdate 0 (by decide)
    rw [hother, heq.1] at heq
    cases heq.2

end SyslogNg.LogMsg
