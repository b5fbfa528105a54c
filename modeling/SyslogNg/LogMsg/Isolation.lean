import SyslogNg.LogMsg.Updates
import SyslogNg.Lib.Run

/-!
# Copy-on-write isolation

A message with clones, or in a queue, has a positive `protect_cnt` as long as the 8 bit counter
does not wrap (`HeapInv.count`), and the operations that write refuse it. So no handle that is
written to has children, and `Lib.Ownership` says that nobody else sees the change.
-/

namespace SyslogNg.LogMsg

open Lib Option
open List hiding getElem?_eq_some_iff
open List (getElem?_eq_getElem getElem?_map getElem?_set_ne length_set map_set mem_of_getElem?
  mem_singleton)
open Option (bind_eq_some_iff bind_some map_eq_some_iff map_some some_inj)

variable {P : Type}

/-- The write protections of a message that are in force: of multiplexers, of queue nodes and of
clones. -/
def LogHeap.holds (h : LogHeap P) (m : Nat) : Nat :=
  h.guards.count m + h.nodes.count m + h.msgs.countP fun c => c.original = some m

structure HeapInv (h : LogHeap P) : Prop where
  payload : Owned (h.msgs.map payloadHandle) h.payloads.length
  tags : Owned (h.msgs.map tagsHandle) h.tagArrays.length
  sdata : Owned (h.msgs.map sdataHandle) h.sdataArrays.length
  count : ∀ {m : Nat} {msg : LogMessage}, h.msgs[m]? = some msg → msg.protectCnt = h.holds m
  byte : ∀ {m : Nat} {msg : LogMessage}, h.msgs[m]? = some msg → h.holds m < 2 ^ 8
  inrange : ∀ {m : Nat}, m ∈ h.guards ++ h.nodes → m < h.msgs.length
  /-- A clone leaves the inline word only for an array. -/
  word : ∀ {c o : Nat} {msg orig : LogMessage}, h.msgs[c]? = some msg → msg.original = some o →
    h.msgs[o]? = some orig → msg.tags.numTags = 0 → orig.tags.numTags = 0

section

variable {h h' : LogHeap P} {m : Nat} {msg msg' : LogMessage}

/-! ## What the operations keep -/

theorem map_set_getElem {f : LogMessage → Handle} (hm : h.msgs[m]? = some msg) :
    (h.msgs.map f)[m]? = some (f msg) := by
  rw [getElem?_map, hm]
  rfl

theorem HeapInv.no_clone (hi : HeapInv h) (hm : h.msgs[m]? = some msg) (hcnt : msg.protectCnt = 0)
    {c : Nat} {clone : LogMessage} (hc : h.msgs[c]? = some clone) : clone.original ≠ some m := by
  intro ho
  have hzero := hi.count hm
  rw [hcnt, LogHeap.holds] at hzero
  have hpos : 0 < h.msgs.countP fun c => c.original = some m :=
    countP_pos_iff.2 ⟨clone, mem_of_getElem? hc, decide_eq_true ho⟩
  omega

theorem HeapInv.no_child (hi : HeapInv h) (hm : h.msgs[m]? = some msg) (hcnt : msg.protectCnt = 0)
    {f : LogMessage → Handle} (hf : ∀ msg, (f msg).parent = msg.original) (k : Nat) (e : Handle)
    (he : (h.msgs.map f)[k]? = some e) : e.parent ≠ some m := by
  rw [getElem?_map] at he
  obtain ⟨clone, hc, rfl⟩ := map_eq_some_iff.1 he
  rw [hf]
  exact hi.no_clone hm hcnt hc

theorem countP_set_original (hm : h.msgs[m]? = some msg) (ho : msg'.original = msg.original) (o : Nat) :
    ((h.msgs.set m msg').countP fun c => c.original = some o) = h.msgs.countP fun c => c.original = some o := by
  have hmap : ((h.msgs.set m msg').map LogMessage.original) = h.msgs.map LogMessage.original := by
    rw [map_set, ho, set_of_getElem?]
    rw [getElem?_map, hm]
    rfl
  have hcount : ∀ l : List LogMessage, (l.countP fun c => c.original = some o) =
      (l.map LogMessage.original).countP fun p => p = some o := by
    intro l
    rw [countP_map]
    rfl
  rw [hcount, hcount, hmap]

theorem Updated.holds (hm : h.msgs[m]? = some msg) (hu : Updated h h' m msg msg') (j : Nat) :
    h'.holds j = h.holds j := by
  unfold LogHeap.holds
  rw [hu.nodes, hu.guards, hu.msgs, countP_set_original hm hu.original]

theorem HeapInv.count_set {n : Nat} (hi : HeapInv h) (hm : h.msgs[m]? = some msg)
    (hmsgs : h'.msgs = h.msgs.set m msg') (hself : msg'.protectCnt = h'.holds m)
    (hother : ∀ j, j ≠ m → h'.holds j = h.holds j) {c : LogMessage} (hc : h'.msgs[n]? = some c) :
    c.protectCnt = h'.holds n := by
  rw [hmsgs] at hc
  by_cases hn : n = m
  · subst hn
    rw [getElem?_set_self (List.getElem?_eq_some_iff.1 hm).1] at hc
    cases hc
    exact hself
  · rw [getElem?_set_ne (Ne.symm hn)] at hc
    rw [hother n hn]
    exact hi.count hc

theorem HeapInv.updated (hi : HeapInv h) (hm : h.msgs[m]? = some msg) (hcnt : msg.protectCnt = 0)
    (hu : Updated h h' m msg msg') : HeapInv h' where
  payload := by
    rw [hu.msgs, map_set]
    exact hi.payload.touch (map_set_getElem hm) (hi.no_child hm hcnt fun _ => rfl) hu.payload
  tags := by
    rw [hu.msgs, map_set]
    exact hi.tags.touch (map_set_getElem hm) (hi.no_child hm hcnt fun _ => rfl) hu.tags
  sdata := by
    rw [hu.msgs, map_set]
    exact hi.sdata.touch (map_set_getElem hm) (hi.no_child hm hcnt fun _ => rfl) hu.sdata
  count := by
    intro n c hc
    refine hi.count_set hm hu.msgs ?_ (fun j _ => hu.holds hm j) hc
    rw [hu.protectCnt, hu.holds hm, hi.count hm]
  byte := by
    intro n c hc
    rw [hu.holds hm]
    by_cases hn : n = m
    · exact hn ▸ hi.byte hm
    · rw [hu.getElem_ne hn] at hc
      exact hi.byte hc
  inrange := by
    intro j hj
    rw [hu.guards, hu.nodes] at hj
    rw [hu.msgs, length_set]
    exact hi.inrange hj
  word := by
    intro c o clone orig hc ho horig hw
    have hom : o ≠ m := by
      rintro rfl
      by_cases hcm : c = o
      · subst hcm
        rw [hu.getElem_self hm] at hc
        cases hc
        exact hi.no_clone hm hcnt hm (hu.original ▸ ho)
      · rw [hu.getElem_ne hcm] at hc
        exact hi.no_clone hm hcnt hc ho
    rw [hu.getElem_ne hom] at horig
    by_cases hcm : c = m
    · subst hcm
      rw [hu.getElem_self hm] at hc
      cases hc
      exact hi.word hm (hu.original ▸ ho) horig (hu.word hw)
    · rw [hu.getElem_ne hcm] at hc
      exact hi.word hc ho horig hw

theorem Updated.contents_ne (hi : HeapInv h) (hm : h.msgs[m]? = some msg) (hcnt : msg.protectCnt = 0)
    (hu : Updated h h' m msg msg') {j : Nat} (hne : j ≠ m) : contents h' j = contents h j := by
  unfold contents
  rw [hu.getElem_ne hne]
  cases hj : h.msgs[j]? with
  | none => rfl
  | some other =>
    simp only [map_some, some_inj, contentsOf, LogContents.mk.injEq]
    refine ⟨?_, ?_, ?_⟩
    · exact hi.payload.frame (map_set_getElem hm) (hi.no_child hm hcnt fun _ => rfl) hu.payload
        (map_set_getElem hj) hne rfl
    · funext id
      unfold logMsgIsTagById
      cases ht : other.tags with
      | word w => rfl
      | array a last =>
        have := hi.tags.frame (map_set_getElem hm) (hi.no_child hm hcnt fun _ => rfl) hu.tags
          (map_set_getElem hj) hne (a := a) (by
            show other.tags.obj = some a
            rw [ht]
            rfl)
        simp only [this]
    · cases hs : other.sdata with
      | none => rfl
      | some s =>
        have := hi.sdata.frame (map_set_getElem hm) (hi.no_child hm hcnt fun _ => rfl) hu.sdata
          (map_set_getElem hj) hne (show (sdataHandle other).obj = some s from hs)
        simp only [bind_some, this]

theorem SameShape.contents (hshape : SameShape msg msg') (hm : h.msgs[m]? = some msg)
    (hmsgs : h'.msgs = h.msgs.set m msg') (hp : h'.payloads = h.payloads)
    (ht : h'.tagArrays = h.tagArrays) (hs : h'.sdataArrays = h.sdataArrays) (j : Nat) :
    contents h' j = contents h j := by
  have hmem : ∀ self, contentsOf h' self = contentsOf h self := by
    intro self
    have htags : logMsgIsTagById h' self = logMsgIsTagById h self := by
      funext id
      unfold logMsgIsTagById
      rw [ht]
    unfold contentsOf
    rw [hp, hs, htags]
  unfold LogMsg.contents
  rw [hmsgs]
  by_cases hj : j = m
  · subst hj
    rw [getElem?_set_self (List.getElem?_eq_some_iff.1 hm).1, hm, map_some, map_some, hmem]
    have hpl : msg'.payload = msg.payload :=
      some.inj (congrArg Handle.obj hshape.payload)
    have hsd : msg'.sdata = msg.sdata := congrArg Handle.obj hshape.sdata
    have hns : msg'.numSdata = msg.numSdata := congrArg Handle.len hshape.sdata
    have htags : logMsgIsTagById h msg' = logMsgIsTagById h msg := by
      funext id
      unfold logMsgIsTagById
      rw [hshape.word]
    unfold contentsOf
    rw [hpl, hsd, hns, htags]
  · rw [getElem?_set_ne (Ne.symm hj)]
    exact congrArg (Option.map · _) (funext hmem)

theorem map_set_sameShape {f : LogMessage → Handle} (hm : h.msgs[m]? = some msg) (hf : f msg' = f msg) :
    (h.msgs.set m msg').map f = h.msgs.map f := by
  rw [map_set, hf, set_of_getElem? (map_set_getElem hm)]

theorem HeapInv.word_set (hi : HeapInv h) (hm : h.msgs[m]? = some msg) (hshape : SameShape msg msg')
    {c o : Nat} {clone orig : LogMessage} (hc : (h.msgs.set m msg')[c]? = some clone)
    (ho : clone.original = some o) (horig : (h.msgs.set m msg')[o]? = some orig)
    (hw : clone.tags.numTags = 0) : orig.tags.numTags = 0 := by
  have hold : ∀ {j : Nat} {self : LogMessage}, (h.msgs.set m msg')[j]? = some self →
      ∃ old, h.msgs[j]? = some old ∧ old.original = self.original ∧ old.tags = self.tags := by
    intro j self hj
    by_cases hjm : j = m
    · subst hjm
      rw [getElem?_set_self (List.getElem?_eq_some_iff.1 hm).1] at hj
      cases hj
      exact ⟨msg, hm, (congrArg Handle.parent hshape.payload).symm, hshape.word.symm⟩
    · rw [getElem?_set_ne (Ne.symm hjm)] at hj
      exact ⟨self, hj, rfl, rfl⟩
  obtain ⟨c', hc', hoc, htc⟩ := hold hc
  obtain ⟨o', ho', -, hto⟩ := hold horig
  rw [← hto]
  exact hi.word hc' (hoc.trans ho) ho' (htc ▸ hw)

theorem HeapInv.sameShape (hi : HeapInv h) (hm : h.msgs[m]? = some msg)
    (hshape : SameShape msg msg') (hmsgs : h'.msgs = h.msgs.set m msg')
    (hp : h'.payloads = h.payloads) (ht : h'.tagArrays = h.tagArrays)
    (hs : h'.sdataArrays = h.sdataArrays) (hself : msg'.protectCnt = h'.holds m)
    (hbyte : h'.holds m < 2 ^ 8) (hother : ∀ j, j ≠ m → h'.holds j = h.holds j)
    (hin : ∀ j ∈ h'.guards ++ h'.nodes, j < h.msgs.length) : HeapInv h' where
  payload := by
    rw [hmsgs, hp, map_set_sameShape hm hshape.payload]
    exact hi.payload
  tags := by
    rw [hmsgs, ht, map_set_sameShape hm hshape.tags]
    exact hi.tags
  sdata := by
    rw [hmsgs, hs, map_set_sameShape hm hshape.sdata]
    exact hi.sdata
  count := fun hc => hi.count_set hm hmsgs hself hother hc
  byte := by
    intro n c hc
    by_cases hn : n = m
    · exact hn ▸ hbyte
    · rw [hmsgs, getElem?_set_ne (Ne.symm hn)] at hc
      rw [hother n hn]
      exact hi.byte hc
  inrange := by
    intro j hj
    rw [hmsgs, length_set]
    exact hin j hj
  word := by
    rw [hmsgs]
    exact fun hc ho horig hw => hi.word_set hm hshape hc ho horig hw

theorem sameShape_protect (msg : LogMessage) : SameShape msg (logMsgWriteProtect msg) :=
  ⟨rfl, rfl, rfl, rfl⟩

theorem sameShape_unprotect (msg : LogMessage) : SameShape msg (logMsgWriteUnprotect msg) :=
  ⟨rfl, rfl, rfl, rfl⟩

theorem SameShape.original (hshape : SameShape msg msg') : msg'.original = msg.original :=
  congrArg Handle.parent hshape.payload

theorem count_cons_eq (l : List Nat) (a j : Nat) :
    (a :: l).count j = l.count j + if j = a then 1 else 0 := by
  by_cases hj : j = a
  · subst hj
    rw [count_cons_self, if_pos rfl]
  · rw [count_cons_of_ne (Ne.symm hj), if_neg hj, Nat.add_zero]

theorem HeapInv.protect (hi : HeapInv h) (hm : h.msgs[m]? = some msg) (hfit : msg.protectCnt + 1 < 2 ^ 8)
    (hmsgs : h'.msgs = h.msgs.set m (logMsgWriteProtect msg)) (hp : h'.payloads = h.payloads)
    (ht : h'.tagArrays = h.tagArrays) (hs : h'.sdataArrays = h.sdataArrays)
    (hperm : (h'.guards ++ h'.nodes).Perm (m :: (h.guards ++ h.nodes))) : HeapInv h' := by
  have hholds : ∀ j, h'.holds j = h.holds j + if j = m then 1 else 0 := by
    intro j
    have hcount := hperm.count_eq j
    rw [count_append, count_cons_eq, count_append] at hcount
    unfold LogHeap.holds
    rw [hmsgs, countP_set_original hm (sameShape_protect msg).original, hcount]
    omega
  refine hi.sameShape hm (sameShape_protect msg) hmsgs hp ht hs ?_ ?_ ?_ ?_
  · rw [hholds, if_pos rfl, ← hi.count hm]
    exact Nat.mod_eq_of_lt hfit
  · rw [hholds, if_pos rfl, ← hi.count hm]
    exact hfit
  · intro j hj
    rw [hholds, if_neg hj, Nat.add_zero]
  · intro j hj
    rcases mem_cons.1 (hperm.subset hj) with rfl | hj
    · exact (List.getElem?_eq_some_iff.1 hm).1
    · exact hi.inrange hj

/-! ## Clones -/

/-- The heap after a clone of the message at `t`. -/
def LogHeap.withClone (h : LogHeap P) (t : Nat) (msg : LogMessage) (ackNeeded : Bool) : LogHeap P :=
  { h with msgs := h.msgs.set t (logMsgWriteProtect msg) ++ [cloneOf t msg ackNeeded] }

theorem cloneCow_eq {ackNeeded : Bool} {c : Nat} (hc : logMsgCloneCow h m ackNeeded = some (h', c)) :
    ∃ t msg, cloneTarget h m = some t ∧ h.msgs[t]? = some msg ∧ c = h.msgs.length ∧
      h' = h.withClone t msg ackNeeded := by
  unfold logMsgCloneCow at hc
  obtain ⟨t, ht, hc⟩ := bind_eq_some_iff.1 hc
  obtain ⟨msg, hmsg, heq⟩ := map_eq_some_iff.1 hc
  cases heq
  have hset := @modify_eq_set P h t msg logMsgWriteProtect hmsg
  refine ⟨t, msg, ht, hmsg, ?_, ?_⟩
  · rw [hset, length_set]
  · unfold LogHeap.withClone
    rw [← hset]
    rfl

theorem chkFlag_cloneOf {ackNeeded : Bool} {t : Nat} {g : BitVec 32} (hg : g &&& ~~~lfStateMask = 0)
    (ht : lfStateOwnTags &&& g = 0) : logMsgChkFlag (cloneOf t msg ackNeeded) g = false := by
  have hnone : logMsgChkFlag { msg with flags := msg.flags &&& ~~~lfStateMask } g = false := by
    unfold logMsgChkFlag
    rw [BitVec.and_assoc, BitVec.and_comm _ g, hg]
    simp
  unfold cloneOf
  simp only
  split
  · rw [chkFlag_setFlag_of_disjoint ht]
    exact hnone
  · exact hnone

section

variable {t : Nat} {ackNeeded : Bool}

theorem payloadHandle_cloneOf :
    payloadHandle (cloneOf t msg ackNeeded) = ⟨some t, false, (payloadHandle msg).obj, 0⟩ := by
  unfold payloadHandle
  rw [chkFlag_cloneOf (by decide) (by decide)]
  unfold cloneOf
  simp only
  split
  · rfl
  · rfl

theorem sdataHandle_cloneOf :
    sdataHandle (cloneOf t msg ackNeeded) = ⟨some t, false, (sdataHandle msg).obj, (sdataHandle msg).len⟩ := by
  unfold sdataHandle
  rw [chkFlag_cloneOf (by decide) (by decide)]
  unfold cloneOf
  simp only
  split
  · rfl
  · rfl

theorem cloneOf_fields :
    (cloneOf t msg ackNeeded).original = some t ∧
    (cloneOf t msg ackNeeded).protectCnt = 0 ∧ (cloneOf t msg ackNeeded).tags = msg.tags := by
  unfold cloneOf
  simp only
  split
  · exact ⟨rfl, rfl, rfl⟩
  · exact ⟨rfl, rfl, rfl⟩

theorem tagsHandle_cloneOf :
    (tagsHandle (cloneOf t msg ackNeeded)).own = false ∧
      (tagsHandle (cloneOf t msg ackNeeded)).obj = (tagsHandle msg).obj ∧
      (tagsHandle (cloneOf t msg ackNeeded)).len = (tagsHandle msg).len ∨
    (tagsHandle (cloneOf t msg ackNeeded)).own = true ∧ (tagsHandle (cloneOf t msg ackNeeded)).obj = none := by
  have htags := (@cloneOf_fields msg t ackNeeded).2.2
  cases ht : msg.tags with
  | word w =>
    refine .inr ⟨?_, ?_⟩
    · show logMsgChkFlag (cloneOf t msg ackNeeded) lfStateOwnTags = true
      unfold cloneOf
      simp only
      rw [if_pos (by rw [ht]; rfl)]
      exact chkFlag_setFlag (by decide)
    · show (cloneOf t msg ackNeeded).tags.obj = none
      rw [htags, ht]
      rfl
  | array a last =>
    refine .inl ⟨?_, ?_, ?_⟩
    · show logMsgChkFlag (cloneOf t msg ackNeeded) lfStateOwnTags = false
      unfold cloneOf
      simp only
      rw [if_neg (by rw [ht]; exact Nat.succ_ne_zero last)]
      unfold logMsgChkFlag
      rw [BitVec.and_assoc, show ~~~lfStateMask &&& lfStateOwnTags = 0 by decide]
      simp
    · show (cloneOf t msg ackNeeded).tags.obj = msg.tags.obj
      rw [htags]
    · show (cloneOf t msg ackNeeded).tags.numTags = msg.tags.numTags
      rw [htags]

theorem withClone_getElem {j : Nat} {self : LogMessage}
    (hj : (h.withClone t msg ackNeeded).msgs[j]? = some self) :
    (h.msgs.set t (logMsgWriteProtect msg))[j]? = some self ∨
      j = h.msgs.length ∧ self = cloneOf t msg ackNeeded := by
  change (h.msgs.set t (logMsgWriteProtect msg) ++ [cloneOf t msg ackNeeded])[j]? = _ at hj
  rcases lt_or_ge j h.msgs.length with hlt | hge
  · rw [getElem?_append_left (by rwa [length_set])] at hj
    exact .inl hj
  · rw [getElem?_append_right (by rwa [length_set]), length_set] at hj
    obtain ⟨hz, heq⟩ := List.getElem?_eq_some_iff.1 hj
    rw [length_singleton] at hz
    rw [getElem_singleton] at heq
    exact .inr ⟨by omega, heq.symm⟩

theorem holds_withClone (hm : h.msgs[t]? = some msg) (j : Nat) :
    (h.withClone t msg ackNeeded).holds j = h.holds j + if j = t then 1 else 0 := by
  unfold LogHeap.holds LogHeap.withClone
  simp only
  have hold := countP_set_original hm (show (logMsgWriteProtect msg).original = _ from rfl) j
  rw [countP_append, hold, countP_singleton, cloneOf_fields.1, ← Nat.add_assoc]
  by_cases hjt : j = t
  · subst hjt
    rw [if_pos rfl, if_pos (decide_eq_true rfl)]
  · rw [if_neg hjt, if_neg]
    simpa using Ne.symm hjt

theorem HeapInv.holds_length (hi : HeapInv h) : h.holds h.msgs.length = 0 := by
  have hnot : h.msgs.length ∉ h.guards ++ h.nodes := fun hmem => lt_irrefl _ (hi.inrange hmem)
  rw [mem_append, not_or] at hnot
  have hzero : (h.msgs.countP fun c => c.original = some h.msgs.length) = 0 := by
    rw [countP_eq_zero]
    intro c hc ho
    obtain ⟨k, hk, rfl⟩ := getElem_of_mem hc
    have := hi.payload.parent_lt (map_set_getElem (getElem?_eq_getElem hk)) (of_decide_eq_true ho)
    omega
  unfold LogHeap.holds
  rw [count_eq_zero.2 hnot.1, count_eq_zero.2 hnot.2, hzero]

theorem HeapInv.clone (hi : HeapInv h) (hm : h.msgs[t]? = some msg) (hfit : msg.protectCnt + 1 < 2 ^ 8) :
    HeapInv (h.withClone t msg ackNeeded) := by
  have hlt := (List.getElem?_eq_some_iff.1 hm).1
  have hmap : ∀ {f : LogMessage → Handle}, f (logMsgWriteProtect msg) = f msg →
      (h.withClone t msg ackNeeded).msgs.map f = h.msgs.map f ++ [f (cloneOf t msg ackNeeded)] := by
    intro f hf
    show (h.msgs.set t (logMsgWriteProtect msg) ++ [cloneOf t msg ackNeeded]).map f = _
    rw [map_append, map_set_sameShape hm hf, map_singleton]
  constructor
  · rw [hmap (sameShape_protect msg).payload]
    refine hi.payload.append (map_set_getElem hm) cloneOf_fields.1 (.inl ?_)
    rw [payloadHandle_cloneOf]
    exact ⟨rfl, rfl, rfl⟩
  · rw [hmap (sameShape_protect msg).tags]
    exact hi.tags.append (map_set_getElem hm) cloneOf_fields.1 tagsHandle_cloneOf
  · rw [hmap (sameShape_protect msg).sdata]
    refine hi.sdata.append (map_set_getElem hm) cloneOf_fields.1 (.inl ?_)
    rw [sdataHandle_cloneOf]
    exact ⟨rfl, rfl, rfl⟩
  · intro j self hj
    rw [holds_withClone hm]
    rcases withClone_getElem hj with hj | ⟨rfl, rfl⟩
    · by_cases hjt : j = t
      · subst hjt
        rw [getElem?_set_self hlt] at hj
        cases hj
        rw [if_pos rfl, ← hi.count hm]
        exact Nat.mod_eq_of_lt hfit
      · rw [getElem?_set_ne (Ne.symm hjt)] at hj
        rw [if_neg hjt, ← hi.count hj, Nat.add_zero]
    · rw [cloneOf_fields.2.1, hi.holds_length, if_neg (by omega)]
  · intro j self hj
    rw [holds_withClone hm]
    rcases withClone_getElem hj with hj | ⟨rfl, rfl⟩
    · by_cases hjt : j = t
      · subst hjt
        rw [if_pos rfl, ← hi.count hm]
        exact hfit
      · rw [getElem?_set_ne (Ne.symm hjt)] at hj
        rw [if_neg hjt]
        exact hi.byte hj
    · rw [hi.holds_length, if_neg (by omega)]
      decide
  · intro j hj
    show j < (h.msgs.set t (logMsgWriteProtect msg) ++ [cloneOf t msg ackNeeded]).length
    rw [length_append, length_set]
    exact (hi.inrange hj).trans_le (Nat.le_add_right _ _)
  · intro c o clone orig hc ho horig hw
    have horig' : (h.msgs.set t (logMsgWriteProtect msg))[o]? = some orig := by
      rcases withClone_getElem horig with horig | ⟨rfl, -⟩
      · exact horig
      · exfalso
        rcases withClone_getElem hc with hc | ⟨-, rfl⟩
        · have hlt' := hi.payload.parent_lt (i := c) (c := payloadHandle clone) (by
            rw [← map_set_sameShape hm (sameShape_protect msg).payload, getElem?_map, hc]
            rfl) ho
          have := (List.getElem?_eq_some_iff.1 hc).1
          rw [length_set] at this
          omega
        · rw [cloneOf_fields.1, some_inj] at ho
          omega
    rcases withClone_getElem hc with hc | ⟨-, rfl⟩
    · exact hi.word_set hm (sameShape_protect msg) hc ho horig' hw
    · rw [cloneOf_fields.1, some_inj] at ho
      subst ho
      rw [getElem?_set_self hlt] at horig'
      cases horig'
      rw [cloneOf_fields.2.2] at hw
      exact hw

theorem contents_withClone (hm : h.msgs[t]? = some msg) :
    contents (h.withClone t msg ackNeeded) h.msgs.length = some (contentsOf h msg) ∧
      ∀ j, j < h.msgs.length → contents (h.withClone t msg ackNeeded) j = contents h j := by
  constructor
  · have hpl : (cloneOf t msg ackNeeded).payload = msg.payload :=
      some.inj (congrArg Handle.obj payloadHandle_cloneOf)
    have hsd : (cloneOf t msg ackNeeded).sdata = msg.sdata :=
      congrArg Handle.obj sdataHandle_cloneOf
    have hns : (cloneOf t msg ackNeeded).numSdata = msg.numSdata :=
      congrArg Handle.len sdataHandle_cloneOf
    have htags : logMsgIsTagById (h.withClone t msg ackNeeded) (cloneOf t msg ackNeeded) =
        logMsgIsTagById h msg := by
      funext id
      unfold logMsgIsTagById
      rw [cloneOf_fields.2.2]
      rfl
    have hlast : (h.withClone t msg ackNeeded).msgs[h.msgs.length]? =
        some (cloneOf t msg ackNeeded) := by
      show (h.msgs.set t (logMsgWriteProtect msg) ++ [cloneOf t msg ackNeeded])[h.msgs.length]? = _
      rw [getElem?_append_right (by rw [length_set]), length_set, Nat.sub_self]
      rfl
    unfold contents
    rw [hlast, map_some, some_inj]
    unfold contentsOf
    rw [hpl, hsd, hns, htags]
    rfl
  · intro j hj
    have hkeep := @SameShape.contents P h { h with msgs := h.msgs.set t (logMsgWriteProtect msg) } t
      msg _ (sameShape_protect msg) hm rfl rfl rfl rfl j
    rw [← hkeep]
    unfold contents
    show Option.map _ (h.msgs.set t (logMsgWriteProtect msg) ++ [cloneOf t msg ackNeeded])[j]? = _
    rw [getElem?_append_left (by rwa [length_set])]
    rfl

end

/-! ## Steps -/

inductive Effect (h : LogHeap P) (op : MsgOp) : LogHeap P → Prop where
  | write {m : Nat} {msg msg' : LogMessage} {h' : LogHeap P} : op.updates = some m →
      h.msgs[m]? = some msg → msg.protectCnt = 0 → Updated h h' m msg msg' → Effect h op h'
  | idle : op.updates = none → op.guardsAfter h.guards = h.guards → Effect h op h
  | field {m : Nat} {msg msg' : LogMessage} : op.updates = none →
      op.guardsAfter h.guards = h.guards → h.msgs[m]? = some msg → SameShape msg msg' →
      msg'.protectCnt = msg.protectCnt → op.setsField = some m ∨ msg'.scalars = msg.scalars →
      Effect h op { h with msgs := h.msgs.set m msg' }
  | node {m : Nat} {msg : LogMessage} : op = .queue m → h.msgs[m]? = some msg →
      Effect h op { h with msgs := h.msgs.set m (logMsgWriteProtect msg), nodes := m :: h.nodes }
  | guard {m : Nat} {msg : LogMessage} : op = .guard m → h.msgs[m]? = some msg →
      Effect h op { h with msgs := h.msgs.set m (logMsgWriteProtect msg), guards := m :: h.guards }
  | unguard {m : Nat} {guards : List Nat} : op = .unguard m → h.guards = m :: guards →
      Effect h op { h.modify m logMsgWriteUnprotect with guards := guards }
  | clone {m t : Nat} {msg : LogMessage} {ackNeeded : Bool} :
      op = .clone m ackNeeded ∨ op = .makeWritable m ackNeeded → cloneTarget h m = some t →
      op.protects h = some t → h.msgs[t]? = some msg → Effect h op (h.withClone t msg ackNeeded)

variable {f : LogMessage → LogMessage}

theorem modify_of_none (hm : h.msgs[m]? = none) : h.modify m f = h := by
  unfold LogHeap.modify
  rw [modify_eq_self (getElem?_eq_none_iff.1 hm)]

theorem Effect.of_modify {op : MsgOp} (hop : op.updates = none) (hg : op.guardsAfter h.guards = h.guards)
    (hf : ∀ msg, SameShape msg (f msg) ∧ (f msg).protectCnt = msg.protectCnt)
    (hfield : op.setsField = some m ∨ ∀ msg, (f msg).scalars = msg.scalars) :
    Effect h op (h.modify m f) := by
  cases hm : h.msgs[m]? with
  | none =>
    rw [modify_of_none hm]
    exact .idle hop hg
  | some msg =>
    have hset : h.modify m f = { h with msgs := h.msgs.set m (f msg) } := by
      rw [← modify_eq_set hm]
      rfl
    rw [hset]
    exact .field hop hg hm (hf msg).1 (hf msg).2 (hfield.imp_right fun hs => hs msg)

theorem modify_eq (hm : h.msgs[m]? = some msg) :
    h.modify m f = { h with msgs := h.msgs.set m (f msg) } := by
  rw [← modify_eq_set hm]
  rfl

theorem msgStep_effect {ops : PayloadOps P} {registry : LogMsgRegistry} {op : MsgOp}
    (hs : msgStep ops registry h op = some h') : Effect h op h' := by
  have hflags : ∀ flags (msg : LogMessage) (b : Bool), SameShape msg { msg with
      flags := msg.flags &&& lfStateMask ||| flags &&& ~~~lfStateMask, initialParse := b } := by
    intro flags msg b
    have hchk : ∀ g, g &&& ~~~lfStateMask = 0 → logMsgChkFlag { msg with
        flags := msg.flags &&& lfStateMask ||| flags &&& ~~~lfStateMask, initialParse := b } g =
          logMsgChkFlag msg g := by
      intro g hg
      unfold logMsgChkFlag
      rw [and_or_and_not hg]
    refine ⟨?_, ?_, ?_, rfl⟩
    · unfold payloadHandle
      rw [hchk _ (by decide)]
    · unfold tagsHandle
      rw [hchk _ (by decide)]
    · unfold sdataHandle
      rw [hchk _ (by decide)]
  cases op with
  | setValue m handle value =>
    obtain ⟨msg, msg', hm, hcnt, hu⟩ := updated_setValue hs
    exact .write rfl hm hcnt hu
  | setValueIndirect m handle refHandle type ofs len =>
    obtain ⟨msg, msg', hm, hcnt, hu⟩ := updated_setValueIndirect hs
    exact .write rfl hm hcnt hu
  | setTag m id on =>
    obtain ⟨msg, msg', hm, hcnt, hu⟩ := updated_setTag hs
    exact .write rfl hm hcnt hu
  | setPri m pri =>
    cases hs
    exact .of_modify rfl rfl (fun msg => ⟨⟨rfl, rfl, rfl, rfl⟩, rfl⟩) (.inl rfl)
  | setStamps m stamp recvd =>
    cases hs
    exact .of_modify rfl rfl (fun msg => ⟨⟨rfl, rfl, rfl, rfl⟩, rfl⟩) (.inl rfl)
  | setFlags m flags initialParse =>
    cases hs
    exact .of_modify rfl rfl (fun msg => ⟨hflags flags msg initialParse, rfl⟩) (.inl rfl)
  | addAck m ackNeeded =>
    cases hs
    cases ackNeeded with
    | false => exact .idle rfl rfl
    | true =>
      exact .of_modify rfl rfl (fun msg => ⟨⟨rfl, rfl, rfl, rfl⟩, rfl⟩) (.inr fun msg => rfl)
  | clone m ackNeeded =>
    obtain ⟨⟨h1, c⟩, hc, rfl⟩ := map_eq_some_iff.1 hs
    obtain ⟨t, msg, ht, hmsg, -, rfl⟩ := cloneCow_eq hc
    exact .clone (.inl rfl) ht ht hmsg
  | makeWritable m ackNeeded =>
    obtain ⟨⟨h1, c⟩, hc, rfl⟩ := map_eq_some_iff.1 hs
    unfold logMsgMakeWritable at hc
    obtain ⟨self, hself, hc⟩ := bind_eq_some_iff.1 hc
    split at hc
    · rename_i hprot
      obtain ⟨t, msg, ht, hmsg, -, rfl⟩ := cloneCow_eq hc
      refine .clone (.inr rfl) ht ?_ hmsg
      show (h.msgs[m]?).bind _ = some t
      rw [hself, bind_some, if_pos hprot, ht]
    · cases hc
      exact .idle rfl rfl
  | queue m =>
    obtain ⟨msg, hm, rfl⟩ := map_eq_some_iff.1 hs
    rw [modify_eq hm]
    exact .node rfl hm
  | guard m =>
    obtain ⟨msg, hm, rfl⟩ := map_eq_some_iff.1 hs
    rw [modify_eq hm]
    exact .guard rfl hm
  | unguard m =>
    rw [msgStep] at hs
    split at hs
    · rename_i hhead
      cases hs
      cases hg : h.guards with
      | nil =>
        rw [hg] at hhead
        cases hhead
      | cons g guards =>
        rw [hg] at hhead
        cases hhead
        exact .unguard rfl hg
    · cases hs

theorem Fits.counter {op : MsgOp} {t : Nat} (hfit : Fits h op) (ht : op.protects h = some t)
    (hm : h.msgs[t]? = some msg) : msg.protectCnt + 1 < 2 ^ 8 := by
  unfold Fits at hfit
  rw [ht, bind_some, hm, all_some] at hfit
  exact of_decide_eq_true hfit

/-- **A step keeps the invariant**, if the counter does not wrap. -/
theorem HeapInv.step {ops : PayloadOps P} {registry : LogMsgRegistry} {op : MsgOp} (hi : HeapInv h)
    (hs : MsgNext ops registry h op h') : HeapInv h' := by
  obtain ⟨hfit, hs⟩ := hs
  replace hfit := fun t msg => @Fits.counter P h msg op t hfit
  cases msgStep_effect hs with
  | write hop hm hcnt hu => exact hi.updated hm hcnt hu
  | idle => exact hi
  | @field m msg msg' hop hg hm hshape hcnt =>
    have hholds : ∀ j, LogHeap.holds { h with msgs := h.msgs.set m msg' } j = h.holds j := by
      intro j
      unfold LogHeap.holds
      rw [countP_set_original hm hshape.original]
    refine hi.sameShape hm hshape rfl rfl rfl rfl ?_ ?_ (fun j _ => hholds j) fun j => hi.inrange
    · rw [hholds, hcnt, hi.count hm]
    · rw [hholds]
      exact hi.byte hm
  | @node m msg hop hm =>
    refine hi.protect hm (hfit m msg (by rw [hop]; rfl) hm) rfl rfl rfl rfl ?_
    exact perm_middle
  | @guard m msg hop hm =>
    exact hi.protect hm (hfit m msg (by rw [hop]; rfl) hm) rfl rfl rfl rfl (List.Perm.refl _)
  | @unguard m guards hop hg =>
    have hlt : m < h.msgs.length := hi.inrange (by rw [hg]; exact mem_cons_self)
    have hm := getElem?_eq_getElem hlt
    generalize h.msgs[m] = msg at hm
    have hholds : ∀ j, LogHeap.holds { h with
        msgs := h.msgs.set m (logMsgWriteUnprotect msg), guards := guards } j +
          (if j = m then 1 else 0) = h.holds j := by
      intro j
      unfold LogHeap.holds
      rw [countP_set_original hm (sameShape_unprotect msg).original, hg, count_cons_eq]
      dsimp only
      omega
    have hself := hholds m
    rw [if_pos rfl] at hself
    have hbyte := hi.byte hm
    have hcnt := hi.count hm
    rw [modify_eq hm]
    refine hi.sameShape hm (sameShape_unprotect msg) rfl rfl rfl rfl ?_ ?_ ?_ ?_
    · show (msg.protectCnt + (2 ^ 8 - 1)) % 2 ^ 8 = LogHeap.holds { h with
        msgs := h.msgs.set m (logMsgWriteUnprotect msg), guards := guards } m
      omega
    · show LogHeap.holds { h with
        msgs := h.msgs.set m (logMsgWriteUnprotect msg), guards := guards } m < 2 ^ 8
      omega
    · intro j hj
      have := hholds j
      rw [if_neg hj] at this
      exact this
    · intro j hj
      apply hi.inrange
      rw [hg]
      exact mem_cons_of_mem _ hj
  | clone hop ht hprot hm => exact hi.clone hm (hfit _ _ hprot hm)

end

theorem HeapInv.start (payload : P) (recvd : LogStamp) : HeapInv (logMsgNew payload recvd) := by
  have hone : ∀ {f : LogMessage → Handle} {size : Nat},
      (∀ msg ∈ (logMsgNew payload recvd).msgs, (f msg).parent = none ∧ (f msg).own = true ∧
        ∀ a, (f msg).obj = some a → a < size) →
      Owned ((logMsgNew payload recvd).msgs.map f) size := by
    intro f size hf
    have hget : ∀ {i : Nat} {c : Handle}, ((logMsgNew payload recvd).msgs.map f)[i]? = some c →
        i = 0 ∧ c.parent = none ∧ c.own = true ∧ ∀ a, c.obj = some a → a < size := by
      intro i c hi
      rw [getElem?_map] at hi
      obtain ⟨msg, hmsg, rfl⟩ := map_eq_some_iff.1 hi
      refine ⟨?_, hf msg (mem_of_getElem? hmsg)⟩
      have := (List.getElem?_eq_some_iff.1 hmsg).1
      exact Nat.lt_one_iff.1 this
    refine ⟨?_, ?_, ?_, ?_⟩
    · intro i c p hi hp
      rw [(hget hi).2.1] at hp
      cases hp
    · intro i c hi hown
      rw [(hget hi).2.2.1] at hown
      cases hown
    · intro i j a c d hi hj _ _ _ _
      rw [(hget hi).1, (hget hj).1]
    · intro i a c hi ha
      exact (hget hi).2.2.2 a ha
  refine ⟨hone ?_, hone ?_, hone ?_, ?_, ?_, ?_, ?_⟩
  · intro msg hmsg
    cases mem_singleton.1 hmsg
    refine ⟨rfl, ?_, fun a ha => by cases ha; exact Nat.zero_lt_one⟩
    exact decide_eq_true (show lfStateOwnMask &&& lfStateOwnPayload ≠ 0 by decide)
  · intro msg hmsg
    cases mem_singleton.1 hmsg
    refine ⟨rfl, ?_, fun a ha => by cases ha⟩
    exact decide_eq_true (show lfStateOwnMask &&& lfStateOwnTags ≠ 0 by decide)
  · intro msg hmsg
    cases mem_singleton.1 hmsg
    refine ⟨rfl, ?_, fun a ha => by cases ha⟩
    exact decide_eq_true (show lfStateOwnMask &&& lfStateOwnSdata ≠ 0 by decide)
  · intro m msg hm
    cases mem_singleton.1 (mem_of_getElem? hm)
    rfl
  · intro m msg hm
    exact Nat.zero_lt_succ _
  · intro m hm
    cases hm
  · intro c o msg orig hc ho
    cases mem_singleton.1 (mem_of_getElem? hc)
    cases ho

section

variable {ops : PayloadOps P} {registry : LogMsgRegistry} {h h' : LogHeap P}

theorem run_of_exec {script : List MsgOp} (hs : exec (msgNext ops registry) h script = some h') :
    Run (MsgNext ops registry) h script h' := by
  refine Run.of_exec (fun h op h' hs => ?_) hs
  unfold msgNext at hs
  split at hs
  · rename_i hfit
    exact ⟨hfit, hs⟩
  · cases hs

theorem HeapInv.run {script : List MsgOp} (hi : HeapInv h) (hrun : Run (MsgNext ops registry) h script h') :
    HeapInv h' :=
  hrun.invariant (fun _ _ _ hs hi => hi.step hs) hi

theorem HeapInv.isWriteProtected (hi : HeapInv h) {m : Nat} {msg : LogMessage}
    (hm : h.msgs[m]? = some msg) (hpos : 0 < h.holds m) : logMsgIsWriteProtected msg = true := by
  unfold logMsgIsWriteProtected
  rw [hi.count hm]
  exact decide_eq_true hpos

theorem HeapInv.queued (hi : HeapInv h) {m : Nat} (hm : m ∈ h.nodes) :
    ∃ msg, h.msgs[m]? = some msg ∧ logMsgIsWriteProtected msg = true := by
  have hlt := hi.inrange (mem_append_right h.guards hm)
  refine ⟨_, getElem?_eq_getElem hlt, hi.isWriteProtected (getElem?_eq_getElem hlt) ?_⟩
  have := count_pos_iff.2 hm
  unfold LogHeap.holds
  omega

theorem HeapInv.cloned (hi : HeapInv h) {c o : Nat} {clone : LogMessage} (hc : h.msgs[c]? = some clone)
    (ho : clone.original = some o) : ∃ msg, h.msgs[o]? = some msg ∧ logMsgIsWriteProtected msg = true := by
  have hlt : o < h.msgs.length :=
    (hi.payload.parent_lt (map_set_getElem hc) ho).trans (List.getElem?_eq_some_iff.1 hc).1
  refine ⟨_, getElem?_eq_getElem hlt, hi.isWriteProtected (getElem?_eq_getElem hlt) ?_⟩
  have : 0 < h.msgs.countP fun c => c.original = some o :=
    countP_pos_iff.2 ⟨clone, mem_of_getElem? hc, decide_eq_true ho⟩
  unfold LogHeap.holds
  omega

/-- **Copy-on-write isolation.** In every run in which no `protect_cnt` wraps, an update of one
message changes nothing that is observed through the other messages, or through a queue; whoever is
queued, or is the original of a clone, is write protected. -/
theorem log_msg_cow_isolation {payload : P} {recvd : LogStamp} {script : List MsgOp}
    (hrun : Run (MsgNext ops registry) (logMsgNew payload recvd) script h) :
    (∀ op m h', op.updates = some m → msgStep ops registry h op = some h' →
      ∀ m', m' ≠ m ∨ m' ∈ h.nodes → contents h' m' = contents h m') ∧
    (∀ m ∈ h.nodes, ∃ msg, h.msgs[m]? = some msg ∧ logMsgIsWriteProtected msg = true) ∧
    ∀ (c o : Nat) (clone : LogMessage), h.msgs[c]? = some clone → clone.original = some o →
      ∃ msg, h.msgs[o]? = some msg ∧ logMsgIsWriteProtected msg = true := by
  have hi := (HeapInv.start payload recvd).run hrun
  refine ⟨?_, fun m hm => hi.queued hm, fun c o clone hc ho => hi.cloned hc ho⟩
  intro op m h' hop hs m' hm'
  cases msgStep_effect hs with
  | @write m1 msg msg' _ hop1 hm hcnt hu =>
    obtain rfl : m1 = m := some.inj (hop1.symm.trans hop)
    refine hu.contents_ne hi hm hcnt ?_
    rintro rfl
    -- a queued message is write protected, so it was not written
    rcases hm' with hne | hq
    · exact hne rfl
    · obtain ⟨msg1, hm1, hprot⟩ := hi.queued hq
      rw [hm, some_inj] at hm1
      subst hm1
      unfold logMsgIsWriteProtected at hprot
      rw [hcnt] at hprot
      cases hprot
  | idle => rfl
  | field hnone =>
    rw [hnone] at hop
    cases hop
  | node heq =>
    rw [heq] at hop
    cases hop
  | guard heq =>
    rw [heq] at hop
    cases hop
  | unguard heq =>
    rw [heq] at hop
    cases hop
  | clone heq =>
    rcases heq with rfl | rfl
    · cases hop
    · cases hop

end

/-- The registry of the examples below: no structured data, names of one byte. -/
def plainRegistry : LogMsgRegistry := ⟨fun _ => [110], fun _ => false⟩

/-- A message in a queue, a clone with a tag and a value of its own: the message keeps what it
holds. -/
theorem log_msg_cow_isolation_tagged : ∃ h h',
    Run (MsgNext nvTableOps plainRegistry) (logMsgNew (NameValue.nvTableNew 9 16 256) ⟨0, 0, 0⟩)
      [.setValue 0 3 [97], .queue 0, .makeWritable 0 true, .setTag 1 70 true] h ∧
    msgStep nvTableOps plainRegistry h (.setValue 1 3 [98]) = some h' ∧
    contents h' 0 = contents h 0 := by
  have hsome := show ((exec (msgNext nvTableOps plainRegistry)
      (logMsgNew (NameValue.nvTableNew 9 16 256) ⟨0, 0, 0⟩)
      [.setValue 0 3 [97], .queue 0, .makeWritable 0 true, .setTag 1 70 true]).bind fun h =>
        msgStep nvTableOps plainRegistry h (.setValue 1 3 [98])).isSome = true by decide +kernel
  obtain ⟨h', hbind⟩ := isSome_iff_exists.1 hsome
  obtain ⟨h, hexec, hstep⟩ := bind_eq_some_iff.1 hbind
  have hrun := run_of_exec hexec
  exact ⟨h, h', hrun, hstep, (log_msg_cow_isolation hrun).1 _ 1 h' rfl hstep 0 (.inl (by decide))⟩

/-- A clone that has no content of its own is not write protected when it is cloned. -/
theorem log_msg_clone_unprotected : ∃ h,
    exec (msgStep nvTableOps plainRegistry) (logMsgNew (NameValue.nvTableNew 9 16 256) ⟨0, 0, 0⟩)
      [.clone 0 true, .clone 1 true] = some h ∧
    (h.msgs[1]?).map logMsgIsWriteProtected = some false := by
  have h := show ((exec (msgStep nvTableOps plainRegistry)
      (logMsgNew (NameValue.nvTableNew 9 16 256) ⟨0, 0, 0⟩) [.clone 0 true, .clone 1 true]).bind
        fun h => (h.msgs[1]?).map logMsgIsWriteProtected) = some false by decide +kernel
  exact bind_eq_some_iff.1 h

end SyslogNg.LogMsg
