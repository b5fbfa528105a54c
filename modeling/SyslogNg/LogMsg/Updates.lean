import SyslogNg.LogMsg.Message
import SyslogNg.Lib.Ownership

/-!
# What a write to a message changes

Payload, tags and structured data of a message are handles in the sense of `Lib.Ownership`, each
with its own flag. `Updated`: an operation that writes changes one message, and only the objects
that this message owns.
-/

namespace SyslogNg.LogMsg

open Lib Option

variable {P : Type}

/-! ## Flags -/

section

variable {self : LogMessage} {f g x y : BitVec 32}

theorem or_and_self : (x ||| f) &&& f = f := by
  ext i hi
  simp only [BitVec.getElem_and, BitVec.getElem_or]
  grind

theorem or_and_of_disjoint (h : f &&& g = 0) : (x ||| f) &&& g = x &&& g := by
  ext i hi
  have := congrArg (fun b => b.getLsbD i) h
  simp at this ⊢
  grind

theorem and_not_and_of_disjoint (h : f &&& g = 0) : x &&& ~~~f &&& g = x &&& g := by
  ext i hi
  have := congrArg (fun b => b.getLsbD i) h
  simp at this ⊢
  grind

theorem and_or_and_not (h : g &&& ~~~f = 0) : (x &&& f ||| y &&& ~~~f) &&& g = x &&& g := by
  ext i hi
  have := congrArg (fun b => b.getLsbD i) h
  simp at this ⊢
  grind

theorem chkFlag_setFlag (h : f ≠ 0) : logMsgChkFlag (logMsgSetFlag self f) f = true := by
  unfold logMsgChkFlag logMsgSetFlag
  rw [or_and_self]
  exact decide_eq_true h

theorem chkFlag_setFlag_of_disjoint (h : f &&& g = 0) :
    logMsgChkFlag (logMsgSetFlag self f) g = logMsgChkFlag self g := by
  unfold logMsgChkFlag logMsgSetFlag
  rw [or_and_of_disjoint h]

theorem chkFlag_unsetFlag_of_disjoint (h : f &&& g = 0) :
    logMsgChkFlag (logMsgUnsetFlag self f) g = logMsgChkFlag self g := by
  unfold logMsgChkFlag logMsgUnsetFlag
  rw [and_not_and_of_disjoint h]

end

/-! ## The handles of a message -/

def LogTags.obj : LogTags → Option Nat
  | .word _ => none
  | .array a _ => some a

def payloadHandle (msg : LogMessage) : Handle :=
  ⟨msg.original, logMsgChkFlag msg lfStateOwnPayload, some msg.payload, 0⟩

def tagsHandle (msg : LogMessage) : Handle :=
  ⟨msg.original, logMsgChkFlag msg lfStateOwnTags, msg.tags.obj, msg.tags.numTags⟩

def sdataHandle (msg : LogMessage) : Handle :=
  ⟨msg.original, logMsgChkFlag msg lfStateOwnSdata, msg.sdata, msg.numSdata⟩

/-- The same message as far as contents and sharing are concerned. -/
structure SameShape (msg msg' : LogMessage) : Prop where
  payload : payloadHandle msg' = payloadHandle msg
  tags : tagsHandle msg' = tagsHandle msg
  sdata : sdataHandle msg' = sdataHandle msg
  word : msg'.tags = msg.tags

/-- What only the counting of protections and acks changes. -/
def LogMessage.counters (msg : LogMessage) : Nat × Nat × Option LMAckFunc :=
  (msg.protectCnt, msg.ack, msg.ackFunc)

/-- What an operation that writes does: one message changes, and the objects it owns. -/
structure Updated (h h' : LogHeap P) (m : Nat) (msg msg' : LogMessage) : Prop where
  msgs : h'.msgs = h.msgs.set m msg'
  counters : msg'.counters = msg.counters
  nodes : h'.nodes = h.nodes
  guards : h'.guards = h.guards
  payload : Touch h.payloads h'.payloads (payloadHandle msg) (payloadHandle msg')
  tags : Touch h.tagArrays h'.tagArrays (tagsHandle msg) (tagsHandle msg')
  sdata : Touch h.sdataArrays h'.sdataArrays (sdataHandle msg) (sdataHandle msg')
  word : msg'.tags.numTags = 0 → msg.tags.numTags = 0

section

variable {h h' h'' : LogHeap P} {m : Nat} {msg msg' msg'' : LogMessage}

theorem set_of_getElem? {α : Type} {l : List α} {i : Nat} {a : α} (hi : l[i]? = some a) :
    l.set i a = l := by
  obtain ⟨hlt, rfl⟩ := List.getElem?_eq_some_iff.1 hi
  exact List.set_getElem_self hlt

theorem Updated.protectCnt (hu : Updated h h' m msg msg') : msg'.protectCnt = msg.protectCnt :=
  congrArg Prod.fst hu.counters

theorem Updated.original (hu : Updated h h' m msg msg') : msg'.original = msg.original :=
  hu.payload.parent

theorem modify_eq_set {f : LogMessage → LogMessage} (hm : h.msgs[m]? = some msg) :
    (h.modify m f).msgs = h.msgs.set m (f msg) := by
  obtain ⟨hlt, rfl⟩ := List.getElem?_eq_some_iff.1 hm
  show h.msgs.modify m f = _
  rw [List.modify_eq_set_getElem?, List.getElem?_eq_getElem hlt]
  rfl

theorem Updated.trans (hu : Updated h h' m msg msg') (hu' : Updated h' h'' m msg' msg'') :
    Updated h h'' m msg msg'' where
  msgs := by rw [hu'.msgs, hu.msgs, List.set_set]
  counters := hu'.counters.trans hu.counters
  nodes := hu'.nodes.trans hu.nodes
  guards := hu'.guards.trans hu.guards
  payload := hu.payload.trans hu'.payload
  tags := hu.tags.trans hu'.tags
  sdata := hu.sdata.trans hu'.sdata
  word := fun hw => hu.word (hu'.word hw)

theorem Updated.getElem_self (hm : h.msgs[m]? = some msg) (hu : Updated h h' m msg msg') :
    h'.msgs[m]? = some msg' := by
  rw [hu.msgs, List.getElem?_set_self (List.getElem?_eq_some_iff.1 hm).1]

theorem Updated.getElem_ne (hu : Updated h h' m msg msg') {j : Nat} (hne : j ≠ m) :
    h'.msgs[j]? = h.msgs[j]? := by
  rw [hu.msgs, List.getElem?_set_ne (Ne.symm hne)]

theorem Updated.of_sameShape {f : LogMessage → LogMessage} (hm : h.msgs[m]? = some msg)
    (hshape : SameShape msg (f msg)) (hcnt : (f msg).counters = msg.counters) :
    Updated h (h.modify m f) m msg (f msg) where
  msgs := modify_eq_set hm
  counters := hcnt
  nodes := rfl
  guards := rfl
  payload := by rw [hshape.payload]; exact .refl
  tags := by rw [hshape.tags]; exact .refl
  sdata := by rw [hshape.sdata]; exact .refl
  word := by
    rw [hshape.word]
    exact id

/-! ## The operations that write -/

theorem updated_updateSdata {registry : LogMsgRegistry} {handle : Nat} (hm : h.msgs[m]? = some msg) :
    ∃ msg', Updated h (logMsgUpdateSdata registry h m handle) m msg msg' := by
  have hid : Updated h h m msg msg :=
    ⟨(set_of_getElem? hm).symm, rfl, rfl, rfl, .refl, .refl, .refl, id⟩
  unfold logMsgUpdateSdata
  rw [hm]
  simp only
  split
  swap
  · exact ⟨msg, hid⟩
  unfold logMsgUpdateSdataSlow
  split
  · exact ⟨msg, hid⟩
  simp only
  split
  · rename_i s hs
    split at hs
    · rename_i hown
      refine ⟨{ msg with numSdata := msg.numSdata + 1 }, modify_eq_set hm, rfl, rfl, rfl, .refl,
        .refl, .own rfl hown hs hown hs, id⟩
    · cases hs
  · refine ⟨logMsgSetFlag { msg with
        numSdata := msg.numSdata + 1, sdata := some h.sdataArrays.length } lfStateOwnSdata,
      modify_eq_set hm, rfl, rfl, rfl, ?_, ?_, .fresh rfl (chkFlag_setFlag (by decide)) rfl, id⟩
    · unfold payloadHandle
      rw [chkFlag_setFlag_of_disjoint (by decide)]
      exact .refl
    · unfold tagsHandle
      rw [chkFlag_setFlag_of_disjoint (by decide)]
      exact .refl

variable {ops : PayloadOps P}

theorem updated_changePayload {space : Nat} {newEntry : Bool} {change : P → Option (P × Bool)}
    (hm : h.msgs[m]? = some msg) (hc : logMsgChangePayload ops h m msg space change = some (h', newEntry)) :
    ∃ msg', Updated h h' m msg msg' := by
  unfold logMsgChangePayload at hc
  obtain ⟨payload, hp, hc⟩ := bind_eq_some_iff.1 hc
  split at hc
  · rename_i hown
    obtain ⟨⟨p', e⟩, -, heq⟩ := map_eq_some_iff.1 hc
    cases heq
    exact ⟨msg, (set_of_getElem? hm).symm, rfl, rfl, rfl, .own rfl hown rfl hown rfl, .refl, .refl, id⟩
  · obtain ⟨copy, -, hc⟩ := bind_eq_some_iff.1 hc
    obtain ⟨⟨p', e⟩, -, heq⟩ := map_eq_some_iff.1 hc
    cases heq
    refine ⟨logMsgSetFlag { msg with payload := h.payloads.length } lfStateOwnPayload,
      modify_eq_set hm, rfl, rfl, rfl, .fresh rfl (chkFlag_setFlag (by decide)) rfl, ?_, ?_, id⟩
    · unfold tagsHandle
      rw [chkFlag_setFlag_of_disjoint (by decide)]
      exact .refl
    · unfold sdataHandle
      rw [chkFlag_setFlag_of_disjoint (by decide)]
      exact .refl

theorem unprotected_of_guard {f : LogMessage → Option (LogHeap P)}
    (hs : ((h.msgs[m]?).bind fun self => if logMsgIsWriteProtected self then none else f self) = some h') :
    ∃ msg, h.msgs[m]? = some msg ∧ msg.protectCnt = 0 ∧ f msg = some h' := by
  obtain ⟨msg, hm, hs⟩ := bind_eq_some_iff.1 hs
  split at hs
  · cases hs
  rename_i hprot
  exact ⟨msg, hm, by simpa [logMsgIsWriteProtected] using hprot, hs⟩

theorem updated_setValue {registry : LogMsgRegistry} {handle : Nat} {value : List UInt8}
    (hs : logMsgSetValue ops registry h m handle value = some h') :
    ∃ msg msg', h.msgs[m]? = some msg ∧ msg.protectCnt = 0 ∧ Updated h h' m msg msg' := by
  unfold logMsgSetValue at hs
  obtain ⟨msg, hm, hcnt, hs⟩ := unprotected_of_guard hs
  split at hs
  · cases hs
    exact ⟨msg, msg, hm, hcnt, (set_of_getElem? hm).symm, rfl, rfl, rfl, .refl, .refl, .refl, id⟩
  obtain ⟨⟨h1, newEntry⟩, hc, heq⟩ := map_eq_some_iff.1 hs
  obtain ⟨msg1, hu1⟩ := updated_changePayload hm hc
  simp only at heq
  have h2 : ∃ msg2, Updated h (if newEntry then logMsgUpdateSdata registry h1 m handle else h1) m
      msg msg2 := by
    split
    · obtain ⟨msg2, hu2⟩ := @updated_updateSdata P h1 m msg1 registry handle
        (hu1.getElem_self hm)
      exact ⟨msg2, hu1.trans hu2⟩
    · exact ⟨msg1, hu1⟩
  obtain ⟨msg2, hu2⟩ := h2
  generalize (if newEntry then logMsgUpdateSdata registry h1 m handle else h1) = h2 at heq hu2
  split at heq
  · subst heq
    refine ⟨msg, _, hm, hcnt, hu2.trans (.of_sameShape (hu2.getElem_self hm) ⟨?_, ?_, ?_, rfl⟩ rfl)⟩
    · unfold payloadHandle
      rw [chkFlag_unsetFlag_of_disjoint (by decide)]
      rfl
    · unfold tagsHandle
      rw [chkFlag_unsetFlag_of_disjoint (by decide)]
      rfl
    · unfold sdataHandle
      rw [chkFlag_unsetFlag_of_disjoint (by decide)]
      rfl
  · subst heq
    exact ⟨msg, msg2, hm, hcnt, hu2⟩

theorem updated_setValueIndirect {registry : LogMsgRegistry} {handle refHandle type ofs len : Nat}
    (hs : logMsgSetValueIndirect ops registry h m handle refHandle type ofs len = some h') :
    ∃ msg msg', h.msgs[m]? = some msg ∧ msg.protectCnt = 0 ∧ Updated h h' m msg msg' := by
  unfold logMsgSetValueIndirect at hs
  obtain ⟨msg, hm, hcnt, hs⟩ := unprotected_of_guard hs
  split at hs
  · cases hs
    exact ⟨msg, msg, hm, hcnt, (set_of_getElem? hm).symm, rfl, rfl, rfl, .refl, .refl, .refl, id⟩
  split at hs
  · cases hs
  obtain ⟨⟨h1, newEntry⟩, hc, heq⟩ := map_eq_some_iff.1 hs
  obtain ⟨msg1, hu1⟩ := updated_changePayload hm hc
  simp only at heq
  split at heq
  · obtain ⟨msg2, hu2⟩ := @updated_updateSdata P h1 m msg1 registry handle
      (hu1.getElem_self hm)
    exact ⟨msg, msg2, hm, hcnt, heq ▸ hu1.trans hu2⟩
  · exact ⟨msg, msg1, hm, hcnt, heq ▸ hu1⟩

theorem updated_storeTags {a last last' : Nat} {words : List (BitVec 64)} (hm : h.msgs[m]? = some msg)
    (ht : msg.tags = .array a last') : ∃ msg', Updated h (storeTags h m msg a last words) m msg msg' := by
  unfold storeTags
  split
  · rename_i hown
    refine ⟨{ msg with tags := .array a last }, modify_eq_set hm, rfl, rfl, rfl, .refl,
      .own rfl hown ?_ hown rfl, .refl, fun hw => by cases hw⟩
    show msg.tags.obj = some a
    rw [ht]
    rfl
  · refine ⟨logMsgSetFlag { msg with tags := .array h.tagArrays.length last } lfStateOwnTags,
      modify_eq_set hm, rfl, rfl, rfl, ?_, .fresh rfl (chkFlag_setFlag (by decide)) rfl, ?_,
      fun hw => by cases hw⟩
    · unfold payloadHandle
      rw [chkFlag_setFlag_of_disjoint (by decide)]
      exact .refl
    · unfold sdataHandle
      rw [chkFlag_setFlag_of_disjoint (by decide)]
      exact .refl

theorem updated_setTag {id : Nat} {on : Bool} (hs : logMsgSetTagByIdOnoff h m id on = some h') :
    ∃ msg msg', h.msgs[m]? = some msg ∧ msg.protectCnt = 0 ∧ Updated h h' m msg msg' := by
  unfold logMsgSetTagByIdOnoff at hs
  obtain ⟨msg, hm, hcnt, hs⟩ := unprotected_of_guard hs
  refine ⟨msg, ?_⟩
  -- an inline word, or a first array, is the message's own
  have hpayload : ∀ tags, payloadHandle (logMsgSetFlag { msg with tags := tags } lfStateOwnTags) =
      payloadHandle msg := by
    intro tags
    unfold payloadHandle
    rw [chkFlag_setFlag_of_disjoint (by decide)]
    rfl
  have hsdata : ∀ tags, sdataHandle (logMsgSetFlag { msg with tags := tags } lfStateOwnTags) =
      sdataHandle msg := by
    intro tags
    unfold sdataHandle
    rw [chkFlag_setFlag_of_disjoint (by decide)]
    rfl
  cases ht : msg.tags with
  | word word =>
    rw [ht] at hs
    have hinline : ∀ w, Updated h (h.modify m fun self =>
        logMsgSetFlag { self with tags := .word w } lfStateOwnTags) m msg
        (logMsgSetFlag { msg with tags := .word w } lfStateOwnTags) := by
      intro w
      refine ⟨modify_eq_set hm, rfl, rfl, rfl, ?_, ⟨rfl, le_refl _, fun _ _ => rfl, .inr
        ⟨chkFlag_setFlag (by decide), .inl rfl⟩⟩, ?_, fun _ => by rw [ht]; rfl⟩
      · rw [hpayload]
        exact .refl
      · rw [hsdata]
        exact .refl
    simp only at hs
    split at hs
    · cases hs
      exact ⟨_, hm, hcnt, hinline _⟩
    split at hs
    · cases hs
      have hsame : (h.modify m fun self => logMsgSetFlag self lfStateOwnTags).msgs =
          h.msgs.set m (logMsgSetFlag { msg with tags := .word word } lfStateOwnTags) := by
        rw [modify_eq_set hm, ← ht]
      exact ⟨_, hm, hcnt, { hinline word with msgs := hsame }⟩
    · cases hs
      refine ⟨logMsgSetFlag { msg with tags := .array h.tagArrays.length (id / 64) } lfStateOwnTags,
        hm, hcnt, modify_eq_set hm, rfl, rfl, rfl, ?_, .fresh rfl (chkFlag_setFlag (by decide)) rfl,
        ?_, fun hw => by cases hw⟩
      · rw [hpayload]
        exact .refl
      · rw [hsdata]
        exact .refl
  | array a last =>
    rw [ht] at hs
    obtain ⟨words, -, heq⟩ := map_eq_some_iff.1 hs
    simp only at heq
    have hstore : ∀ last' words', ∃ msg', h.msgs[m]? = some msg ∧ msg.protectCnt = 0 ∧
        Updated h (storeTags h m msg a last' words') m msg msg' := by
      intro last' words'
      obtain ⟨msg', hu⟩ := @updated_storeTags P h m msg a last' last words' hm ht
      exact ⟨msg', hm, hcnt, hu⟩
    split at heq
    · split at heq
      · exact heq ▸ hstore _ _
      · exact heq ▸ hstore _ _
    · exact heq ▸ hstore _ _

end

end SyslogNg.LogMsg
