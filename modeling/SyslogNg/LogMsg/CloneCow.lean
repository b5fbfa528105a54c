import SyslogNg.LogMsg.Isolation

/-!
# What a clone shows

`log_msg_clone_cow` clones the original of a message that seems to have no content of its own. In
every reachable heap the two agree on what they share; the fields that are stored in the message
itself, the inline word of tags among them, are those of the original.
-/

namespace SyslogNg.LogMsg

open Lib Option
open Option (bind_some map_some some_inj)

variable {P : Type}

/-- The tags that are stored in the message itself. -/
def LogTags.inlineWord : LogTags → Option (BitVec 64)
  | .word w => some w
  | .array _ _ => none

/-- A message that seems to have no content of its own has the inline tags, `pri`, timestamps and
flags of its original. -/
def CloneAgrees (h : LogHeap P) (msg : LogMessage) : Prop :=
  hasNoContent msg = true → ∃ orig, (msg.original.bind fun o => h.msgs[o]?) = some orig ∧
    msg.tags.inlineWord = orig.tags.inlineWord ∧ msg.scalars = orig.scalars

section

variable {h : LogHeap P} {m t : Nat} {msg orig : LogMessage} {ackNeeded : Bool}

theorem scalars_cloneOf : (cloneOf t msg ackNeeded).scalars = msg.scalars := by
  have hflags : (cloneOf t msg ackNeeded).flags &&& ~~~lfStateMask = msg.flags &&& ~~~lfStateMask := by
    unfold cloneOf
    simp only
    split
    · show (msg.flags &&& ~~~lfStateMask ||| lfStateOwnTags) &&& ~~~lfStateMask = _
      rw [or_and_of_disjoint (by decide), BitVec.and_assoc, BitVec.and_self]
    · show msg.flags &&& ~~~lfStateMask &&& ~~~lfStateMask = _
      rw [BitVec.and_assoc, BitVec.and_self]
  unfold LogMessage.scalars
  rw [hflags]
  unfold cloneOf
  simp only
  split
  · rfl
  · rfl

theorem scalars_withClone :
    scalars (h.withClone t msg ackNeeded) h.msgs.length = some msg.scalars := by
  have hlast : (h.withClone t msg ackNeeded).msgs[h.msgs.length]? =
      some (cloneOf t msg ackNeeded) := by
    show (h.msgs.set t (logMsgWriteProtect msg) ++ [cloneOf t msg ackNeeded])[h.msgs.length]? = _
    rw [List.getElem?_append_right (by rw [List.length_set]), List.length_set, Nat.sub_self]
    rfl
  unfold scalars
  rw [hlast, map_some, scalars_cloneOf]

theorem word_eq_of_tags {w w' : BitVec 64} (hw : msg.tags = .word w) (hw' : orig.tags = .word w')
    (htags : logMsgIsTagById h msg = logMsgIsTagById h orig) : w = w' := by
  apply BitVec.eq_of_getLsbD_eq
  intro i hi
  have := congrFun htags i
  unfold logMsgIsTagById at this
  rw [hw, hw', if_neg (by omega), if_neg (by omega)] at this
  simpa [hi] using this

theorem hasNoContent_flags (hnone : hasNoContent msg = true) :
    logMsgChkFlag msg lfStateOwnPayload = false ∧ logMsgChkFlag msg lfStateOwnSdata = false ∧
      (msg.tags.numTags ≠ 0 → logMsgChkFlag msg lfStateOwnTags = false) := by
  have hsub : ∀ {f g : BitVec 32}, f &&& lfStateOwnMask = f → msg.flags &&& lfStateOwnMask = g →
      g &&& f = 0 → logMsgChkFlag msg f = false := by
    intro f g hf hg hzero
    unfold logMsgChkFlag
    rw [← hf, BitVec.and_comm f, ← BitVec.and_assoc, hg, hzero]
    simp
  unfold hasNoContent at hnone
  rw [Bool.or_eq_true, Bool.and_eq_true, decide_eq_true_eq, decide_eq_true_eq, decide_eq_true_eq] at hnone
  rcases hnone with hzero | ⟨htags, hnum⟩
  · exact ⟨hsub (by decide) hzero (by decide), hsub (by decide) hzero (by decide),
      fun _ => hsub (by decide) hzero (by decide)⟩
  · exact ⟨hsub (by decide) htags (by decide), hsub (by decide) htags (by decide),
      fun hne => absurd hnum hne⟩

theorem HeapInv.original (hi : HeapInv h) (hm : h.msgs[m]? = some msg)
    (hnone : hasNoContent msg = true) : ∃ o orig, msg.original = some o ∧
      h.msgs[o]? = some orig ∧ orig.payload = msg.payload ∧ orig.sdata = msg.sdata ∧
      orig.numSdata = msg.numSdata ∧ (msg.tags.numTags = 0 → orig.tags.numTags = 0) ∧
      (msg.tags.numTags ≠ 0 → orig.tags = msg.tags) := by
  obtain ⟨hp, hs, ht⟩ := hasNoContent_flags hnone
  obtain ⟨o, d, ho, hd, hobj, -⟩ := hi.payload.borrowed (map_set_getElem hm) hp
  obtain ⟨orig, horig, rfl⟩ := map_eq_some_iff.1 ((List.getElem?_map ..).symm.trans hd)
  have ho : msg.original = some o := ho
  have hsame : ∀ {f : LogMessage → Handle}, (∀ msg, (f msg).parent = msg.original) →
      ∀ {size}, Owned (h.msgs.map f) size → (f msg).own = false →
        (f orig).obj = (f msg).obj ∧ (f orig).len = (f msg).len := by
    intro f hf size hown hfalse
    obtain ⟨o', d', ho', hd', hobj', hlen'⟩ := hown.borrowed (map_set_getElem hm) hfalse
    rw [hf, ho, some_inj] at ho'
    subst ho'
    rw [map_set_getElem horig, some_inj] at hd'
    subst hd'
    exact ⟨hobj', hlen'⟩
  obtain ⟨hsobj, hslen⟩ := hsame (fun _ => rfl) hi.sdata hs
  refine ⟨o, orig, ho, horig, some.inj hobj, hsobj, hslen, hi.word hm ho horig, ?_⟩
  intro hne
  obtain ⟨htobj, htlen⟩ := hsame (fun _ => rfl) hi.tags (ht hne)
  have htobj : orig.tags.obj = msg.tags.obj := htobj
  have htlen : orig.tags.numTags = msg.tags.numTags := htlen
  cases htm : msg.tags with
  | word w =>
    rw [htm] at hne
    exact absurd rfl hne
  | array a last =>
    rw [htm] at htobj htlen
    cases hto : orig.tags with
    | word w =>
      rw [hto] at htobj
      cases htobj
    | array a' last' =>
      rw [hto] at htobj htlen
      cases htobj
      cases htlen
      rfl

theorem contentsOf_eq_iff (hp : orig.payload = msg.payload) (hs : orig.sdata = msg.sdata)
    (hn : orig.numSdata = msg.numSdata) (hzero : msg.tags.numTags = 0 → orig.tags.numTags = 0)
    (harray : msg.tags.numTags ≠ 0 → orig.tags = msg.tags) :
    contentsOf h orig = contentsOf h msg ↔ msg.tags.inlineWord = orig.tags.inlineWord := by
  have hsame : orig.tags = msg.tags → contentsOf h orig = contentsOf h msg := by
    intro htags
    have : logMsgIsTagById h orig = logMsgIsTagById h msg := by
      funext id
      unfold logMsgIsTagById
      rw [htags]
    unfold contentsOf
    rw [hp, hs, hn, this]
  cases htm : msg.tags with
  | array a last =>
    have htags := harray (by rw [htm]; exact Nat.succ_ne_zero last)
    rw [htags, htm]
    exact ⟨fun _ => rfl, fun _ => hsame htags⟩
  | word w =>
    have hz := hzero (by rw [htm]; rfl)
    cases hto : orig.tags with
    | array a last =>
      rw [hto] at hz
      cases hz
    | word w' =>
      constructor
      · intro hc
        exact congrArg some (word_eq_of_tags htm hto (congrArg LogContents.tags hc).symm)
      · intro hw
        refine hsame ?_
        rw [hto, htm, some.inj hw]

end

/-- **A clone shows what its message shows** exactly if the message has content of its own, or its
inline tags, `pri`, timestamps and flags are still those of its original. So in every heap that is
reached without a `protect_cnt` that wraps; and `log_msg_make_writable` gives the same clone. -/
theorem log_msg_clone_cow_equal {ops : PayloadOps P} {registry : LogMsgRegistry} {payload : P}
    {recvd : LogStamp} {script : List MsgOp} {h : LogHeap P}
    (hrun : Run (MsgNext ops registry) (logMsgNew payload recvd) script h) {m : Nat}
    {msg : LogMessage} (hm : h.msgs[m]? = some msg) (ackNeeded : Bool) :
    ∃ h' c, logMsgCloneCow h m ackNeeded = some (h', c) ∧
      (logMsgIsWriteProtected msg = true → logMsgMakeWritable h m ackNeeded = some (h', c)) ∧
      (contents h' c = contents h m ∧ scalars h' c = scalars h m ↔ CloneAgrees h msg) := by
  have hi := (HeapInv.start payload recvd).run hrun
  have hwritable : ∀ {r}, logMsgCloneCow h m ackNeeded = some r →
      logMsgIsWriteProtected msg = true → logMsgMakeWritable h m ackNeeded = some r := by
    intro r hr hprot
    unfold logMsgMakeWritable
    rw [hm, bind_some, if_pos hprot, hr]
  have hclone : ∀ {t orig}, cloneTarget h m = some t → h.msgs[t]? = some orig →
      logMsgCloneCow h m ackNeeded = some (h.withClone t orig ackNeeded, h.msgs.length) := by
    intro t orig ht horig
    unfold logMsgCloneCow
    rw [ht, bind_some, horig, map_some, modify_eq horig]
    simp only [List.length_set]
    rfl
  have hcontents : contents h m = some (contentsOf h msg) := by
    unfold contents
    rw [hm, map_some]
  have hscalars : scalars h m = some msg.scalars := by
    unfold scalars
    rw [hm, map_some]
  by_cases hnone : hasNoContent msg = true
  · obtain ⟨o, orig, ho, horig, hp, hs, hn, hzero, harray⟩ := hi.original hm hnone
    have ht : cloneTarget h m = some o := by
      unfold cloneTarget
      rw [hm, bind_some, if_pos hnone, ho]
    refine ⟨_, _, hclone ht horig, hwritable (hclone ht horig), ?_⟩
    rw [(contents_withClone horig).1, scalars_withClone, hcontents, hscalars, some_inj,
      some_inj, contentsOf_eq_iff hp hs hn hzero harray]
    constructor
    · rintro ⟨hw, hsc⟩ -
      exact ⟨orig, by rw [ho, bind_some, horig], hw, hsc.symm⟩
    · intro hagree
      obtain ⟨orig', horig', hw, hsc⟩ := hagree hnone
      rw [ho, bind_some, horig, some_inj] at horig'
      subst horig'
      exact ⟨hw, hsc.symm⟩
  · have ht : cloneTarget h m = some m := by
      unfold cloneTarget
      rw [hm, bind_some, if_neg hnone]
    refine ⟨_, _, hclone ht hm, hwritable (hclone ht hm), ?_⟩
    rw [(contents_withClone hm).1, scalars_withClone, hcontents, hscalars]
    exact ⟨fun _ hcontra => absurd hcontra hnone, fun _ => ⟨rfl, rfl⟩⟩

/-- A clone with a value of its own, cloned once more. -/
theorem log_msg_clone_cow_equal_own : ∃ h h' c,
    Run (MsgNext nvTableOps plainRegistry) (logMsgNew (NameValue.nvTableNew 9 16 256) ⟨0, 0, 0⟩)
      [.setPri 0 13, .clone 0 true, .setValue 1 3 [98], .setTag 1 5 true] h ∧
    logMsgCloneCow h 1 true = some (h', c) ∧ contents h' c = contents h 1 ∧
    scalars h' c = scalars h 1 := by
  have hsome := show ((exec (msgNext nvTableOps plainRegistry)
      (logMsgNew (NameValue.nvTableNew 9 16 256) ⟨0, 0, 0⟩)
      [.setPri 0 13, .clone 0 true, .setValue 1 3 [98], .setTag 1 5 true]).bind fun h =>
        (h.msgs[1]?).map hasNoContent) = some false by decide +kernel
  obtain ⟨h, hexec, hmap⟩ := bind_eq_some_iff.1 hsome
  obtain ⟨msg, hm, hown⟩ := map_eq_some_iff.1 hmap
  have hrun := run_of_exec hexec
  obtain ⟨h', c, hclone, -, hiff⟩ := log_msg_clone_cow_equal hrun hm true
  obtain ⟨hcontents, hscalars⟩ := hiff.2 fun hnone => by
    rw [hown] at hnone
    cases hnone
  exact ⟨h, h', c, hrun, hclone, hcontents, hscalars⟩

/-- A clone that only has a tag of its own, cloned once more: the tag is not there. -/
theorem log_msg_clone_cow_loses_tag : ∃ h h',
    exec (msgNext nvTableOps plainRegistry) (logMsgNew (NameValue.nvTableNew 9 16 256) ⟨0, 0, 0⟩)
      [.clone 0 true, .setTag 1 5 true] = some h ∧
    logMsgCloneCow h 1 true = some (h', 2) ∧ contents h' 2 ≠ contents h 1 := by
  have hrun := show ((exec (msgNext nvTableOps plainRegistry)
      (logMsgNew (NameValue.nvTableNew 9 16 256) ⟨0, 0, 0⟩)
      [.clone 0 true, .setTag 1 5 true]).bind fun h => (logMsgCloneCow h 1 true).map fun r =>
        (r.2, (contents h 1).map (·.tags 5), (contents r.1 2).map (·.tags 5))) =
      some (2, some true, some false) by decide +kernel
  obtain ⟨h, hexec, hmap⟩ := bind_eq_some_iff.1 hrun
  obtain ⟨⟨h', c⟩, hclone, heq⟩ := map_eq_some_iff.1 hmap
  rw [Prod.mk.injEq, Prod.mk.injEq] at heq
  obtain ⟨rfl, hbefore, hafter⟩ := heq
  refine ⟨h, h', hexec, hclone, fun hsame => ?_⟩
  rw [hsame, hbefore] at hafter
  cases hafter

end SyslogNg.LogMsg
