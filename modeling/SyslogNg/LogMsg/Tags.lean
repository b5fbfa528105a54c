import SyslogNg.LogMsg.CloneCow

/-!
# Tags (`lib/logmsg.c`)

The tags of a message are the bits of a list of words, whether that is the pointer itself or an
array. `TagSets` says which tags every message should have: a set or clear changes one of them, and
a clone takes over those of its message.
-/

namespace SyslogNg.LogMsg

open Lib
open List hiding getElem?_eq_some_iff
open List (getD_eq_getElem?_getD getElem?_set_self length_singleton)
open Option (any_some bind_eq_some_iff bind_some getD_some map_eq_some_iff map_some some_inj)

variable {P : Type}

/-- `log_msg_tags_foreach_item`: the ids that the callback is given. `LogTagId` is a `guint16`. -/
def logMsgTagsForeachItem : (rounds base : Nat) → (item : BitVec 64) → List Nat
  | 0, _, _ => []
  | rounds + 1, base, item =>
    if item = 0 then []
    else (if item.getLsbD 0 then [base % 2 ^ 16] else []) ++
      logMsgTagsForeachItem rounds (base + 1) (item >>> 1)

def tagWords (h : LogHeap P) (self : LogMessage) : List (BitVec 64) :=
  match self.tags with
  | .word word => [word]
  | .array a last => ((h.tagArrays[a]?).getD []).take (last + 1)

def logMsgTagsForeach (h : LogHeap P) (self : LogMessage) : List Nat :=
  (tagWords h self).zipIdx.flatMap fun (item, i) => logMsgTagsForeachItem 64 (i * 64) item

abbrev TagSets := List (Nat → Bool)

def TagSets.get (sets : TagSets) (m id : Nat) : Bool := (sets[m]?).any (· id)

/-- The message that an operation clones. -/
def MsgOp.clones (h : LogHeap P) : MsgOp → Option Nat
  | .clone m _ => some m
  | .makeWritable m _ => if (h.msgs[m]?).any logMsgIsWriteProtected then some m else none
  | _ => none

def tagSetsStep (h : LogHeap P) (sets : TagSets) (op : MsgOp) : TagSets :=
  match op, op.clones h with
  | .setTag m id on, _ => sets.modify m fun set => Function.update set id on
  | _, some m => sets ++ [sets.get m]
  | _, none => sets

def MsgOp.tagOk : MsgOp → Bool
  | .setTag _ id _ => id ≤ 8159
  | _ => true

/-- A step, with the tags that each message should have. -/
def TagNext (ops : PayloadOps P) (registry : LogMsgRegistry) (s : LogHeap P × TagSets) (op : MsgOp)
    (s' : LogHeap P × TagSets) : Prop :=
  MsgNext ops registry s.1 op s'.1 ∧ op.tagOk ∧ s'.2 = tagSetsStep s.1 s.2 op

/-- A message that is cloned has content of its own, or the inline tags of its original. -/
def cloneKeepsTags (h : LogHeap P) (op : MsgOp) : Bool :=
  ((op.clones h).bind fun m => h.msgs[m]?).all fun msg => !hasNoContent msg ||
    (msg.original.bind fun o => h.msgs[o]?).map (·.tags.inlineWord) = some msg.tags.inlineWord

def tagNext (ops : PayloadOps P) (registry : LogMsgRegistry) (s : LogHeap P × TagSets)
    (op : MsgOp) : Option (LogHeap P × TagSets) :=
  if op.tagOk then (msgNext ops registry s.1 op).map fun h => (h, tagSetsStep s.1 s.2 op) else none

/-! ## Words of bits -/

section

variable {words : List (BitVec 64)} {word : BitVec 64} {id id' i : Nat} {on : Bool}

theorem getLsbD_setBit (hi : i < 64) (hid : id < 64) :
    (setBit word id on).getLsbD i = if i = id then on else word.getLsbD i := by
  unfold setBit
  cases on <;> by_cases h : i = id <;>
    simp [hi, hid, h, BitVec.getLsbD_shiftLeft, BitVec.getLsbD_one] <;> omega

theorem getBit_setBit (hlen : id / 64 < words.length) :
    logMsgGetBit (logMsgSetBit words id on) id' = if id' = id then on else logMsgGetBit words id' := by
  unfold logMsgGetBit logMsgSetBit
  rw [getD_eq_getElem?_getD, getElem?_modify, getD_eq_getElem?_getD]
  by_cases hw : id / 64 = id' / 64
  · rw [← hw, getElem?_eq_getElem hlen]
    have hiff : id' % 64 = id % 64 ↔ id' = id := by omega
    simp only [↓reduceIte, Option.map_eq_map, map_some, getD_some]
    rw [getLsbD_setBit (Nat.mod_lt _ (by decide)) (Nat.mod_lt _ (by decide))]
    simp only [hiff]
  · rw [if_neg fun heq => hw (by rw [heq])]
    simp [hw]

theorem getBit_append_zeros (n : Nat) :
    logMsgGetBit (words ++ replicate n 0) id = logMsgGetBit words id := by
  unfold logMsgGetBit
  rw [getD_eq_getElem?_getD, getD_eq_getElem?_getD, getElem?_append]
  split
  · rfl
  · rename_i hge
    rw [getElem?_eq_none (Nat.le_of_not_lt hge), getElem?_replicate]
    split <;> rfl

theorem getBit_of_length (hid : words.length * 64 ≤ id) : logMsgGetBit words id = false := by
  unfold logMsgGetBit
  rw [getD_eq_getElem?_getD, getElem?_eq_none (by omega)]
  simp

theorem foreachItem_eq (rounds base : Nat) (item : BitVec 64)
    (hend : ∀ i, rounds ≤ i → item.getLsbD i = false) (hbase : base + rounds ≤ 2 ^ 16) :
    logMsgTagsForeachItem rounds base item =
      ((range rounds).filter fun i => item.getLsbD i).map (base + ·) := by
  induction rounds generalizing base item with
  | zero => rfl
  | succ rounds ih =>
    have hshift : ∀ i, (item >>> 1).getLsbD i = item.getLsbD (i + 1) := by
      intro i
      rw [BitVec.getLsbD_ushiftRight, Nat.add_comm]
    have htail : ((range rounds).filter fun i => (item >>> 1).getLsbD i).map (base + 1 + ·) =
        (((range rounds).map Nat.succ).filter fun i => item.getLsbD i).map (base + ·) := by
      rw [filter_map, map_map]
      simp only [hshift, Function.comp_def, Nat.succ_eq_add_one]
      exact map_congr_left fun i _ => by omega
    rw [range_succ_eq_map, filter_cons, logMsgTagsForeachItem]
    by_cases hzero : item = 0
    · subst hzero
      simp
    · rw [if_neg hzero, ih (base + 1) (item >>> 1) (fun i hi => by rw [hshift]; exact hend _ (by omega))
        (by omega), htail, Nat.mod_eq_of_lt (by omega)]
      cases item.getLsbD 0 <;> simp

theorem foreach_eq (words : List (BitVec 64)) (hlen : words.length * 64 ≤ 2 ^ 16) :
    (words.zipIdx.flatMap fun (item, i) => logMsgTagsForeachItem 64 (i * 64) item) =
      (range (words.length * 64)).filter (logMsgGetBit words) := by
  induction words using reverseRecOn with
  | nil => rfl
  | append_singleton words word ih =>
    rw [length_append, length_singleton] at hlen
    have hfirst : ∀ id, id < words.length * 64 →
        logMsgGetBit (words ++ [word]) id = logMsgGetBit words id := by
      intro id hid
      unfold logMsgGetBit
      rw [getD_eq_getElem?_getD, getElem?_append_left (by omega),
        getD_eq_getElem?_getD]
    have hlast : ∀ i, i < 64 →
        logMsgGetBit (words ++ [word]) (words.length * 64 + i) = word.getLsbD i := by
      intro i hi
      unfold logMsgGetBit
      rw [getD_eq_getElem?_getD, getElem?_append_right (by omega)]
      have h1 : (words.length * 64 + i) / 64 - words.length = 0 := by omega
      have h2 : (words.length * 64 + i) % 64 = i := by omega
      rw [h1, h2]
      rfl
    rw [zipIdx_append, flatMap_append, ih (by omega), length_append,
      length_singleton, Nat.add_mul, Nat.one_mul, range_add, filter_append]
    congr 1
    · exact filter_congr fun id hid => (hfirst id (mem_range.1 hid)).symm
    · have hword : ∀ i, 64 ≤ i → word.getLsbD i = false := fun i hi =>
        BitVec.getLsbD_of_ge word i hi
      simp only [zipIdx_singleton, flatMap_singleton, Nat.zero_add]
      rw [foreachItem_eq _ _ _ hword (by omega), filter_map]
      congr 1
      exact filter_congr fun i hi => (hlast i (mem_range.1 hi)).symm

end

/-! ## The tags of a message -/

/-- The words of an array are all there. -/
def ArrayOk (h : LogHeap P) (msg : LogMessage) : Prop :=
  ∀ a last, msg.tags = .array a last →
    ∃ words, h.tagArrays[a]? = some words ∧ words.length = last + 1 ∧ last < 128

structure TagsOk (h : LogHeap P) (msg : LogMessage) : Prop where
  array : ∀ a last, msg.tags = .array a last →
    ∃ words, h.tagArrays[a]? = some words ∧ words.length = last + 1 ∧ last < 128
  small : ∀ id, 8159 < id → logMsgGetBit (tagWords h msg) id = false

section

variable {h h' : LogHeap P} {msg msg' : LogMessage} {m id : Nat} {on : Bool}

theorem tagWords_word {word : BitVec 64} (ht : msg.tags = .word word) : tagWords h msg = [word] := by
  unfold tagWords
  rw [ht]

theorem tagWords_array {a last : Nat} {words : List (BitVec 64)} (ht : msg.tags = .array a last)
    (hw : h.tagArrays[a]? = some words) (hlen : words.length = last + 1) : tagWords h msg = words := by
  unfold tagWords
  rw [ht]
  show ((h.tagArrays[a]?).getD []).take (last + 1) = words
  rw [hw, getD_some, take_of_length_le (by omega)]

theorem ArrayOk.length (hok : ArrayOk h msg) : (tagWords h msg).length ≤ 128 := by
  cases ht : msg.tags with
  | word word =>
    rw [tagWords_word ht, length_singleton]
    decide
  | array a last =>
    obtain ⟨words, hw, hlen, hlast⟩ := hok a last ht
    rw [tagWords_array ht hw hlen]
    omega

theorem ArrayOk.isTag (hok : ArrayOk h msg) (id : Nat) :
    logMsgIsTagById h msg id = (decide (id ≤ 8159) && logMsgGetBit (tagWords h msg) id) := by
  unfold logMsgIsTagById
  by_cases hid : 8159 < id
  · simp [hid]
  · rw [if_neg hid, decide_eq_true (Nat.not_lt.1 hid), Bool.true_and]
    cases ht : msg.tags with
    | word word =>
      rw [tagWords_word ht]
      by_cases hlt : id < 64
      · simp [hlt, logMsgGetBit, Nat.div_eq_of_lt hlt, Nat.mod_eq_of_lt hlt]
      · rw [getBit_of_length (by simpa using hlt)]
        simp [hlt]
    | array a last =>
      obtain ⟨words, hw, hlen, hlast⟩ := hok a last ht
      rw [tagWords_array ht hw hlen]
      simp only [hw, getD_some]
      by_cases hlt : id < (last + 1) * 64
      · simp [hlt]
      · rw [getBit_of_length (by rw [hlen]; omega)]
        simp [hlt]

theorem TagsOk.length (hok : TagsOk h msg) : (tagWords h msg).length ≤ 128 :=
  ArrayOk.length hok.array

theorem TagsOk.isTag (hok : TagsOk h msg) (id : Nat) :
    logMsgIsTagById h msg id = logMsgGetBit (tagWords h msg) id := by
  rw [ArrayOk.isTag hok.array]
  by_cases hid : 8159 < id
  · rw [hok.small id hid, Bool.and_false]
  · rw [decide_eq_true (Nat.not_lt.1 hid), Bool.true_and]

theorem TagsOk.foreach (hok : TagsOk h msg) :
    logMsgTagsForeach h msg = (range 8160).filter (logMsgIsTagById h msg) := by
  have hlen := hok.length
  have hsets : logMsgIsTagById h msg = logMsgGetBit (tagWords h msg) := funext hok.isTag
  unfold logMsgTagsForeach
  rw [foreach_eq _ (by omega), hsets]
  -- both ranges hold every id that is set
  have hrange : ∀ n, (∀ id, n ≤ id → logMsgGetBit (tagWords h msg) id = false) →
      ∀ k, (range (n + k)).filter (logMsgGetBit (tagWords h msg)) =
        (range n).filter (logMsgGetBit (tagWords h msg)) := by
    intro n hn k
    have hnone : ((range k).map (n + ·)).filter (logMsgGetBit (tagWords h msg)) = [] := by
      rw [filter_eq_nil_iff]
      intro id hid
      obtain ⟨i, -, rfl⟩ := mem_map.1 hid
      simp [hn _ (Nat.le_add_right n i)]
    rw [range_add, filter_append, hnone, append_nil]
  rw [← hrange 8160 (fun id hid => hok.small id hid) ((tagWords h msg).length * 64),
    ← hrange _ (fun id hid => getBit_of_length hid) 8160, Nat.add_comm]

theorem ArrayOk.of_words (hok : ArrayOk h msg) (htags : msg'.tags = msg.tags)
    (harr : ∀ a last, msg.tags = .array a last → h'.tagArrays[a]? = h.tagArrays[a]?) :
    ArrayOk h' msg' ∧ tagWords h' msg' = tagWords h msg := by
  refine ⟨fun a last ht => ?_, ?_⟩
  · rw [htags] at ht
    rw [harr a last ht]
    exact hok a last ht
  · unfold tagWords
    rw [htags]
    cases ht : msg.tags with
    | word word => rfl
    | array a last =>
      show ((h'.tagArrays[a]?).getD []).take (last + 1) = _
      rw [harr a last ht]

theorem TagsOk.of_words (hok : TagsOk h msg) (htags : msg'.tags = msg.tags)
    (harr : ∀ a last, msg.tags = .array a last → h'.tagArrays[a]? = h.tagArrays[a]?) :
    TagsOk h' msg' ∧ tagWords h' msg' = tagWords h msg := by
  obtain ⟨harray, hwords⟩ := ArrayOk.of_words hok.array htags harr
  exact ⟨⟨harray, fun id hid => by rw [hwords]; exact hok.small id hid⟩, hwords⟩

def TagWritten (h h' : LogHeap P) (m : Nat) (msg : LogMessage) (id : Nat) (on : Bool) : Prop :=
  ∃ msg', h'.msgs[m]? = some msg' ∧ TagsOk h' msg' ∧ ∀ id', logMsgGetBit (tagWords h' msg') id' =
    if id' = id then on else logMsgGetBit (tagWords h msg) id'

/-- The id is small enough, or the array is large enough, for its bit to be written. -/
def TagRoom (h : LogHeap P) (msg : LogMessage) (id : Nat) : Prop :=
  id ≤ 8159 ∨ id < (tagWords h msg).length * 64

instance (h : LogHeap P) (msg : LogMessage) (id : Nat) : Decidable (TagRoom h msg id) :=
  inferInstanceAs (Decidable (_ ∨ _))

/-- A message whose words have one bit set or cleared, if there is room for it. -/
def BitWritten (h h' : LogHeap P) (m : Nat) (msg : LogMessage) (id : Nat) (on : Bool) : Prop :=
  ∃ msg', h'.msgs[m]? = some msg' ∧ ArrayOk h' msg' ∧ ∀ id', logMsgGetBit (tagWords h' msg') id' =
    if id' = id ∧ TagRoom h msg id then on else logMsgGetBit (tagWords h msg) id'

theorem BitWritten.of_array {a last : Nat} {words : List (BitVec 64)} (hm : h'.msgs[m]? = some msg')
    (ht : msg'.tags = .array a last) (hw : h'.tagArrays[a]? = some words) (hlen : words.length = last + 1)
    (hlast : last < 128) (hbits : ∀ id', logMsgGetBit words id' =
      if id' = id ∧ TagRoom h msg id then on else logMsgGetBit (tagWords h msg) id') :
    BitWritten h h' m msg id on := by
  refine ⟨msg', hm, fun b last' hb => ?_, fun id' => (tagWords_array ht hw hlen) ▸ hbits id'⟩
  rw [ht, LogTags.array.injEq] at hb
  obtain ⟨rfl, rfl⟩ := hb
  exact ⟨words, hw, hlen, hlast⟩

theorem bitWritten_storeTags {a last : Nat} {words : List (BitVec 64)} (hm : h.msgs[m]? = some msg)
    (ha : a < h.tagArrays.length) (hlen : words.length = last + 1) (hlast : last < 128)
    (hbits : ∀ id', logMsgGetBit words id' =
      if id' = id ∧ TagRoom h msg id then on else logMsgGetBit (tagWords h msg) id') :
    BitWritten h (storeTags h m msg a last words) m msg id on := by
  have hlt := (List.getElem?_eq_some_iff.1 hm).1
  unfold storeTags
  split
  · refine BitWritten.of_array (?_ : _ = some { msg with tags := .array a last }) rfl
      (getElem?_set_self ha) hlen hlast hbits
    show (h.modify m _).msgs[m]? = _
    rw [modify_eq_set hm, getElem?_set_self hlt]
  · refine BitWritten.of_array (?_ : _ = some (logMsgSetFlag
      { msg with tags := .array h.tagArrays.length last } lfStateOwnTags)) rfl
        getElem?_concat_length hlen hlast hbits
    show (h.modify m _).msgs[m]? = _
    rw [modify_eq_set hm, getElem?_set_self hlt]

theorem bitWritten_setTag (hm : h.msgs[m]? = some msg) (hok : ArrayOk h msg)
    (hs : logMsgSetTagByIdOnoff h m id on = some h') : BitWritten h h' m msg id on := by
  have hlt := (List.getElem?_eq_some_iff.1 hm).1
  unfold logMsgSetTagByIdOnoff at hs
  rw [hm, bind_some] at hs
  split at hs
  · cases hs
  cases ht : msg.tags with
  | word word =>
    have hword := tagWords_word (h := h) ht
    have hlen : (tagWords h msg).length = 1 := by rw [hword]; rfl
    rw [ht] at hs
    simp only at hs
    split at hs
    · -- the tag is stored inline
      rename_i hinline
      cases hs
      have hroom : TagRoom h msg id := .inl (by omega)
      refine ⟨logMsgSetFlag { msg with tags := .word (setBit word id on) } lfStateOwnTags, ?_,
        fun a last hb => (by cases hb), fun id' => ?_⟩
      · rw [modify_eq_set hm, getElem?_set_self hlt]
      · have hset : logMsgSetBit [word] id on = [setBit word id on] := by
          unfold logMsgSetBit
          rw [Nat.div_eq_of_lt hinline, Nat.mod_eq_of_lt hinline]
          rfl
        show logMsgGetBit [setBit word id on] id' = _
        rw [← hset, getBit_setBit (by rw [Nat.div_eq_of_lt hinline]; exact Nat.zero_lt_one), hword]
        simp only [hroom, and_true]
    split at hs
    · -- there can be no such tag
      rename_i hbig
      cases hs
      have hroom : ¬ TagRoom h msg id := by
        unfold TagRoom
        omega
      obtain ⟨hok', hwords⟩ := hok.of_words (show (logMsgSetFlag msg lfStateOwnTags).tags = msg.tags
        from rfl) (fun a last _ => show (h.modify m (logMsgSetFlag · lfStateOwnTags)).tagArrays[a]? =
          h.tagArrays[a]? from rfl)
      refine ⟨logMsgSetFlag msg lfStateOwnTags, ?_, hok', fun id' => ?_⟩
      · rw [modify_eq_set hm, getElem?_set_self hlt]
      · rw [hwords, if_neg fun hand => hroom hand.2]
    · -- the inline tags move to an array
      rename_i hinline hid
      cases hs
      have hroom : TagRoom h msg id := .inl (by omega)
      have hfirst : (replicate (id / 64 + 1) (0 : BitVec 64)).set 0 word =
          [word] ++ replicate (id / 64) 0 := rfl
      refine BitWritten.of_array (?_ : _ = some (logMsgSetFlag
          { msg with tags := .array h.tagArrays.length (id / 64) } lfStateOwnTags)) rfl
        getElem?_concat_length ?_ (by omega) fun id' => ?_
      · show (h.modify m _).msgs[m]? = _
        rw [modify_eq_set hm, getElem?_set_self hlt]
      · simp [logMsgSetBit]
      · rw [getBit_setBit (by simp), hfirst, getBit_append_zeros, hword]
        simp only [hroom, and_true]
  | array a last =>
    obtain ⟨words, hw, hlen, hlast⟩ := hok a last ht
    have hwords := tagWords_array ht hw hlen
    have ha := (List.getElem?_eq_some_iff.1 hw).1
    rw [ht] at hs
    simp only [hw, map_some, Option.some.injEq] at hs
    rw [take_of_length_le (by omega)] at hs
    split at hs
    · rename_i hout
      split at hs
      · -- the words are stored again as they were
        rename_i hbig
        subst hs
        have hroom : ¬ TagRoom h msg id := by
          unfold TagRoom
          rw [hwords, hlen]
          omega
        refine bitWritten_storeTags hm ha hlen hlast fun id' => ?_
        rw [hwords, if_neg fun hand => hroom hand.2]
      · -- the array grows
        subst hs
        have hroom : TagRoom h msg id := .inl (by omega)
        refine bitWritten_storeTags hm ha ?_ (by omega) fun id' => ?_
        · simp [logMsgSetBit, hlen]
          omega
        · rw [getBit_setBit (by simp [hlen]; omega), getBit_append_zeros, hwords]
          simp only [hroom, and_true]
    · subst hs
      have hroom : TagRoom h msg id := by
        unfold TagRoom
        rw [hwords, hlen]
        omega
      refine bitWritten_storeTags hm ha (by simp [logMsgSetBit, hlen]) hlast fun id' => ?_
      rw [getBit_setBit (by omega), hwords]
      simp only [hroom, and_true]

/-- **A set or clear** changes the bit of its id. -/
theorem tagWritten_setTag (hm : h.msgs[m]? = some msg) (hok : TagsOk h msg) (hid : id ≤ 8159)
    (hs : logMsgSetTagByIdOnoff h m id on = some h') : TagWritten h h' m msg id on := by
  obtain ⟨msg', hm', hok', hbits⟩ := bitWritten_setTag hm hok.array hs
  have hroom : TagRoom h msg id := .inl hid
  simp only [hroom, and_true] at hbits
  refine ⟨msg', hm', ⟨hok', fun id' hid' => ?_⟩, hbits⟩
  rw [hbits, if_neg (by omega)]
  exact hok.small id' hid'

end

/-! ## Operations that leave the tags alone -/

structure SameTags (h h' : LogHeap P) : Prop where
  arrays : h'.tagArrays = h.tagArrays
  tags : h'.msgs.map LogMessage.tags = h.msgs.map LogMessage.tags

section

variable {h h' h'' : LogHeap P} {m : Nat}

theorem SameTags.refl : SameTags h h := ⟨rfl, rfl⟩

theorem SameTags.trans (hs : SameTags h h') (hs' : SameTags h' h'') : SameTags h h'' :=
  ⟨hs'.arrays.trans hs.arrays, hs'.tags.trans hs.tags⟩

theorem map_tags_modify {f : LogMessage → LogMessage} (hf : ∀ msg, (f msg).tags = msg.tags) :
    (h.modify m f).msgs.map LogMessage.tags = h.msgs.map LogMessage.tags := by
  apply ext_getElem?
  intro j
  show ((h.msgs.modify m f).map LogMessage.tags)[j]? = _
  rw [getElem?_map, getElem?_map, getElem?_modify]
  cases h.msgs[j]? with
  | none => rfl
  | some msg =>
    by_cases hj : m = j
    · simp [hj, hf]
    · simp [hj]

theorem SameTags.modify {f : LogMessage → LogMessage} (hf : ∀ msg, (f msg).tags = msg.tags) :
    SameTags h (h.modify m f) :=
  ⟨rfl, map_tags_modify hf⟩

theorem sameTags_updateSdata {registry : LogMsgRegistry} {handle : Nat} :
    SameTags h (logMsgUpdateSdata registry h m handle) := by
  unfold logMsgUpdateSdata
  split
  · split
    · unfold logMsgUpdateSdataSlow
      split
      · exact .refl
      dsimp only
      split
      · exact ⟨rfl, map_tags_modify fun _ => rfl⟩
      · exact ⟨rfl, map_tags_modify fun _ => rfl⟩
    · exact .refl
  · exact .refl

theorem sameTags_changePayload {ops : PayloadOps P} {self : LogMessage} {space : Nat} {newEntry : Bool}
    {change : P → Option (P × Bool)}
    (hc : logMsgChangePayload ops h m self space change = some (h', newEntry)) : SameTags h h' := by
  unfold logMsgChangePayload at hc
  obtain ⟨payload, -, hc⟩ := bind_eq_some_iff.1 hc
  split at hc
  · obtain ⟨⟨p', e⟩, -, heq⟩ := map_eq_some_iff.1 hc
    cases heq
    exact ⟨rfl, rfl⟩
  · obtain ⟨copy, -, hc⟩ := bind_eq_some_iff.1 hc
    obtain ⟨⟨p', e⟩, -, heq⟩ := map_eq_some_iff.1 hc
    cases heq
    exact ⟨rfl, map_tags_modify fun _ => rfl⟩

theorem sameTags_setValue {ops : PayloadOps P} {registry : LogMsgRegistry} {handle : Nat}
    {value : List UInt8} (hs : logMsgSetValue ops registry h m handle value = some h') : SameTags h h' := by
  unfold logMsgSetValue at hs
  obtain ⟨self, -, -, hs⟩ := unprotected_of_guard hs
  split at hs
  · cases hs
    exact .refl
  obtain ⟨⟨h1, newEntry⟩, hc, heq⟩ := map_eq_some_iff.1 hs
  dsimp only at heq
  have hsdata : SameTags h (if newEntry then logMsgUpdateSdata registry h1 m handle else h1) := by
    split
    · exact (sameTags_changePayload hc).trans sameTags_updateSdata
    · exact sameTags_changePayload hc
  split at heq
  · subst heq
    exact hsdata.trans (.modify fun _ => rfl)
  · subst heq
    exact hsdata

theorem sameTags_setValueIndirect {ops : PayloadOps P} {registry : LogMsgRegistry}
    {handle refHandle type ofs len : Nat}
    (hs : logMsgSetValueIndirect ops registry h m handle refHandle type ofs len = some h') :
    SameTags h h' := by
  unfold logMsgSetValueIndirect at hs
  obtain ⟨self, -, -, hs⟩ := unprotected_of_guard hs
  split at hs
  · cases hs
    exact .refl
  split at hs
  · cases hs
  obtain ⟨⟨h1, newEntry⟩, hc, heq⟩ := map_eq_some_iff.1 hs
  dsimp only at heq
  subst heq
  split
  · exact (sameTags_changePayload hc).trans sameTags_updateSdata
  · exact sameTags_changePayload hc

theorem SameTags.getElem (hs : SameTags h h') {msg' : LogMessage} (hm : h'.msgs[m]? = some msg') :
    ∃ msg, h.msgs[m]? = some msg ∧ msg'.tags = msg.tags := by
  have hmap : (h'.msgs.map LogMessage.tags)[m]? = some msg'.tags := by
    rw [getElem?_map, hm, map_some]
  rw [hs.tags, getElem?_map] at hmap
  obtain ⟨msg, hmsg, htags⟩ := map_eq_some_iff.1 hmap
  exact ⟨msg, hmsg, htags.symm⟩

theorem sameTags_step {ops : PayloadOps P} {registry : LogMsgRegistry} {op : MsgOp}
    (hs : msgStep ops registry h op = some h') (hset : ∀ m id on, op ≠ .setTag m id on)
    (hclone : op.clones h = none) : SameTags h h' := by
  cases op with
  | setValue m handle value => exact sameTags_setValue hs
  | setValueIndirect m handle refHandle type ofs len => exact sameTags_setValueIndirect hs
  | setTag m id on => exact absurd rfl (hset m id on)
  | setPri | setStamps | setFlags =>
    cases hs
    exact .modify fun _ => rfl
  | clone m ackNeeded => cases hclone
  | makeWritable m ackNeeded =>
    obtain ⟨⟨h1, c⟩, hc, rfl⟩ := map_eq_some_iff.1 hs
    unfold logMsgMakeWritable at hc
    obtain ⟨msg, hm, hc⟩ := bind_eq_some_iff.1 hc
    split at hc
    · rename_i hprot
      rw [MsgOp.clones, hm, any_some, if_pos hprot] at hclone
      cases hclone
    · cases hc
      exact .refl
  | queue m | guard m =>
    obtain ⟨msg, -, rfl⟩ := map_eq_some_iff.1 hs
    exact ⟨rfl, map_tags_modify fun _ => rfl⟩
  | addAck m ackNeeded =>
    cases hs
    unfold logMsgAddAck
    split
    · exact .modify fun _ => rfl
    · exact .refl
  | unguard m =>
    rw [msgStep] at hs
    split at hs
    · cases hs
      exact ⟨rfl, map_tags_modify fun _ => rfl⟩
    · cases hs

end

/-! ## Runs -/

structure TagsTold (h : LogHeap P) (sets : TagSets) : Prop where
  length : sets.length = h.msgs.length
  ok : ∀ {m : Nat} {msg : LogMessage}, h.msgs[m]? = some msg → TagsOk h msg
  told : ∀ {m : Nat} {msg : LogMessage}, h.msgs[m]? = some msg → ∀ id, logMsgGetBit (tagWords h msg) id = sets.get m id

section

variable {h h' : LogHeap P} {sets : TagSets} {m t : Nat} {msg tmsg : LogMessage} {op : MsgOp}
variable {ops : PayloadOps P} {registry : LogMsgRegistry}

theorem TagsTold.sameTags (ht : TagsTold h sets) (hs : SameTags h h') : TagsTold h' sets := by
  have hkeep : ∀ {m : Nat} {msg' : LogMessage}, h'.msgs[m]? = some msg' → ∃ msg, h.msgs[m]? = some msg ∧
      TagsOk h' msg' ∧ tagWords h' msg' = tagWords h msg := by
    intro m msg' hm'
    obtain ⟨msg, hm, htags⟩ := hs.getElem hm'
    exact ⟨msg, hm, (ht.ok hm).of_words htags fun a last _ => by rw [hs.arrays]⟩
  refine ⟨?_, fun hm' => ?_, fun hm' => ?_⟩
  · have := congrArg List.length hs.tags
    rw [length_map, length_map] at this
    rw [this, ht.length]
  · obtain ⟨msg, -, hok, -⟩ := hkeep hm'
    exact hok
  · obtain ⟨msg, hm, -, hwords⟩ := hkeep hm'
    rw [hwords]
    exact ht.told hm

/-- **A set or clear** is seen in its message, under its id. -/
theorem TagsTold.setTag (ht : TagsTold h sets) (hi : HeapInv h) {id : Nat} {on : Bool} (hid : id ≤ 8159)
    (hs : logMsgSetTagByIdOnoff h m id on = some h') :
    TagsTold h' (sets.modify m fun set => Function.update set id on) := by
  obtain ⟨msg, msg', hm, hcnt, hu⟩ := updated_setTag hs
  obtain ⟨msg1, hm1, hok, hbits⟩ := tagWritten_setTag hm (ht.ok hm) hid hs
  have hlt := (List.getElem?_eq_some_iff.1 hm).1
  -- the arrays of the other messages are not those of this one
  have hother : ∀ {j other}, j ≠ m → h'.msgs[j]? = some other → h.msgs[j]? = some other ∧
      TagsOk h' other ∧ tagWords h' other = tagWords h other := by
    intro j other hne hj
    rw [hu.getElem_ne hne] at hj
    refine ⟨hj, (ht.ok hj).of_words rfl fun a last ha => ?_⟩
    refine hi.tags.frame (map_set_getElem hm) (hi.no_child hm hcnt fun _ => rfl) hu.tags
      (map_set_getElem hj) hne (a := a) ?_
    show other.tags.obj = some a
    rw [ha]
    rfl
  refine ⟨?_, fun {j other} hj => ?_, fun {j other} hj id' => ?_⟩
  · rw [length_modify, ht.length, hu.msgs, length_set]
  · by_cases hjm : j = m
    · subst hjm
      rw [hm1, some_inj] at hj
      exact hj ▸ hok
    · exact (hother hjm hj).2.1
  · unfold TagSets.get
    rw [getElem?_modify]
    by_cases hjm : j = m
    · subst hjm
      rw [hm1, some_inj] at hj
      subst hj
      have hset := getElem?_eq_getElem (ht.length.symm ▸ hlt : j < sets.length)
      have htold := ht.told hm id'
      unfold TagSets.get at htold
      rw [hset, any_some] at htold
      rw [hbits, htold, hset, Option.map_eq_map, map_some, any_some, if_pos rfl, Function.update_apply]
    · obtain ⟨hold, -, hwords⟩ := hother hjm hj
      rw [hwords, ht.told hold]
      simp only [TagSets.get, if_neg (Ne.symm hjm)]
      cases sets[j]? <;> rfl

theorem cloneKeepsTags_iff (hc : op.clones h = some m) (hm : h.msgs[m]? = some msg) :
    cloneKeepsTags h op = true ↔ (hasNoContent msg = true → ∃ orig,
      (msg.original.bind fun o => h.msgs[o]?) = some orig ∧ orig.tags.inlineWord = msg.tags.inlineWord) := by
  unfold cloneKeepsTags
  rw [hc, bind_some, hm, Option.all_some, Bool.or_eq_true, Bool.not_eq_true',
    decide_eq_true_eq, map_eq_some_iff]
  cases hasNoContent msg <;> simp

theorem HeapInv.original_tags (hi : HeapInv h) (hm : h.msgs[m]? = some msg)
    (hnone : hasNoContent msg = true) :
    ∃ o orig, msg.original = some o ∧ h.msgs[o]? = some orig ∧
      ((∀ id, logMsgGetBit (tagWords h orig) id = logMsgGetBit (tagWords h msg) id) ↔
        orig.tags.inlineWord = msg.tags.inlineWord) := by
  obtain ⟨o, orig, ho, horig, -, -, -, hzero, harray⟩ := hi.original hm hnone
  refine ⟨o, orig, ho, horig, ?_⟩
  have hsame : orig.tags = msg.tags →
      ∀ id, logMsgGetBit (tagWords h orig) id = logMsgGetBit (tagWords h msg) id := by
    intro htags id
    unfold tagWords
    rw [htags]
  cases htm : msg.tags with
  | array a last =>
    have htags := harray (by rw [htm]; exact Nat.succ_ne_zero last)
    exact ⟨fun _ => by rw [htags, htm], fun _ => hsame htags⟩
  | word w =>
    have hz := hzero (by rw [htm]; rfl)
    cases hto : orig.tags with
    | array a last =>
      rw [hto] at hz
      cases hz
    | word w' =>
      constructor
      · intro hbits
        refine congrArg some (BitVec.eq_of_getLsbD_eq fun i hi => ?_)
        have := hbits i
        rw [tagWords_word htm, tagWords_word hto] at this
        simpa [logMsgGetBit, Nat.div_eq_of_lt hi, Nat.mod_eq_of_lt hi] using this
      · intro hw
        refine hsame ?_
        rw [hto, htm, Option.some.inj hw]

theorem cloneTarget_tags (hi : HeapInv h) (hc : op.clones h = some m) (hm : h.msgs[m]? = some msg)
    (ht : cloneTarget h m = some t) (htm : h.msgs[t]? = some tmsg) :
    (∀ id, logMsgGetBit (tagWords h tmsg) id = logMsgGetBit (tagWords h msg) id) ↔
      cloneKeepsTags h op = true := by
  rw [cloneKeepsTags_iff hc hm]
  unfold cloneTarget at ht
  rw [hm, bind_some] at ht
  split at ht
  · rename_i hnone
    obtain ⟨o, orig, ho, horig, hiff⟩ := hi.original_tags hm hnone
    rw [ho, some_inj] at ht
    subst ht
    rw [horig, some_inj] at htm
    subst htm
    rw [hiff, ho, bind_some, horig]
    constructor
    · exact fun hw _ => ⟨orig, rfl, hw⟩
    · intro hall
      obtain ⟨orig', heq, hw⟩ := hall hnone
      rw [some_inj] at heq
      exact heq ▸ hw
  · rename_i hsome
    cases ht
    rw [hm, some_inj] at htm
    subst htm
    exact ⟨fun _ hnone => absurd hnone hsome, fun _ _ => rfl⟩

theorem clones_effect (hs : msgStep ops registry h op = some h') (hc : op.clones h = some m) :
    ∃ t tmsg ackNeeded, cloneTarget h m = some t ∧ h.msgs[t]? = some tmsg ∧
      op.protects h = some t ∧ h' = h.withClone t tmsg ackNeeded := by
  cases op with
  | clone m1 ackNeeded =>
    cases hc
    obtain ⟨⟨h1, c⟩, hcow, rfl⟩ := map_eq_some_iff.1 hs
    obtain ⟨t, tmsg, ht, htm, -, rfl⟩ := cloneCow_eq hcow
    exact ⟨t, tmsg, ackNeeded, ht, htm, ht, rfl⟩
  | makeWritable m1 ackNeeded =>
    obtain ⟨⟨h1, c⟩, hcow, rfl⟩ := map_eq_some_iff.1 hs
    unfold logMsgMakeWritable at hcow
    obtain ⟨msg, hm, hcow⟩ := bind_eq_some_iff.1 hcow
    rw [MsgOp.clones, hm, any_some] at hc
    split at hcow
    · rename_i hprot
      rw [if_pos hprot] at hc
      cases hc
      obtain ⟨t, tmsg, ht, htm, -, rfl⟩ := cloneCow_eq hcow
      refine ⟨t, tmsg, ackNeeded, ht, htm, ?_, rfl⟩
      rw [MsgOp.protects, hm, bind_some, if_pos hprot, ht]
    · rename_i hprot
      rw [if_neg hprot] at hc
      cases hc
  | _ => cases hc

theorem tagSetsStep_clones (hc : op.clones h = some m) : tagSetsStep h sets op = sets ++ [sets.get m] := by
  cases op with
  | clone | makeWritable =>
    unfold tagSetsStep
    rw [hc]
  | _ => cases hc

theorem get_append_left {j : Nat} {set : Nat → Bool} (hj : j < sets.length) :
    TagSets.get (sets ++ [set]) j = sets.get j := by
  funext id
  unfold TagSets.get
  rw [getElem?_append_left hj]

theorem get_append_length {set : Nat → Bool} : TagSets.get (sets ++ [set]) sets.length = set := by
  funext id
  unfold TagSets.get
  rw [getElem?_append_right (le_refl _), Nat.sub_self]
  rfl

theorem tags_withClone {ackNeeded : Bool} {j : Nat} {self : LogMessage} (htm : h.msgs[t]? = some tmsg)
    (hj : (h.withClone t tmsg ackNeeded).msgs[j]? = some self) :
    (∃ old, h.msgs[j]? = some old ∧ self.tags = old.tags) ∨ j = h.msgs.length ∧ self.tags = tmsg.tags := by
  rcases withClone_getElem hj with hold | ⟨rfl, rfl⟩
  · by_cases hjt : j = t
    · subst hjt
      rw [getElem?_set_self (List.getElem?_eq_some_iff.1 htm).1, some_inj] at hold
      exact .inl ⟨tmsg, htm, by rw [← hold]; rfl⟩
    · rw [getElem?_set_ne (Ne.symm hjt)] at hold
      exact .inl ⟨self, hold, rfl⟩
  · exact .inr ⟨rfl, cloneOf_fields.2.2⟩

/-- **A clone** has the tags of its message, exactly if what is cloned has them. -/
theorem TagsTold.clone (ht : TagsTold h sets) (hi : HeapInv h) (hs : msgStep ops registry h op = some h')
    (hc : op.clones h = some m) : TagsTold h' (tagSetsStep h sets op) ↔ cloneKeepsTags h op = true := by
  obtain ⟨t, tmsg, ackNeeded, htarget, htm, -, rfl⟩ := clones_effect hs hc
  have hmsg : ∃ msg, h.msgs[m]? = some msg := by
    unfold cloneTarget at htarget
    obtain ⟨msg, hm, -⟩ := bind_eq_some_iff.1 htarget
    exact ⟨msg, hm⟩
  obtain ⟨msg, hm⟩ := hmsg
  rw [← cloneTarget_tags hi hc hm htarget htm, tagSetsStep_clones hc]
  have hlen : (h.withClone t tmsg ackNeeded).msgs.length = h.msgs.length + 1 := by
    show (h.msgs.set t (logMsgWriteProtect tmsg) ++ [cloneOf t tmsg ackNeeded]).length = _
    rw [length_append, length_set, length_singleton]
  have hwords : ∀ {j : Nat} {self : LogMessage},
      (h.withClone t tmsg ackNeeded).msgs[j]? = some self → ∃ k old, h.msgs[k]? = some old ∧
        (TagsOk (h.withClone t tmsg ackNeeded) self ∧
          tagWords (h.withClone t tmsg ackNeeded) self = tagWords h old) ∧
        (k = j ∧ j < h.msgs.length ∨ j = h.msgs.length ∧ old = tmsg) := by
    intro j self hj
    rcases tags_withClone htm hj with ⟨old, hold, htags⟩ | ⟨rfl, htags⟩
    · exact ⟨j, old, hold, (ht.ok hold).of_words htags fun _ _ _ => rfl,
        .inl ⟨rfl, (List.getElem?_eq_some_iff.1 hold).1⟩⟩
    · exact ⟨t, tmsg, htm, (ht.ok htm).of_words htags fun _ _ _ => rfl, .inr ⟨rfl, rfl⟩⟩
  constructor
  · intro htold id
    obtain ⟨self, hself⟩ : ∃ self, (h.withClone t tmsg ackNeeded).msgs[h.msgs.length]? = some self :=
      ⟨_, getElem?_eq_getElem (by omega)⟩
    obtain ⟨k, old, -, ⟨-, hw⟩, hcase⟩ := hwords hself
    have htold := htold.told hself id
    rw [← ht.length, get_append_length] at htold
    rcases hcase with ⟨-, hlt⟩ | ⟨-, rfl⟩
    · omega
    · rw [← hw, htold, ht.told hm]
  · intro hbits
    refine ⟨?_, fun hj => ?_, fun {j self} hj id => ?_⟩
    · rw [hlen, length_append, length_singleton, ht.length]
    · obtain ⟨k, old, -, ⟨hok, -⟩, -⟩ := hwords hj
      exact hok
    · obtain ⟨k, old, hold, ⟨-, hw⟩, hcase⟩ := hwords hj
      rw [hw]
      rcases hcase with ⟨rfl, hlt⟩ | ⟨rfl, rfl⟩
      · rw [get_append_left (by rw [ht.length]; exact hlt), ht.told hold]
      · rw [← ht.length, get_append_length, hbits, ht.told hm]

/-- **A step keeps the tags**, if a clone does not lose those of its message. -/
theorem TagsTold.step {s s' : LogHeap P × TagSets} (ht : TagsTold s.1 s.2) (hi : HeapInv s.1)
    (hs : TagNext ops registry s op s') (hkeeps : cloneKeepsTags s.1 op = true) : TagsTold s'.1 s'.2 := by
  obtain ⟨⟨-, hstep⟩, hok, hsets⟩ := hs
  rw [hsets]
  cases hc : op.clones s.1 with
  | some m => exact (ht.clone hi hstep hc).2 hkeeps
  | none =>
    by_cases hset : ∃ m id on, op = .setTag m id on
    · obtain ⟨m, id, on, rfl⟩ := hset
      exact ht.setTag hi (of_decide_eq_true hok) hstep
    · have hnot : ∀ m id on, op ≠ .setTag m id on := fun m id on heq => hset ⟨m, id, on, heq⟩
      have hsame : tagSetsStep s.1 s.2 op = s.2 := by
        cases op with
        | setTag m id on => exact absurd rfl (hnot m id on)
        | _ =>
          unfold tagSetsStep
          rw [hc]
      rw [hsame]
      exact ht.sameTags (sameTags_step hstep hnot hc)

theorem TagsTold.start (payload : P) (recvd : LogStamp) :
    TagsTold (logMsgNew payload recvd) [fun _ => false] := by
  have hone : ∀ {m : Nat} {msg : LogMessage}, (logMsgNew payload recvd).msgs[m]? = some msg →
      m = 0 ∧ msg.tags = .word 0 := by
    intro m msg hm
    obtain ⟨hlt, rfl⟩ := List.getElem?_eq_some_iff.1 hm
    obtain rfl : m = 0 := Nat.lt_one_iff.1 hlt
    exact ⟨rfl, rfl⟩
  have hzero : ∀ id, logMsgGetBit [0] id = false := by
    intro id
    unfold logMsgGetBit
    cases id / 64 <;> simp
  refine ⟨rfl, fun hm => ⟨fun a last ha => ?_, fun id _ => ?_⟩, fun hm id => ?_⟩
  · rw [(hone hm).2] at ha
    cases ha
  · rw [tagWords_word (hone hm).2, hzero]
  · rw [tagWords_word (hone hm).2, hzero, (hone hm).1]
    rfl

/-- **Every message has the tags** that were set last on it or on what it was cloned from, in every
run in which no clone loses those of its message; a further clone does so exactly if
`cloneKeepsTags` is false. -/
theorem log_msg_tag_sets {payload : P} {recvd : LogStamp} {script : List MsgOp}
    (hrun : Run (fun s op s' => TagNext ops registry s op s' ∧ cloneKeepsTags s.1 op = true)
      (logMsgNew payload recvd, [fun _ => false]) script (h, sets)) :
    (∀ m msg, h.msgs[m]? = some msg → (∀ id, logMsgIsTagById h msg id = sets.get m id) ∧
      logMsgTagsForeach h msg = (range 8160).filter (sets.get m)) ∧
    ∀ op m h' msg, MsgNext ops registry h op h' → op.clones h = some m →
      h'.msgs[h.msgs.length]? = some msg →
        ((∀ id, logMsgIsTagById h' msg id = sets.get m id) ↔ cloneKeepsTags h op = true) := by
  have hinv : HeapInv h ∧ TagsTold h sets := by
    refine hrun.invariant (I := fun s => HeapInv s.1 ∧ TagsTold s.1 s.2) ?_
      ⟨.start payload recvd, .start payload recvd⟩
    rintro s op s' ⟨hs, hkeeps⟩ ⟨hi, ht⟩
    exact ⟨hi.step hs.1, ht.step hi hs hkeeps⟩
  obtain ⟨hi, ht⟩ := hinv
  refine ⟨fun m msg hm => ?_, fun op m h' msg hs hc hlast => ?_⟩
  · have htold : ∀ id, logMsgIsTagById h msg id = sets.get m id := fun id => by
      rw [(ht.ok hm).isTag, ht.told hm]
    refine ⟨htold, ?_⟩
    rw [(ht.ok hm).foreach, funext htold]
  · obtain ⟨t, tmsg, ackNeeded, htarget, htm, -, rfl⟩ := clones_effect hs.2 hc
    obtain ⟨self, hm, -⟩ := bind_eq_some_iff.1 htarget
    rw [← cloneTarget_tags hi hc hm htarget htm]
    have hclone : msg.tags = tmsg.tags := by
      rcases tags_withClone htm hlast with ⟨old, hold, -⟩ | ⟨-, htags⟩
      · exact absurd (List.getElem?_eq_some_iff.1 hold).1 (lt_irrefl _)
      · exact htags
    have hsame : TagsOk (h.withClone t tmsg ackNeeded) msg ∧
        tagWords (h.withClone t tmsg ackNeeded) msg = tagWords h tmsg :=
      (ht.ok htm).of_words hclone fun _ _ _ => rfl
    obtain ⟨hok, hwords⟩ := hsame
    refine forall_congr' fun id => ?_
    rw [hok.isTag, hwords, ht.told hm]

theorem tagNext_sound {s s' : LogHeap P × TagSets} (hs : tagNext ops registry s op = some s') :
    TagNext ops registry s op s' := by
  unfold tagNext at hs
  split at hs
  · rename_i hok
    obtain ⟨h', hstep, rfl⟩ := map_eq_some_iff.1 hs
    unfold msgNext at hstep
    split at hstep
    · rename_i hfit
      exact ⟨⟨hfit, hstep⟩, hok, rfl⟩
    · cases hstep
  · cases hs

end

/-- Inline tags that become an array, a clone that copies it, and a clone of the clone. -/
theorem log_msg_tag_sets_clones : ∃ h sets,
    Run (fun s op s' => TagNext nvTableOps plainRegistry s op s' ∧ cloneKeepsTags s.1 op = true)
      (logMsgNew (NameValue.nvTableNew 9 16 256) ⟨0, 0, 0⟩, [fun _ => false])
      [.setTag 0 63 true, .setTag 0 64 true, .clone 0 true, .setTag 1 63 false, .setTag 1 8159 true,
        .clone 1 true] (h, sets) ∧
    ∀ m msg, h.msgs[m]? = some msg →
      logMsgTagsForeach h msg = (range 8160).filter (sets.get m) := by
  have hsome := show (exec (fun s op => if cloneKeepsTags s.1 op then
      tagNext nvTableOps plainRegistry s op else none)
      (logMsgNew (NameValue.nvTableNew 9 16 256) ⟨0, 0, 0⟩, [fun _ => false])
      [.setTag 0 63 true, .setTag 0 64 true, .clone 0 true, .setTag 1 63 false, .setTag 1 8159 true,
        .clone 1 true]).isSome = true by decide +kernel
  obtain ⟨⟨h, sets⟩, hexec⟩ := Option.isSome_iff_exists.1 hsome
  have hsound : ∀ s op s', (if cloneKeepsTags s.1 op then tagNext nvTableOps plainRegistry s op
      else none) = some s' →
        TagNext nvTableOps plainRegistry s op s' ∧ cloneKeepsTags s.1 op = true := by
    intro s op s' hs
    split at hs
    · rename_i hkeeps
      exact ⟨tagNext_sound hs, hkeeps⟩
    · cases hs
  have hrun := Run.of_exec hsound hexec
  exact ⟨h, sets, hrun, fun m msg hm => ((log_msg_tag_sets hrun).1 m msg hm).2⟩

/-- A tag is set on a clone of a plain message, and lost when that is cloned. -/
theorem log_msg_tag_sets_lost : ∃ h sets msg,
    Run (TagNext nvTableOps plainRegistry)
      (logMsgNew (NameValue.nvTableNew 9 16 256) ⟨0, 0, 0⟩, [fun _ => false])
      [.clone 0 true, .setTag 1 5 true, .clone 1 true] (h, sets) ∧
    h.msgs[2]? = some msg ∧ sets.get 2 5 = true ∧ logMsgIsTagById h msg 5 = false := by
  have hsome := show ((exec (tagNext nvTableOps plainRegistry)
      (logMsgNew (NameValue.nvTableNew 9 16 256) ⟨0, 0, 0⟩, [fun _ => false])
      [.clone 0 true, .setTag 1 5 true, .clone 1 true]).bind fun s =>
        (s.1.msgs[2]?).map fun msg => (s.2.get 2 5, logMsgIsTagById s.1 msg 5)) =
      some (true, false) by decide +kernel
  obtain ⟨⟨h, sets⟩, hexec, hmap⟩ := bind_eq_some_iff.1 hsome
  obtain ⟨msg, hm, heq⟩ := map_eq_some_iff.1 hmap
  rw [Prod.mk.injEq] at heq
  exact ⟨h, sets, msg, Run.of_exec (fun _ _ _ => tagNext_sound) hexec, hm, heq.1, heq.2⟩

end SyslogNg.LogMsg
