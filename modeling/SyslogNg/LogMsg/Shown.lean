import SyslogNg.LogMsg.Tags

/-!
# A message on its own

What a message shows, without the heap: its payload, its structured data and its tags. The updates
of a message that is not write protected are steps of this alone (`shows_step`), whatever it owns
or shares.
-/

namespace SyslogNg.LogMsg

open Lib Option
open List hiding getElem?_eq_some_iff
open List (getElem?_set_self)
open Option (bind_some map_some some_inj)

variable {P : Type}

structure Shown (P : Type) where
  payload : P
  ownPayload : Bool
  sdata : List Nat
  initialParse : Bool
  tags : Nat → Bool

inductive Update where
  | value (handle : Nat) (bytes : List UInt8)
  | reference (handle refHandle type ofs len : Nat)
  | tag (id : Nat) (on : Bool)

/-- The update of the message `m`. -/
def Update.on (m : Nat) : Update → MsgOp
  | .value handle bytes => .setValue m handle bytes
  | .reference handle refHandle type ofs len => .setValueIndirect m handle refHandle type ofs len
  | .tag id on => .setTag m id on

/-- `sdataIndex` of a message in this phase. -/
def sdataPosition (registry : LogMsgRegistry) (initialParse : Bool) (sdata : List Nat)
    (name : List UInt8) : Nat :=
  if initialParse then sdata.length
  else
    match sdata.reverse.findIdx? fun s =>
      (registry.name s).length > prefixAndBlockLen name ∧
        (registry.name s).take (prefixAndBlockLen name) = name.take (prefixAndBlockLen name) with
    | some i => sdata.length - 1 - i
    | none => sdata.length

/-- The handles after `log_msg_update_sdata_slow`. -/
def insertSdata (registry : LogMsgRegistry) (initialParse : Bool) (sdata : List Nat)
    (handle : Nat) : List Nat :=
  if sdata.length = 255 then sdata
  else
    let i := sdataPosition registry initialParse sdata (registry.name handle)
    sdata.take i ++ handle :: sdata.drop i

/-- A new payload, with the handle if it is new structured data. -/
def Shown.store (registry : LogMsgRegistry) (a : Shown P) (handle : Nat) (r : P × Bool) : Shown P :=
  { a with
    payload := r.1
    ownPayload := true
    sdata := if r.2 && registry.isSdata handle then
      insertSdata registry a.initialParse a.sdata handle else a.sdata }

/-- The payload that is changed. -/
def Shown.writable (ops : PayloadOps P) (a : Shown P) (additionalSpace : Nat) : Option P :=
  if a.ownPayload then some a.payload else ops.clone a.payload additionalSpace

def Shown.step (ops : PayloadOps P) (registry : LogMsgRegistry) (a : Shown P) :
    Update → Option (Shown P)
  | .value handle bytes =>
    if handle = lmVNone then some a
    else
      let name := registry.name handle
      ((a.writable ops (name.length + bytes.length + 2)).bind
        (ops.addValue · handle name bytes)).map (a.store registry handle)
  | .reference handle refHandle type ofs len =>
    if handle = lmVNone then some a
    else if handle < lmVMax then none
    else
      let name := registry.name handle
      ((a.writable ops (name.length + 1)).bind
        (ops.addValueIndirect · handle name refHandle type ofs len)).map (a.store registry handle)
  | .tag id on =>
    some { a with tags := if id ≤ 8159 then Function.update a.tags id on else a.tags }

/-- The array of a message, as far as it is in use. -/
def sdataOf (h : LogHeap P) (msg : LogMessage) : List Nat :=
  ((msg.sdata.bind fun s => h.sdataArrays[s]?).getD []).take msg.numSdata

/-- A message that may be written to shows `a`. -/
structure ShowsAs (h : LogHeap P) (msg : LogMessage) (a : Shown P) : Prop where
  writable : msg.protectCnt = 0
  payload : h.payloads[msg.payload]? = some a.payload
  own : logMsgChkFlag msg lfStateOwnPayload = a.ownPayload
  sdata : sdataOf h msg = a.sdata
  length : a.sdata.length = msg.numSdata
  bound : ∀ s, msg.sdata = some s → s < h.sdataArrays.length
  parse : msg.initialParse = a.initialParse
  array : ArrayOk h msg
  tags : ∀ id, logMsgIsTagById h msg id = a.tags id

/-- The message `m` may be written to and shows `a`. -/
def Shows (h : LogHeap P) (m : Nat) (a : Shown P) : Prop :=
  ∃ msg, h.msgs[m]? = some msg ∧ ShowsAs h msg a

theorem Shows.contents {h : LogHeap P} {m : Nat} {a : Shown P} (hs : Shows h m a) :
    contents h m = some ⟨some a.payload, a.tags, a.sdata⟩ := by
  obtain ⟨msg, hm, hs⟩ := hs
  have htags : logMsgIsTagById h msg = a.tags := funext hs.tags
  unfold LogMsg.contents contentsOf
  rw [hm, map_some, hs.payload, htags, ← hs.sdata]
  rfl

theorem rel_map {A B C D : Type} {R : A → B → Prop} {S : C → D → Prop} {x : Option A} {y : Option B}
    {f : A → C} {g : B → D} (h : Option.Rel R x y) (hf : ∀ a b, R a b → S (f a) (g b)) :
    Option.Rel S (x.map f) (y.map g) := by
  cases h with
  | none => exact .none
  | some hab => exact .some (hf _ _ hab)

/-! ## Structured data -/

section

variable {h h' : LogHeap P} {m : Nat} {msg msg' : LogMessage} {a a' : Shown P}
variable {ops : PayloadOps P} {registry : LogMsgRegistry} {handle : Nat}

structure SameRest (h h' : LogHeap P) (msg msg' : LogMessage) : Prop where
  arrays : h'.tagArrays = h.tagArrays
  tags : msg'.tags = msg.tags
  cnt : msg'.protectCnt = msg.protectCnt
  parse : msg'.initialParse = msg.initialParse

theorem ShowsAs.change (hs : ShowsAs h msg a) (hr : SameRest h h' msg msg') (htags : a'.tags = a.tags)
    (hparse : a'.initialParse = a.initialParse) (hp : h'.payloads[msg'.payload]? = some a'.payload)
    (hown : logMsgChkFlag msg' lfStateOwnPayload = a'.ownPayload) (hsdata : sdataOf h' msg' = a'.sdata)
    (hlen : a'.sdata.length = msg'.numSdata)
    (hbound : ∀ s, msg'.sdata = some s → s < h'.sdataArrays.length) : ShowsAs h' msg' a' := by
  obtain ⟨hok, hwords⟩ := hs.array.of_words hr.tags fun a last _ => by rw [hr.arrays]
  refine ⟨hr.cnt.trans hs.writable, hp, hown, hsdata, hlen, hbound, ?_, hok, fun id => ?_⟩
  · rw [hr.parse, hs.parse, hparse]
  · rw [hok.isTag, hwords, ← hs.array.isTag, htags]
    exact hs.tags id

theorem sdataIndex_eq (self : LogMessage) (sdata : List Nat) (name : List UInt8) :
    sdataIndex registry self sdata name = sdataPosition registry self.initialParse sdata name := rfl

theorem insertSdata_length (sdata : List Nat) (parse : Bool) (hle : sdata.length ≠ 255) :
    (insertSdata registry parse sdata handle).length = sdata.length + 1 := by
  unfold insertSdata
  rw [if_neg hle]
  dsimp only
  rw [length_append, length_cons, length_take, length_drop]
  omega

theorem showsAs_updateSdata (registry : LogMsgRegistry) (hm : h.msgs[m]? = some msg)
    (hs : ShowsAs h msg a) (hsdata : registry.isSdata handle = true) :
    ∃ msg', (logMsgUpdateSdata registry h m handle).msgs[m]? = some msg' ∧
      ShowsAs (logMsgUpdateSdata registry h m handle) msg'
        { a with sdata := insertSdata registry a.initialParse a.sdata handle } := by
  have hlt := (List.getElem?_eq_some_iff.1 hm).1
  unfold logMsgUpdateSdata
  rw [hm]
  dsimp only
  rw [if_pos hsdata]
  unfold logMsgUpdateSdataSlow
  by_cases hfull : msg.numSdata = 255
  · rw [if_pos hfull]
    refine ⟨msg, hm, ?_⟩
    have hkeep : insertSdata registry a.initialParse a.sdata handle = a.sdata := by
      unfold insertSdata
      rw [if_pos (hs.length.trans hfull)]
    rw [hkeep]
    exact hs
  rw [if_neg hfull]
  dsimp only
  have hfull' : a.sdata.length ≠ 255 := by rw [hs.length]; exact hfull
  have hinsert : a.sdata.take (sdataPosition registry a.initialParse a.sdata (registry.name handle)) ++
      handle :: a.sdata.drop (sdataPosition registry a.initialParse a.sdata (registry.name handle)) =
        insertSdata registry a.initialParse a.sdata handle := by
    unfold insertSdata
    rw [if_neg hfull']
  have hlen : (insertSdata registry a.initialParse a.sdata handle).length = msg.numSdata + 1 := by
    rw [insertSdata_length _ _ hfull', hs.length]
  rw [show ((msg.sdata.bind fun s => h.sdataArrays[s]?).getD []).take msg.numSdata = a.sdata from
    hs.sdata, sdataIndex_eq, hs.parse, hinsert]
  split
  · rename_i s hown
    have hsome : msg.sdata = some s := by
      split at hown
      · exact hown
      · cases hown
    have hbound := hs.bound s hsome
    refine ⟨{ msg with numSdata := msg.numSdata + 1 }, ?_, ?_⟩
    · show (h.modify m _).msgs[m]? = _
      rw [modify_eq_set hm, getElem?_set_self hlt]
    · refine hs.change ⟨rfl, rfl, rfl, rfl⟩ rfl rfl hs.payload hs.own ?_ hlen fun s' hs' => ?_
      · unfold sdataOf
        rw [hsome, bind_some, getElem?_set_self hbound, getD_some, take_of_length_le hlen.le]
      · rw [length_set]
        exact hs.bound s' hs'
  · refine ⟨logMsgSetFlag { msg with
        numSdata := msg.numSdata + 1, sdata := some h.sdataArrays.length } lfStateOwnSdata, ?_, ?_⟩
    · show (h.modify m _).msgs[m]? = _
      rw [modify_eq_set hm, getElem?_set_self hlt]
    · refine hs.change ⟨rfl, rfl, rfl, rfl⟩ rfl rfl hs.payload ?_ ?_ hlen fun s' hs' => ?_
      · rw [chkFlag_setFlag_of_disjoint (by decide)]
        exact hs.own
      · unfold sdataOf
        show ((((some h.sdataArrays.length).bind fun s => (h.sdataArrays ++ [_])[s]?).getD []).take
          (msg.numSdata + 1)) = _
        rw [bind_some, getElem?_concat_length, getD_some, take_of_length_le hlen.le]
      · cases hs'
        simp

/-! ## Values -/

theorem showsAs_changePayload (ops : PayloadOps P) (space : Nat) (change : P → Option (P × Bool))
    (hm : h.msgs[m]? = some msg) (hs : ShowsAs h msg a) :
    Option.Rel (fun r r' => r.2 = r'.2 ∧ ∃ msg', r.1.msgs[m]? = some msg' ∧
        ShowsAs r.1 msg' { a with payload := r'.1, ownPayload := true })
      (logMsgChangePayload ops h m msg space change) ((a.writable ops space).bind change) := by
  have hlt := (List.getElem?_eq_some_iff.1 hm).1
  unfold logMsgChangePayload Shown.writable
  rw [hs.payload, bind_some, hs.own]
  cases hown : a.ownPayload with
  | true =>
    simp only [↓reduceIte, bind_some]
    cases hc : change a.payload with
    | none => exact .none
    | some r =>
      refine .some ⟨rfl, msg, hm, ?_⟩
      refine hs.change ⟨rfl, rfl, rfl, rfl⟩ rfl rfl ?_ (hs.own.trans hown) hs.sdata hs.length hs.bound
      exact getElem?_set_self (List.getElem?_eq_some_iff.1 hs.payload).1
  | false =>
    simp only [Bool.false_eq_true, ↓reduceIte]
    cases hcl : ops.clone a.payload space with
    | none => exact .none
    | some copy =>
      rw [bind_some, bind_some]
      cases hc : change copy with
      | none => exact .none
      | some r =>
        refine .some ⟨rfl, logMsgSetFlag { msg with payload := h.payloads.length } lfStateOwnPayload,
          ?_, ?_⟩
        · show (h.modify m _).msgs[m]? = _
          rw [modify_eq_set hm, getElem?_set_self hlt]
        · exact hs.change ⟨rfl, rfl, rfl, rfl⟩ rfl rfl getElem?_concat_length
            (chkFlag_setFlag (by decide)) hs.sdata hs.length hs.bound

theorem shows_stored (registry : LogMsgRegistry) (handle : Nat) (newEntry : Bool) {payload : P}
    (hm : h.msgs[m]? = some msg) (hs : ShowsAs h msg { a with payload := payload, ownPayload := true }) :
    Shows (if newEntry then logMsgUpdateSdata registry h m handle else h) m
      (a.store registry handle (payload, newEntry)) := by
  cases newEntry with
  | false => exact ⟨msg, hm, hs⟩
  | true =>
    cases hsdata : registry.isSdata handle with
    | true =>
      obtain ⟨msg', hm', hs'⟩ := showsAs_updateSdata registry hm hs hsdata
      refine ⟨msg', hm', ?_⟩
      simpa [Shown.store, hsdata] using hs'
    | false =>
      have hsame : logMsgUpdateSdata registry h m handle = h := by
        unfold logMsgUpdateSdata
        rw [hm]
        simp [hsdata]
      simp only [↓reduceIte, hsame]
      refine ⟨msg, hm, ?_⟩
      simpa [Shown.store, hsdata] using hs

theorem Shows.unsetLegacy (hs : Shows h m a) :
    Shows (h.modify m (logMsgUnsetFlag · lfLegacyMsghdr)) m a := by
  obtain ⟨msg, hm, hs⟩ := hs
  refine ⟨logMsgUnsetFlag msg lfLegacyMsghdr, ?_, ?_⟩
  · rw [modify_eq_set hm, getElem?_set_self (List.getElem?_eq_some_iff.1 hm).1]
  · refine hs.change ⟨rfl, rfl, rfl, rfl⟩ rfl rfl hs.payload ?_ hs.sdata hs.length hs.bound
    rw [chkFlag_unsetFlag_of_disjoint (by decide)]
    exact hs.own

theorem isWriteProtected_of_zero (hcnt : msg.protectCnt = 0) : logMsgIsWriteProtected msg = false := by
  unfold logMsgIsWriteProtected
  simp [hcnt]

theorem shows_setValue {bytes : List UInt8} (hs : Shows h m a) :
    Option.Rel (fun h' a' => Shows h' m a') (logMsgSetValue ops registry h m handle bytes)
      (a.step ops registry (.value handle bytes)) := by
  obtain ⟨msg, hm, hs⟩ := hs
  unfold logMsgSetValue Shown.step
  rw [hm, bind_some, isWriteProtected_of_zero hs.writable]
  simp only [Bool.false_eq_true, ↓reduceIte]
  by_cases hnone : handle = lmVNone
  · rw [if_pos hnone, if_pos hnone]
    exact .some ⟨msg, hm, hs⟩
  rw [if_neg hnone, if_neg hnone]
  have hchange := showsAs_changePayload ops ((registry.name handle).length + bytes.length + 2)
    (ops.addValue · handle (registry.name handle) bytes) hm hs
  refine rel_map hchange fun r r' hr => ?_
  obtain ⟨h1, newEntry⟩ := r
  obtain ⟨payload, newEntry'⟩ := r'
  obtain ⟨rfl, msg1, hm1, hs1⟩ := hr
  have hstored := shows_stored registry handle newEntry hm1 hs1
  dsimp only
  split
  · exact hstored.unsetLegacy
  · exact hstored

theorem shows_setValueIndirect {refHandle type ofs len : Nat} (hs : Shows h m a) :
    Option.Rel (fun h' a' => Shows h' m a')
      (logMsgSetValueIndirect ops registry h m handle refHandle type ofs len)
      (a.step ops registry (.reference handle refHandle type ofs len)) := by
  obtain ⟨msg, hm, hs⟩ := hs
  unfold logMsgSetValueIndirect Shown.step
  rw [hm, bind_some, isWriteProtected_of_zero hs.writable]
  simp only [Bool.false_eq_true, ↓reduceIte]
  by_cases hnone : handle = lmVNone
  · rw [if_pos hnone, if_pos hnone]
    exact .some ⟨msg, hm, hs⟩
  rw [if_neg hnone, if_neg hnone]
  by_cases hbuiltin : handle < lmVMax
  · rw [if_pos hbuiltin, if_pos hbuiltin]
    exact .none
  rw [if_neg hbuiltin, if_neg hbuiltin]
  have hchange := showsAs_changePayload ops ((registry.name handle).length + 1)
    (ops.addValueIndirect · handle (registry.name handle) refHandle type ofs len) hm hs
  refine rel_map hchange fun r r' hr => ?_
  obtain ⟨h1, newEntry⟩ := r
  obtain ⟨payload, newEntry'⟩ := r'
  obtain ⟨rfl, msg1, hm1, hs1⟩ := hr
  exact shows_stored registry handle newEntry hm1 hs1

/-! ## Tags -/

structure TagsOnly (h h' : LogHeap P) (m : Nat) (msg : LogMessage) : Prop where
  msgs : ∃ tags flags, h'.msgs[m]? = some { msg with tags := tags, flags := flags } ∧
    (flags = msg.flags ∨ flags = msg.flags ||| lfStateOwnTags)
  payloads : h'.payloads = h.payloads
  sdataArrays : h'.sdataArrays = h.sdataArrays

theorem tagsOnly_storeTags {a last : Nat} {words : List (BitVec 64)} (hm : h.msgs[m]? = some msg) :
    TagsOnly h (storeTags h m msg a last words) m msg := by
  have hlt := (List.getElem?_eq_some_iff.1 hm).1
  unfold storeTags
  split
  · refine ⟨⟨.array a last, msg.flags, ?_, .inl rfl⟩, rfl, rfl⟩
    show (h.modify m _).msgs[m]? = _
    rw [modify_eq_set hm, getElem?_set_self hlt]
  · refine ⟨⟨.array h.tagArrays.length last, _, ?_, .inr rfl⟩, rfl, rfl⟩
    show (h.modify m _).msgs[m]? = _
    rw [modify_eq_set hm, getElem?_set_self hlt]
    rfl

theorem tagsOnly_setTag (id : Nat) (on : Bool) (hm : h.msgs[m]? = some msg) (hcnt : msg.protectCnt = 0)
    (hok : ArrayOk h msg) : ∃ h', logMsgSetTagByIdOnoff h m id on = some h' ∧ TagsOnly h h' m msg := by
  have hlt := (List.getElem?_eq_some_iff.1 hm).1
  unfold logMsgSetTagByIdOnoff
  rw [hm, bind_some, isWriteProtected_of_zero hcnt]
  simp only [Bool.false_eq_true, ↓reduceIte]
  cases ht : msg.tags with
  | word word =>
    dsimp only
    split
    · refine ⟨_, rfl, ⟨.word (setBit word id on), _, ?_, .inr rfl⟩, rfl, rfl⟩
      rw [modify_eq_set hm, getElem?_set_self hlt]
      rfl
    split
    · refine ⟨_, rfl, ⟨msg.tags, _, ?_, .inr rfl⟩, rfl, rfl⟩
      rw [modify_eq_set hm, getElem?_set_self hlt]
      rfl
    · refine ⟨_, rfl, ⟨.array h.tagArrays.length (id / 64), _, ?_, .inr rfl⟩, rfl, rfl⟩
      show (h.modify m _).msgs[m]? = _
      rw [modify_eq_set hm, getElem?_set_self hlt]
      rfl
  | array a last =>
    obtain ⟨words, hw, -⟩ := hok a last ht
    dsimp only
    rw [hw, map_some]
    refine ⟨_, rfl, ?_⟩
    split
    · split
      · exact tagsOnly_storeTags hm
      · exact tagsOnly_storeTags hm
    · exact tagsOnly_storeTags hm

theorem shows_setTag {id : Nat} {on : Bool} (hs : Shows h m a) :
    Option.Rel (fun h' a' => Shows h' m a') (logMsgSetTagByIdOnoff h m id on)
      (a.step ops registry (.tag id on)) := by
  obtain ⟨msg, hm, hs⟩ := hs
  obtain ⟨h', hset, ⟨tags, flags, hmsg, hflags⟩, hp, hsd⟩ := tagsOnly_setTag id on hm hs.writable hs.array
  obtain ⟨msg', hm', hok', hbits⟩ := bitWritten_setTag hm hs.array hset
  rw [hmsg, some_inj] at hm'
  subst hm'
  rw [hset]
  refine .some ⟨_, hmsg, hs.writable, ?_, ?_, ?_, hs.length, ?_, hs.parse, hok', fun id' => ?_⟩
  · rw [hp]
    exact hs.payload
  · rw [← hs.own]
    rcases hflags with rfl | rfl
    · rfl
    · exact chkFlag_setFlag_of_disjoint (by decide)
  · rw [← hs.sdata]
    unfold sdataOf
    rw [hsd]
  · rw [hsd]
    exact hs.bound
  · -- the bit of an id that is too large is never read
    rw [hok'.isTag, hbits]
    show _ = (if id ≤ 8159 then Function.update a.tags id on else a.tags) id'
    by_cases heq : id' = id
    · subst heq
      by_cases hid : id' ≤ 8159
      · have hroom : TagRoom h msg id' := .inl hid
        simp [hid, hroom]
      · rw [if_neg hid, ← hs.tags, hs.array.isTag]
        simp [hid]
    · rw [if_neg fun hand => heq hand.1, ← hs.array.isTag, hs.tags]
      split
      · rw [Function.update_of_ne heq]
      · rfl

/-! ## Updates -/

theorem shows_step (ops : PayloadOps P) (registry : LogMsgRegistry) (hs : Shows h m a) (u : Update) :
    Option.Rel (fun h' a' => Shows h' m a') (msgStep ops registry h (u.on m)) (a.step ops registry u) := by
  cases u with
  | value handle bytes => exact shows_setValue hs
  | reference handle refHandle type ofs len => exact shows_setValueIndirect hs
  | tag id on => exact shows_setTag hs

theorem shows_run (ops : PayloadOps P) (registry : LogMsgRegistry) (hs : Shows h m a) (us : List Update) :
    Option.Rel (fun h' a' => Shows h' m a') (exec (msgStep ops registry) h (us.map (Update.on m)))
      (exec (Shown.step ops registry) a us) := by
  induction us generalizing h a with
  | nil => exact .some hs
  | cons u us ih =>
    rw [map_cons, exec, exec]
    have hstep := shows_step ops registry hs u
    generalize msgStep ops registry h (u.on m) = x at hstep
    generalize a.step ops registry u = y at hstep
    cases hstep with
    | none => exact .none
    | some h1 => exact ih h1

theorem Shows.step {u : Update} (hs : Shows h m a) (hstep : msgStep ops registry h (u.on m) = some h') :
    ∃ a', a.step ops registry u = some a' ∧ Shows h' m a' := by
  have hrel := shows_step ops registry hs u
  rw [hstep] at hrel
  generalize a.step ops registry u = y at hrel ⊢
  cases hrel with
  | some hshows => exact ⟨_, rfl, hshows⟩

/-! ## All messages -/

/-- The same payload, tags and structured data. -/
structure SameParts (msg msg' : LogMessage) : Prop where
  payload : msg'.payload = msg.payload
  tags : msg'.tags = msg.tags
  sdata : msg'.sdata = msg.sdata
  numSdata : msg'.numSdata = msg.numSdata

/-- Every message has the parts of one that was there before. -/
structure Derived (h h' : LogHeap P) : Prop where
  payloads : h'.payloads = h.payloads
  tagArrays : h'.tagArrays = h.tagArrays
  sdataArrays : h'.sdataArrays = h.sdataArrays
  msgs : ∀ {j : Nat} {msg' : LogMessage}, h'.msgs[j]? = some msg' →
    ∃ (i : Nat) (msg : LogMessage), h.msgs[i]? = some msg ∧ SameParts msg msg'

theorem sameParts_cloneOf {t : Nat} {ackNeeded : Bool} : SameParts msg (cloneOf t msg ackNeeded) := by
  unfold cloneOf
  dsimp only
  split <;> exact ⟨rfl, rfl, rfl, rfl⟩

theorem sameParts_protect : SameParts msg (logMsgWriteProtect msg) := ⟨rfl, rfl, rfl, rfl⟩

theorem sameParts_set {msgs : List LogMessage} (hm : msgs[m]? = some msg) (hp : SameParts msg msg')
    {j : Nat} {self : LogMessage} (hj : (msgs.set m msg')[j]? = some self) :
    ∃ (i : Nat) (old : LogMessage), msgs[i]? = some old ∧ SameParts old self := by
  by_cases hjm : j = m
  · subst hjm
    rw [getElem?_set_self (List.getElem?_eq_some_iff.1 hm).1] at hj
    cases hj
    exact ⟨j, msg, hm, hp⟩
  · rw [getElem?_set_ne (Ne.symm hjm)] at hj
    exact ⟨j, self, hj, rfl, rfl, rfl, rfl⟩

theorem derived_step {op : MsgOp} (hs : msgStep ops registry h op = some h') (hop : op.updates = none) :
    Derived h h' := by
  cases msgStep_effect hs with
  | write hup =>
    rw [hop] at hup
    cases hup
  | idle => exact ⟨rfl, rfl, rfl, fun hj => ⟨_, _, hj, rfl, rfl, rfl, rfl⟩⟩
  | field _ _ hm hshape =>
    refine ⟨rfl, rfl, rfl, fun hj => sameParts_set hm ⟨?_, hshape.word, ?_, ?_⟩ hj⟩
    · exact some.inj (congrArg Handle.obj hshape.payload)
    · exact congrArg Handle.obj hshape.sdata
    · exact congrArg Handle.len hshape.sdata
  | node _ hm | guard _ hm =>
    exact ⟨rfl, rfl, rfl, fun hj => sameParts_set hm sameParts_protect hj⟩
  | @unguard m guards _ hg =>
    refine ⟨rfl, rfl, rfl, fun {j msg'} hj => ?_⟩
    have hj : (h.msgs.modify m logMsgWriteUnprotect)[j]? = some msg' := hj
    rw [getElem?_modify] at hj
    obtain ⟨old, hold, heq⟩ := map_eq_some_iff.1 hj
    refine ⟨j, old, hold, ?_⟩
    subst heq
    split <;> exact ⟨rfl, rfl, rfl, rfl⟩
  | @clone m t msg ackNeeded _ _ _ hm =>
    refine ⟨rfl, rfl, rfl, fun hj => ?_⟩
    rcases withClone_getElem hj with hold | ⟨-, rfl⟩
    · exact sameParts_set hm sameParts_protect hold
    · exact ⟨t, msg, hm, sameParts_cloneOf⟩

theorem MsgOp.updates_eq {op : MsgOp} (hop : op.updates = some m) : ∃ u : Update, op = u.on m := by
  cases op with
  | setValue m' handle bytes =>
    cases hop
    exact ⟨.value handle bytes, rfl⟩
  | setValueIndirect m' handle refHandle type ofs len =>
    cases hop
    exact ⟨.reference handle refHandle type ofs len, rfl⟩
  | setTag m' id on =>
    cases hop
    exact ⟨.tag id on, rfl⟩
  | _ => cases hop

theorem update_effect {u : Update} (hs : msgStep ops registry h (u.on m) = some h') :
    ∃ msg msg', h.msgs[m]? = some msg ∧ msg.protectCnt = 0 ∧ Updated h h' m msg msg' := by
  have hop : (u.on m).updates = some m := by cases u <;> rfl
  cases msgStep_effect hs with
  | @write m' msg msg' _ hup hm hcnt hu =>
    obtain rfl : m' = m := some.inj (hup.symm.trans hop)
    exact ⟨msg, msg', hm, hcnt, hu⟩
  | idle hnone | field hnone =>
    rw [hop] at hnone
    cases hnone
  | node heq | guard heq | unguard heq =>
    rw [heq] at hop
    cases hop
  | clone heq =>
    rcases heq with heq | heq
    · rw [heq] at hop
      cases hop
    · rw [heq] at hop
      cases hop

/-- The arrays of every message hold what it has of them. -/
structure Sound (h : LogHeap P) : Prop where
  heap : HeapInv h
  arrays : ∀ {m : Nat} {msg : LogMessage}, h.msgs[m]? = some msg → ArrayOk h msg
  lengths : ∀ {m : Nat} {msg : LogMessage}, h.msgs[m]? = some msg →
    (sdataOf h msg).length = msg.numSdata

theorem Sound.shows (hs : Sound h) (hm : h.msgs[m]? = some msg) (hcnt : msg.protectCnt = 0) :
    ∃ payload, h.payloads[msg.payload]? = some payload ∧ ShowsAs h msg
      ⟨payload, logMsgChkFlag msg lfStateOwnPayload, sdataOf h msg, msg.initialParse,
        logMsgIsTagById h msg⟩ := by
  have hlt : msg.payload < h.payloads.length := hs.heap.payload.bound (map_set_getElem hm) rfl
  refine ⟨_, getElem?_eq_getElem hlt, hcnt, getElem?_eq_getElem hlt, rfl, rfl,
    hs.lengths hm, fun s hsome => ?_, rfl, hs.arrays hm, fun _ => rfl⟩
  exact hs.heap.sdata.bound (map_set_getElem hm) hsome

theorem Sound.updated (hs : Sound h) (hm : h.msgs[m]? = some msg) (hcnt : msg.protectCnt = 0)
    (hu : Updated h h' m msg msg') (harr : ArrayOk h' msg')
    (hlen : (sdataOf h' msg').length = msg'.numSdata) : Sound h' := by
  refine ⟨hs.heap.updated hm hcnt hu, fun {j other} hj => ?_, fun {j other} hj => ?_⟩
  · by_cases hjm : j = m
    · subst hjm
      rw [hu.getElem_self hm, some_inj] at hj
      exact hj ▸ harr
    · rw [hu.getElem_ne hjm] at hj
      refine ((hs.arrays hj).of_words rfl fun a last ha => ?_).1
      refine hs.heap.tags.frame (map_set_getElem hm) (hs.heap.no_child hm hcnt fun _ => rfl) hu.tags
        (map_set_getElem hj) hjm (a := a) ?_
      show other.tags.obj = some a
      rw [ha]
      rfl
  · by_cases hjm : j = m
    · subst hjm
      rw [hu.getElem_self hm, some_inj] at hj
      exact hj ▸ hlen
    · have hcontents := hu.contents_ne hs.heap hm hcnt hjm
      rw [hu.getElem_ne hjm] at hj
      unfold LogMsg.contents at hcontents
      rw [hu.getElem_ne hjm, hj, map_some, map_some, some_inj] at hcontents
      have hsame : sdataOf h' other = sdataOf h other := congrArg LogContents.sdata hcontents
      rw [hsame]
      exact hs.lengths hj

theorem Sound.derived (hs : Sound h) (hi : HeapInv h') (hd : Derived h h') : Sound h' := by
  refine ⟨hi, fun hj => ?_, fun hj => ?_⟩
  · obtain ⟨i, old, hold, hparts⟩ := hd.msgs hj
    exact ((hs.arrays hold).of_words hparts.tags fun _ _ _ => by rw [hd.tagArrays]).1
  · obtain ⟨i, old, hold, hparts⟩ := hd.msgs hj
    have hlen := hs.lengths hold
    unfold sdataOf at hlen ⊢
    rw [hd.sdataArrays, hparts.sdata, hparts.numSdata]
    exact hlen

theorem Sound.step {op : MsgOp} (hs : Sound h) (hnext : MsgNext ops registry h op h') : Sound h' := by
  cases hop : op.updates with
  | none =>
    exact hs.derived (hs.heap.step hnext) (derived_step hnext.2 hop)
  | some m =>
    obtain ⟨u, rfl⟩ := MsgOp.updates_eq hop
    obtain ⟨msg, msg', hm, hcnt, hu⟩ := update_effect hnext.2
    obtain ⟨payload, -, hshows⟩ := hs.shows hm hcnt
    obtain ⟨a', -, msg1, hm1, hshows'⟩ := Shows.step ⟨msg, hm, hshows⟩ hnext.2
    rw [hu.getElem_self hm, some_inj] at hm1
    subst hm1
    refine hs.updated hm hcnt hu hshows'.array ?_
    rw [hshows'.sdata]
    exact hshows'.length

theorem Sound.start (payload : P) (recvd : LogStamp) : Sound (logMsgNew payload recvd) := by
  refine ⟨.start payload recvd, fun hm => ?_, fun hm => ?_⟩
  · intro a last ha
    rw [mem_singleton.1 (mem_of_getElem? hm)] at ha
    cases ha
  · rw [mem_singleton.1 (mem_of_getElem? hm)]
    rfl

/-- The payload and the structured data of every message are as `I` says. -/
def Everywhere (I : P → List Nat → Prop) (h : LogHeap P) : Prop :=
  ∀ ⦃m : Nat⦄ ⦃msg : LogMessage⦄ ⦃payload : P⦄, h.msgs[m]? = some msg →
    h.payloads[msg.payload]? = some payload → I payload (sdataOf h msg)

variable {I : P → List Nat → Prop}

theorem Everywhere.of_contents (hI : Everywhere I h) (hm : Shows h' m a) (ha : I a.payload a.sdata)
    (hother : ∀ j, j ≠ m → contents h' j = contents h j) : Everywhere I h' := by
  intro j other payload hj hp
  by_cases hjm : j = m
  · subst hjm
    obtain ⟨msg, hm, hs⟩ := hm
    rw [hm, some_inj] at hj
    subst hj
    rw [hs.payload, some_inj] at hp
    rw [hs.sdata, ← hp]
    exact ha
  · have hcontents := hother j hjm
    unfold LogMsg.contents at hcontents
    rw [hj, map_some] at hcontents
    obtain ⟨old, hold, heq⟩ := map_eq_some_iff.1 hcontents.symm
    have hpayload : h.payloads[old.payload]? = h'.payloads[other.payload]? :=
      congrArg LogContents.payload heq
    have hsdata : sdataOf h old = sdataOf h' other := congrArg LogContents.sdata heq
    rw [← hsdata]
    exact hI hold (hpayload.trans hp)

/-- **A step** keeps what holds of all messages, if every update of one message does. -/
theorem Everywhere.step {op : MsgOp} (hI : Everywhere I h) (hs : Sound h)
    (hnext : MsgNext ops registry h op h')
    (hupdate : ∀ {m u msg a a'}, op = Update.on m u → h.msgs[m]? = some msg → ShowsAs h msg a →
      a.step ops registry u = some a' → I a.payload a.sdata → I a'.payload a'.sdata) : Everywhere I h' := by
  cases hop : op.updates with
  | none =>
    obtain ⟨hpayloads, -, hsdata, hmsgs⟩ := derived_step hnext.2 hop
    intro j msg' payload hj hp
    obtain ⟨i, old, hold, hparts⟩ := hmsgs hj
    rw [hpayloads, hparts.payload] at hp
    have hsame : sdataOf h' msg' = sdataOf h old := by
      unfold sdataOf
      rw [hsdata, hparts.sdata, hparts.numSdata]
    rw [hsame]
    exact hI hold hp
  | some m =>
    obtain ⟨u, rfl⟩ := MsgOp.updates_eq hop
    obtain ⟨msg, msg', hm, hcnt, hu⟩ := update_effect hnext.2
    obtain ⟨payload, hp, hshows⟩ := hs.shows hm hcnt
    obtain ⟨a', hstep, hshows'⟩ := Shows.step ⟨msg, hm, hshows⟩ hnext.2
    exact hI.of_contents hshows' (hupdate rfl hm hshows hstep (hI hm hp)) fun j hne =>
      hu.contents_ne hs.heap hm hcnt hne

end

end SyslogNg.LogMsg
