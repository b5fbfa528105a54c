import SyslogNg.LogMsg.SdataBlocks

/-!
# Structured data over whole runs

While every new handle fits and its value is stored, the array lists the stored handles, each once
and block by block, and `log_msg_append_format_sdata` opens every block once.
-/

namespace SyslogNg.LogMsg

open Lib NameValue SyslogFormat List
open Option hiding map map_map

structure SdataRegistry where
  names : NVRegistry
  isSdata : Nat → Bool
  handleOf : List UInt8 → Nat
  handleOf_name : ∀ handle, isSdata handle = true → handleOf (names.name handle) = handle

def SdataRegistry.toLogMsg (registry : SdataRegistry) : LogMsgRegistry where
  name := registry.names.name
  isSdata := registry.isSdata

/-- The array lists the handles that have an entry, as far as it has room for them. -/
structure SdataOk (registry : LogMsgRegistry) (t : NVTable) (sdata : List Nat) : Prop where
  once : sdata.Nodup
  named : ∀ s ∈ sdata, registry.isSdata s = true ∧ SdataName (registry.name s)
  stored : ∀ s ∈ sdata, (t.entryOf s).isSome = true
  listed : sdata.length < 255 → ∀ s, registry.isSdata s = true → (t.entryOf s).isSome = true → s ∈ sdata
  bound : sdata.length ≤ 255
  blocks : Contiguous (sdata.map registry.block)

def SdataFits (registry : SdataRegistry) (t : NVTable) (initialParse : Bool) (sdata : List Nat)
    (handle : Nat) (bytes : List UInt8) : Prop :=
  handle < 2 ^ 16 ∧ (registry.isSdata handle = true → SdataName (registry.names.name handle) ∧
    ((t.entryOf handle).isNone = true → sdata.length < 255 →
      StoreFits registry.names t handle bytes ∧
        insertFits registry.toLogMsg initialParse sdata handle = true))

theorem sdataName_iff {name : List UInt8} :
    SdataName name ↔ name.take 7 = logmsgSdPrefix ∧ 46 ∈ name.drop 7 := by
  constructor
  · rintro ⟨block, param, rfl, -⟩
    rw [append_assoc]
    exact ⟨rfl, mem_append_right block mem_cons_self⟩
  · rintro ⟨htake, hdrop⟩
    obtain ⟨param, block, hsplit, hdot⟩ := eq_append_cons_of_mem (mem_reverse.2 hdrop)
    refine ⟨block.reverse, param.reverse, ?_, by simpa using hdot⟩
    have hname := congrArg List.reverse hsplit
    rw [reverse_reverse] at hname
    rw [← take_append_drop 7 name, htake, hname]
    simp

instance : DecidablePred SdataName := fun _ => decidable_of_iff _ sdataName_iff.symm

instance (registry : SdataRegistry) (t : NVTable) (initialParse : Bool) (sdata : List Nat)
    (handle : Nat) (bytes : List UInt8) :
    Decidable (SdataFits registry t initialParse sdata handle bytes) :=
  inferInstanceAs (Decidable (_ ∧ (_ → _ ∧ (_ → _ → _ ∧ _))))

def sdataOpFits (registry : SdataRegistry) (h : LogHeap NVTable) : MsgOp → Bool
  | .setValue m handle bytes => (h.msgs[m]?).all fun msg => (h.payloads[msg.payload]?).all fun t =>
      SdataFits registry t msg.initialParse (sdataOf h msg) handle bytes
  | .setValueIndirect .. => false
  | _ => true

/-- A step of a run whose counters do not wrap, and whose new handles fit. -/
def SdataNext (registry : SdataRegistry) (h : LogHeap NVTable) (op : MsgOp) (h' : LogHeap NVTable) :
    Prop :=
  sdataOpFits registry h op = true ∧ MsgNext nvTableOps registry.toLogMsg h op h'

def sdataNext (registry : SdataRegistry) (h : LogHeap NVTable) (op : MsgOp) :
    Option (LogHeap NVTable) :=
  if sdataOpFits registry h op then msgNext nvTableOps registry.toLogMsg h op else none

/-- The table of a message that `log_msg_new` or `log_msg_new_empty` makes. -/
def FreshTable (t : NVTable) : Prop :=
  (∃ numDynValues initLength, t = nvTableNew lmVMax numDynValues initLength) ∨
    ∃ spaceLen, nvTableInitBorrowed spaceLen lmVMax = some t

/-- The message as the formatter reads it: the structured data by its names. -/
def sdataView (registry : SdataRegistry) (base : SyslogFormat.LogMessage) (t : NVTable)
    (sdata : List Nat) : SyslogFormat.LogMessage :=
  { base with
    values := fun
      | .sdata name => t.getValue (registry.handleOf name)
      | handle => base.values handle
    sdata := sdata.map registry.names.name }

section

variable {registry : SdataRegistry} {h h' : LogHeap NVTable} {t t' : NVTable}
variable {sdata : List Nat} {handle : Nat} {initialParse : Bool} {bytes : List UInt8}

/-! ## One update -/

theorem SdataOk.insert (hok : SdataOk registry.toLogMsg t sdata)
    (hsdata : registry.isSdata handle = true) (hname : SdataName (registry.names.name handle))
    (hnew : (t.entryOf handle).isNone = true) (hlt : sdata.length < 255)
    (hfits : insertFits registry.toLogMsg initialParse sdata handle = true)
    (hother : ∀ s ≠ handle, (t'.entryOf s).isSome = (t.entryOf s).isSome)
    (hstored : (t'.entryOf handle).isSome = true) :
    SdataOk registry.toLogMsg t' (insertSdata registry.toLogMsg initialParse sdata handle) := by
  have hnot : handle ∉ sdata := fun hmem => by
    have hsome := hok.stored handle hmem
    rw [← not_isSome, hsome] at hnew
    cases hnew
  have hfull : sdata.length ≠ 255 := hlt.ne
  have hcont := (insertSdata_contiguous initialParse registry.names.name_le
    (fun s hs => (hok.named s hs).2) hname hfull hok.blocks).2 hfits
  have hperm : (insertSdata registry.toLogMsg initialParse sdata handle).Perm (handle :: sdata) := by
    unfold insertSdata
    rw [if_neg hfull]
    dsimp only
    exact perm_middle.trans (by rw [take_append_drop])
  have hstays : ∀ s, s ≠ handle → (t.entryOf s).isSome = true → (t'.entryOf s).isSome = true :=
    fun s hne hsome => (hother s hne).trans hsome
  refine ⟨hperm.nodup_iff.2 (nodup_cons.2 ⟨hnot, hok.once⟩), fun s hs => ?_, fun s hs => ?_,
    fun _ s hs hsome => ?_, ?_, hcont⟩
  · rcases mem_cons.1 (hperm.mem_iff.1 hs) with rfl | hs
    · exact ⟨hsdata, hname⟩
    · exact hok.named s hs
  · rcases mem_cons.1 (hperm.mem_iff.1 hs) with rfl | hs
    · exact hstored
    · exact hstays s (fun heq => hnot (heq ▸ hs)) (hok.stored s hs)
  · refine hperm.mem_iff.2 (mem_cons.2 (or_iff_not_imp_left.2 fun hne => ?_))
    exact hok.listed hlt s hs ((hother s hne).symm.trans hsome)
  · rw [hperm.length_eq]
    exact hlt

theorem SdataOk.entered {newEntry : Bool} (hok : SdataOk registry.toLogMsg t sdata)
    (hentered : Entered registry.names handle t t' newEntry)
    (hstored : StoreFits registry.names t handle bytes → (t'.entryOf handle).isSome = true)
    (hfits : SdataFits registry t initialParse sdata handle bytes) :
    SdataOk registry.toLogMsg t' (if newEntry && registry.isSdata handle then
      insertSdata registry.toLogMsg initialParse sdata handle else sdata) := by
  have hkept : ∀ s, (t.entryOf s).isSome = true → (t'.entryOf s).isSome = true := by
    intro s hsome
    by_cases hs : s = handle
    · subst hs
      exact hentered.stays hsome
    · exact (hentered.other s hs).trans hsome
  split
  · rename_i hboth
    rw [Bool.and_eq_true] at hboth
    obtain ⟨hnew, hsdata⟩ := hboth
    rw [hentered.new] at hnew
    obtain ⟨hname, hcond⟩ := hfits.2 hsdata
    rcases Nat.lt_or_ge sdata.length 255 with hlt | hge
    · obtain ⟨hroom, hinsert⟩ := hcond hnew hlt
      exact hok.insert hsdata hname hnew hlt hinsert hentered.other (hstored hroom)
    · -- a full array stays as it is
      have hfull : sdata.length = 255 := Nat.le_antisymm hok.bound hge
      unfold insertSdata
      rw [if_pos hfull]
      exact ⟨hok.once, hok.named, fun s hs => hkept s (hok.stored s hs), fun hlt => absurd hlt (by omega),
        hok.bound, hok.blocks⟩
  · rename_i hnot
    refine ⟨hok.once, hok.named, fun s hs => hkept s (hok.stored s hs), fun hlt s hs hsome => ?_,
      hok.bound, hok.blocks⟩
    by_cases heq : s = handle
    · subst heq
      -- it had an entry before
      have hold : newEntry = false := by
        by_contra hnew
        exact hnot (by rw [Bool.and_eq_true]; exact ⟨eq_true_of_ne_false hnew, hs⟩)
      rw [hentered.new, ← not_isSome, Bool.not_eq_false'] at hold
      exact hok.listed hlt s hs hold
    · exact hok.listed hlt s hs ((hentered.other s heq).symm.trans hsome)

theorem writable_kept {a : Shown NVTable} {space : Nat} (handle : Nat) (bytes : List UInt8)
    (hk : a.payload.Kept registry.names)
    (hw : a.writable nvTableOps space = some t) : t.Kept registry.names ∧ t.entryOf = a.payload.entryOf ∧
      (StoreFits registry.names a.payload handle bytes → StoreFits registry.names t handle bytes) := by
  unfold Shown.writable at hw
  split at hw
  · cases hw
    exact ⟨hk, rfl, id⟩
  have hclone : a.payload.clone space = some t := hw
  refine ⟨hk.call (c := .clone space) trivial hclone, ?_⟩
  unfold NVTable.clone at hclone
  dsimp only at hclone
  split at hclone
  · cases hclone
    refine ⟨rfl, fun hfits => ?_⟩
    unfold StoreFits at hfits ⊢
    rw [NVTable.storeSpace_resize]
    exact hfits
  · cases hclone

def SdataInv (registry : SdataRegistry) (t : NVTable) (sdata : List Nat) : Prop :=
  t.Kept registry.names ∧ SdataOk registry.toLogMsg t sdata

theorem SdataInv.setValue {a a' : Shown NVTable} (hi : SdataInv registry a.payload a.sdata)
    (hfits : SdataFits registry a.payload a.initialParse a.sdata handle bytes)
    (hs : a.step nvTableOps registry.toLogMsg (.value handle bytes) = some a') :
    SdataInv registry a'.payload a'.sdata := by
  rw [Shown.step] at hs
  split at hs
  · cases hs
    exact hi
  rename_i hnone
  obtain ⟨⟨t', newEntry⟩, hadd, rfl⟩ := map_eq_some_iff.1 hs
  obtain ⟨t, hw, hadd⟩ := bind_eq_some_iff.1 hadd
  obtain ⟨hk, hentries, hroom⟩ := writable_kept handle bytes hi.1 hw
  have hloop : addLoop (·.addValue handle (registry.names.name handle) bytes true) 64 t =
      some (t', newEntry) := hadd
  rw [addLoop_eq] at hloop
  obtain ⟨r, hr, heq⟩ := map_eq_some_iff.1 hloop
  rw [Prod.mk.injEq] at heq
  obtain ⟨rfl, rfl⟩ := heq
  obtain ⟨hentered, hstored⟩ := retryLoop_entered hk (Nat.pos_of_ne_zero hnone) hfits.1 hr
  have hentered' : Entered registry.names handle a.payload r.table r.newEntry :=
    ⟨hentered.kept, fun s hne => hentries ▸ hentered.other s hne, hentries ▸ hentered.new,
      hentries ▸ hentered.stays⟩
  exact ⟨hentered.kept, hi.2.entered hentered' (fun hf => hstored (hroom hf)) hfits⟩

/-! ## Runs -/

structure SdataHeap (registry : SdataRegistry) (h : LogHeap NVTable) : Prop where
  sound : Sound h
  tables : Everywhere (SdataInv registry) h

theorem SdataHeap.step {op : MsgOp} (hi : SdataHeap registry h) (hs : SdataNext registry h op h') :
    SdataHeap registry h' := by
  refine ⟨hi.sound.step hs.2, hi.tables.step hi.sound hs.2 fun {m u msg a a'} hop hm ha hstep hinv => ?_⟩
  subst hop
  cases u with
  | value handle bytes =>
    refine hinv.setValue ?_ hstep
    have hfits := hs.1
    unfold sdataOpFits Update.on at hfits
    dsimp only at hfits
    rw [hm, all_some, ha.payload, all_some, decide_eq_true_eq, ha.sdata, ha.parse] at hfits
    exact hfits
  | reference handle refHandle type ofs len => cases hs.1
  | tag id on =>
    cases hstep
    exact hinv

theorem FreshTable.inv (ht : FreshTable t) : SdataInv registry t [] := by
  have hreach : t.Reachable registry.names := by
    rcases ht with ⟨k, n, rfl⟩ | ⟨n, hinit⟩
    · exact .new lmVMax k n
    · exact .borrowed n lmVMax hinit
  have hnone : ∀ s, t.entryOf s = none := by
    have hinit : ∀ (size : Nat) (borrowed : Bool) (s : Nat),
        (nvTableInit size lmVMax borrowed).entryOf s = none := by
      intro size borrowed s
      unfold NVTable.entryOf
      cases NVTable.entryAtOfs ((nvTableInit size lmVMax borrowed).slotOfs s) <;> rfl
    rcases ht with ⟨k, n, rfl⟩ | ⟨n, ht⟩
    · exact hinit _ false
    · unfold nvTableInitBorrowed at ht
      dsimp only at ht
      split at ht
      · cases ht
        exact hinit _ true
      · cases ht
  refine ⟨hreach.kept, nodup_nil, fun s hs => ?_, fun s hs => ?_, fun _ s _ hsome => ?_,
    Nat.zero_le _, trivial⟩
  · cases hs
  · cases hs
  · rw [hnone] at hsome
    cases hsome

theorem SdataHeap.start {recvd : LogStamp} (ht : FreshTable t) :
    SdataHeap registry (logMsgNew t recvd) := by
  refine ⟨.start t recvd, fun m msg payload hm hp => ?_⟩
  obtain rfl := mem_singleton.1 (mem_of_getElem? hp)
  obtain rfl := mem_singleton.1 (mem_of_getElem? hm)
  exact ht.inv

/-- **The blocks of structured data stay together**, in every run whose new handles fit: the array
lists the stored handles once each and block by block, and the formatter opens every block once, with
the values of its handles. -/
theorem sdata_blocks_contiguous {recvd : LogStamp} {script : List MsgOp} {m : Nat} {msg : LogMessage}
    {payload : NVTable} (ht : FreshTable t)
    (hrun : Run (SdataNext registry) (logMsgNew t recvd) script h) (hm : h.msgs[m]? = some msg)
    (hp : h.payloads[msg.payload]? = some payload) :
    SdataOk registry.toLogMsg payload (sdataOf h msg) ∧
      ∀ (base : SyslogFormat.LogMessage) (seqNum : Nat),
        (∃ elements, WritesBlocks (sdataView registry base payload (sdataOf h msg)) seqNum elements) ∧
        ∀ s ∈ sdataOf h msg, (sdataView registry base payload (sdataOf h msg)).values
          (.sdata (registry.names.name s)) = payload.getValue s := by
  have hi : SdataHeap registry h := hrun.invariant (fun _ _ _ hs hi => hi.step hs) (.start ht)
  have hok := (hi.tables hm hp).2
  refine ⟨hok, fun base seqNum => ⟨?_, fun s hs => ?_⟩⟩
  · refine writesBlocks_of_contiguous _ seqNum (fun name hname => ?_) ?_
    · obtain ⟨s, hs, rfl⟩ := mem_map.1 hname
      exact (hok.named s hs).2
    · have hblocks := hok.blocks
      rw [show registry.toLogMsg.block = blockOf ∘ registry.names.name from rfl, ← map_map] at hblocks
      exact hblocks
  · show payload.getValue (registry.handleOf (registry.names.name s)) = _
    rw [registry.handleOf_name s (hok.named s hs).1]

theorem sdataNext_sound {op : MsgOp} (hs : sdataNext registry h op = some h') :
    SdataNext registry h op h' := by
  unfold sdataNext at hs
  split at hs
  · rename_i hfits
    unfold msgNext at hs
    split at hs
    · rename_i hfit
      exact ⟨hfits, hfit, hs⟩
    · cases hs
  · cases hs

end

/-- Two parameters of the block `ab`, and one of `a`. -/
def blockNames : SdataRegistry where
  names :=
    { name := fun handle => logmsgSdPrefix ++
        if handle = 10 then [97, 98, 46, 120] else if handle = 11 then [97, 98, 46, 121] else [97, 46, 122]
      name_le := fun handle => by
        split
        · decide
        split <;> decide }
  isSdata handle := handle = 10 || handle = 11 || handle = 12
  handleOf name :=
    if name = logmsgSdPrefix ++ [97, 98, 46, 120] then 10
    else if name = logmsgSdPrefix ++ [97, 98, 46, 121] then 11
    else 12
  handleOf_name handle hs := by
    simp only [Bool.or_eq_true, decide_eq_true_eq] at hs
    rcases hs with (rfl | rfl) | rfl <;> decide

/-- A parameter is parsed, two more are set in a clone. -/
theorem sdata_blocks_contiguous_clone : ∃ h msg payload,
    Run (SdataNext blockNames) (logMsgNew (nvTableNew lmVMax 16 256) ⟨0, 0, 0⟩)
      [.setFlags 0 0 true, .setValue 0 12 [49], .setFlags 0 0 false, .clone 0 false,
        .setValue 1 10 [50], .setValue 1 11 [51]] h ∧
    h.msgs[1]? = some msg ∧ h.payloads[msg.payload]? = some payload ∧
    sdataOf h msg = [12, 11, 10] ∧ SdataOk blockNames.toLogMsg payload (sdataOf h msg) := by
  have hsome := show ((exec (sdataNext blockNames) (logMsgNew (nvTableNew lmVMax 16 256) ⟨0, 0, 0⟩)
      [.setFlags 0 0 true, .setValue 0 12 [49], .setFlags 0 0 false, .clone 0 false,
        .setValue 1 10 [50], .setValue 1 11 [51]]).bind fun h => (h.msgs[1]?).bind fun msg =>
          (h.payloads[msg.payload]?).map fun _ => sdataOf h msg) = some [12, 11, 10] by decide +kernel
  obtain ⟨h, hexec, hsome⟩ := bind_eq_some_iff.1 hsome
  obtain ⟨msg, hm, hsome⟩ := bind_eq_some_iff.1 hsome
  obtain ⟨payload, hp, hsdata⟩ := map_eq_some_iff.1 hsome
  have hrun := Run.of_exec (fun _ _ _ => sdataNext_sound) hexec
  exact ⟨h, msg, payload, hrun, hm, hp, hsdata,
    (sdata_blocks_contiguous (.inl ⟨16, 256, rfl⟩) hrun hm hp).1⟩

/-- The block `a` is put between two names of `ab`, which start like it: `ab` is opened twice. -/
theorem sdata_blocks_split : ∃ h msg payload,
    Run (MsgNext nvTableOps blockNames.toLogMsg) (logMsgNew (nvTableNew lmVMax 16 256) ⟨0, 0, 0⟩)
      [.setValue 0 10 [49], .setValue 0 11 [50], .setValue 0 12 [51]] h ∧
    (∀ handle ∈ [10, 11, 12], SdataName (blockNames.names.name handle)) ∧
    h.msgs[0]? = some msg ∧ h.payloads[msg.payload]? = some payload ∧
    ¬ Contiguous ((sdataOf h msg).map blockNames.toLogMsg.block) ∧
    ∀ base : SyslogFormat.LogMessage,
      logMsgAppendFormatSdata (sdataView blockNames base payload (sdataOf h msg)) 0 =
        "[ab y=\"2\"][a z=\"3\"][ab x=\"1\"]".toUTF8.toList := by
  have hsome := show ((exec (msgNext nvTableOps blockNames.toLogMsg)
      (logMsgNew (nvTableNew lmVMax 16 256) ⟨0, 0, 0⟩)
      [.setValue 0 10 [49], .setValue 0 11 [50], .setValue 0 12 [51]]).bind fun h =>
        (h.msgs[0]?).bind fun msg => (h.payloads[msg.payload]?).map fun payload =>
          (sdataOf h msg, [10, 11, 12].map payload.getValue)) =
      some ([11, 12, 10], [some [49], some [50], some [51]]) by decide +kernel
  obtain ⟨h, hexec, hsome⟩ := bind_eq_some_iff.1 hsome
  obtain ⟨msg, hm, hsome⟩ := bind_eq_some_iff.1 hsome
  obtain ⟨payload, hp, hsome⟩ := map_eq_some_iff.1 hsome
  rw [Prod.mk.injEq] at hsome
  obtain ⟨hsdata, hvalues⟩ := hsome
  refine ⟨h, msg, payload, run_of_exec hexec, by decide, hm, hp, ?_,
    fun base => ?_⟩
  · rw [hsdata]
    decide
  · rw [hsdata]
    have hview : ∀ (handle : Nat) (value : List UInt8), blockNames.isSdata handle = true →
        payload.getValue handle = some value →
        (sdataView blockNames base payload [11, 12, 10]).getValue
          (.sdata (blockNames.names.name handle)) = value := by
      intro handle value hs hvalue
      unfold SyslogFormat.LogMessage.getValue
      show (payload.getValue (blockNames.handleOf (blockNames.names.name handle))).getD [] = value
      rw [blockNames.handleOf_name handle hs, hvalue]
      rfl
    simp only [map_cons, map_nil, List.cons.injEq, and_true] at hvalues
    obtain ⟨h10, h11, h12⟩ := hvalues
    have hsplit : [11, 12, 10].map (fun handle => splitName (blockNames.names.name handle)) =
        [([97, 98], [121]), ([97], [122]), ([97, 98], [120])] := by decide +kernel
    have hescaped : [[49], [50], [51]].map sdataAppendEscaped = [[49], [50], [51]] := by decide +kernel
    simp only [map_cons, map_nil, List.cons.injEq, and_true] at hsplit hescaped
    have hlist : (sdataView blockNames base payload [11, 12, 10]).sdata =
        [blockNames.names.name 11, blockNames.names.name 12, blockNames.names.name 10] := rfl
    unfold logMsgAppendFormatSdata
    rw [hlist]
    simp only [foldl_cons, foldl_nil, formatSdataStep, hsplit, hview 10 [49] rfl h10,
      hview 11 [50] rfl h11, hview 12 [51] rfl h12, hescaped]
    simp
    decide +kernel

end SyslogNg.LogMsg
