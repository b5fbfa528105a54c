import SyslogNg.Lib.Run
import SyslogNg.PersistState.Areas
import SyslogNg.PersistState.Scan

/-!
# Mapped entries are unmapped

Every call unmaps what it maps, and what it allocates lies inside the file, in every run whose sizes
have 32 bits and whose strings and loaded values get their room.
-/

namespace SyslogNg.PersistState

open Lib List
open Option (bind_eq_some_iff map_eq_some_iff)

/-! ## Loading -/

/-- The values that a file holds are allocated from the plan. -/
def Plan.entries (env : PersistEnv) (p : Plan) : List LoadedValue → Option Plan
  | [] => some p
  | v :: values => (p.entry env v.key v.size).bind fun p => p.entries env values

def LoadedValue.Whole (v : LoadedValue) : Prop :=
  v.size < 2 ^ 32 ∧ v.bytes.map List.length = some v.size

instance (v : LoadedValue) : Decidable v.Whole := inferInstanceAs (Decidable (_ ∧ _))

def LoadServed (env : PersistEnv) (p : Plan) (values : List LoadedValue) : Prop :=
  (∀ v ∈ values, v.Whole) ∧ ((p.entries env values).any fun p => p.room.size < 2 ^ 32) = true

instance (env : PersistEnv) (p : Plan) (values : List LoadedValue) :
    Decidable (LoadServed env p values) := inferInstanceAs (Decidable (_ ∧ _))

section

variable {env : PersistEnv} {s s' : PersistState} {areas : List Area} {handle n : Nat}
variable {r r' : Room} {p p' : Plan}

theorem Room.take_size (h : r.take env n = some r') : r.size ≤ r'.size ∧
    sizeWith env r.ofs r.size n = r'.size := by
  unfold Room.take at h
  dsimp only at h
  unfold sizeWith
  dsimp only
  split at h
  · rename_i hle
    cases h
    rw [if_pos hle]
    exact ⟨le_rfl, rfl⟩
  rename_i hle
  split at h
  · cases h
    unfold sizeWith
    dsimp only
    rw [if_neg hle]
    refine ⟨?_, rfl⟩
    exact (Nat.le_add_right _ _).trans le_pageUp
  · cases h

theorem Plan.key_size {key : List UInt8} (h : p.key env key = some p') : p.room.size ≤ p'.room.size ∧
    (¬ p.keyOfs + (key.length + 8) + chainSize ≤ p.keySize →
      sizeWith env p.room.ofs p.room.size persistStateKeyBlockSize = p'.room.size) := by
  unfold Plan.key at h
  split at h
  · rename_i hroom
    cases h
    exact ⟨le_rfl, fun hno => absurd hroom hno⟩
  split at h
  · obtain ⟨r, htake, rfl⟩ := map_eq_some_iff.1 h
    obtain ⟨hle, heq⟩ := Room.take_size htake
    exact ⟨hle, fun _ => heq⟩
  · cases h

theorem Plan.entry_size {key : List UInt8} (h : p.entry env key n = some p') :
    p.room.size ≤ p'.room.size := by
  obtain ⟨r, htake, h⟩ := bind_eq_some_iff.1 h
  exact (Room.take_size htake).1.trans (Plan.key_size h).1

theorem Plan.entries_size {values : List LoadedValue} (h : p.entries env values = some p') :
    p.room.size ≤ p'.room.size := by
  induction values generalizing p with
  | nil =>
    cases h
    exact le_rfl
  | cons v values ih =>
    obtain ⟨p1, hentry, h⟩ := bind_eq_some_iff.1 h
    exact (Plan.entry_size hentry).trans (ih h)

structure ValueLoaded (s s' : PersistState) (v : LoadedValue) (bytes : List UInt8) : Prop where
  steps : ∃ s1 handle, Allocated s s1 handle v.size false v.version ∧
    KeyAdded { s1 with file := s1.file.write handle bytes } v.key handle s' true

theorem loadValue_spec {v : LoadedValue} {bytes : List UInt8} (hl : Laid s areas) (hw : v.Whole)
    (hbytes : v.bytes = some bytes) (hp : s.plan.entry env v.key v.size = some p)
    (hnarrow : p.room.size < 2 ^ 32) (h : loadValue env s v.key v.size v.version v.bytes = .ok s') :
    ValueLoaded s s' v bytes ∧ s'.plan = p ∧
      ∃ more, Laid s' (areas ++ more) := by
  obtain ⟨hsize, hlen⟩ := hw
  rw [hbytes, Option.map_some, Option.some_inj] at hlen
  obtain ⟨room, htake, hkey⟩ := bind_eq_some_iff.1 hp
  obtain ⟨hroom, hfit⟩ := Room.take_size htake
  have hkeyroom : room.size ≤ p.room.size := (Plan.key_size hkey).1
  have hkeyfit := (Plan.key_size hkey).2
  obtain ⟨⟨s1, handle⟩, halloc, h⟩ := bind_ok h
  replace halloc := orFault_ok halloc
  rcases allocValue_spec hsize hl.inside hl.narrow (by
    rw [show sizeWith env s.currentOfs s.currentSize v.size = room.size from hfit]
    exact hkeyroom.trans_lt hnarrow) halloc with ⟨-, -, -, hnone⟩ | ⟨hnew, htook⟩
  · rw [show s.room.take env v.size = some room from htake] at hnone
    cases hnone
  have hs1 : s1.room = room := by
    rw [show s.room.take env v.size = some room from htake, Option.some_inj] at htook
    exact htook.symm
  have hl1 := hl.allocated false hsize hnew
  have hmem : (⟨handle, v.size, false⟩ : Area) ∈ areas ++ [⟨handle, v.size, false⟩] :=
    mem_append_right _ (mem_singleton_self _)
  rw [hbytes] at h
  obtain ⟨bytes', hsome, h⟩ := bind_ok h
  obtain rfl : bytes = bytes' := Option.some.inj (orFault_ok hsome)
  obtain ⟨s2, hstore, h⟩ := bind_ok h
  have hs2 := store_written (orFault_ok hstore)
  obtain ⟨⟨s3, ok⟩, hadd, h⟩ := bind_ok h
  cases h
  have hs2' : persistStateUnmapEntry s2 = { s1 with file := s1.file.write handle bytes } := by
    rw [hs2]
    simp only [persistStateUnmapEntry, persistStateMapEntry, add_sub_cancel_right]
  replace hadd := orFault_ok hadd
  rw [hs2'] at hadd
  have hl2 : Laid { s1 with file := s1.file.write handle bytes } (areas ++ [⟨handle, v.size, false⟩]) := by
    exact hl1.value hmem (show 0 + bytes.length ≤ v.size by omega)
  have hplan : PersistState.plan { s1 with file := s1.file.write handle bytes } =
      { s.plan with room := room } := by
    obtain ⟨s4, hg, -, rfl⟩ := hnew.grown
    unfold PersistState.plan
    rw [← hs1]
    dsimp only
    rw [hg.rest]
    rfl
  have hblock : ¬ KeyRoom { s1 with file := s1.file.write handle bytes } v.key →
      sizeWith env s1.currentOfs s1.currentSize persistStateKeyBlockSize < 2 ^ 32 := by
    intro hno
    have hfits := hkeyfit fun hle => hno (by
      unfold KeyRoom
      rw [← hplan] at hle
      exact hle)
    rw [← hplan] at hfits
    exact hfits.trans_lt hnarrow
  obtain ⟨-, hadded, hkeyplan⟩ := addKey_spec hl2.tailKept hl2.inside hl2.narrow hblock hadd
  rw [hplan, hkey] at hkeyplan
  cases ok with
  | false => cases hkeyplan
  | true =>
    obtain ⟨blocks, hl3, -⟩ := hl2.keyAdded hmem hadded
    rw [append_assoc] at hl3
    exact ⟨⟨s1, handle, hnew, hadded⟩, (Option.some.inj hkeyplan).symm, _, hl3⟩

theorem ValueLoaded.counter {v : LoadedValue} {bytes : List UInt8} (h : ValueLoaded s s' v bytes) :
    s'.mappedCounter = s.mappedCounter := by
  obtain ⟨s1, handle, hnew, hadded⟩ := h.steps
  exact hadded.counter.trans hnew.counter

theorem loadValues_spec {values : List LoadedValue} (hl : Laid s areas)
    (hserved : LoadServed env s.plan values) (h : loadValues env s values = .ok s') :
    s'.mappedCounter = s.mappedCounter ∧ ∃ areas', Laid s' areas' := by
  induction values generalizing s areas with
  | nil =>
    cases h
    exact ⟨rfl, areas, hl⟩
  | cons v values ih =>
    obtain ⟨hwhole, hserved⟩ := hserved
    obtain ⟨p, hp, hnarrow⟩ := (Option.any_eq_true ..).1 hserved
    replace hnarrow := of_decide_eq_true hnarrow
    obtain ⟨p1, hentry, hp⟩ := bind_eq_some_iff.1 hp
    obtain ⟨s1, hload, h⟩ := bind_ok h
    have hw := hwhole v mem_cons_self
    obtain ⟨bytes, hbytes, -⟩ := map_eq_some_iff.1 hw.2
    obtain ⟨hloaded, hplan, more, hl1⟩ := loadValue_spec hl hw hbytes hentry
      ((Plan.entries_size hp).trans_lt hnarrow) hload
    obtain ⟨hcounter, hareas⟩ := ih hl1 ⟨fun v hv => hwhole v (mem_cons_of_mem _ hv), by
      rw [hplan, hp]
      exact decide_eq_true hnarrow⟩ h
    exact ⟨hcounter.trans hloaded.counter, hareas⟩

def startPlan (env : PersistEnv) (growths : List Growth) : Plan :=
  ⟨⟨headerSize, pageUp env persistFileInitialSize, growths.tail⟩, 0, initialKeySize⟩

theorem pageUp_initial (env : PersistEnv) : pageUp env persistFileInitialSize < 2 ^ 32 := by
  have hle : pageUp env persistFileInitialSize ≤ persistFileInitialSize + 2 ^ env.pageBits :=
    pageUp_le
  have hpow := Nat.pow_le_pow_right (n := 2) (by decide) env.pageBits_le
  unfold persistFileInitialSize at *
  omega

theorem createStore_spec {growths : List Growth}
    (h : persistStateCreateStore env (persistStateNew growths) = some (s, true)) :
    Laid s [] ∧ s.plan = startPlan env growths ∧ s.mappedCounter = 0 ∧ s.mapped = true ∧
      (∀ key, s.keys key = none) ∧ s.file.read 0 4 = magic := by
  obtain ⟨hg, -, hgrowths, -, -, hok⟩ := growStore_spec (pageUp_initial env)
    (show 0 < persistFileInitialSize by decide) h
  obtain ⟨hsize, hmapped, hfile⟩ := hok rfl
  have hofs : s.currentOfs = headerSize := hg.currentOfs
  have hle : persistFileInitialSize ≤ s.currentSize := hsize ▸ le_pageUp
  have hinit : headerSize ≤ persistFileInitialSize := by decide
  have hnarrow := pageUp_initial env
  have hkeys : ∀ key, s.keys key = none := fun key => by rw [hg.rest]; rfl
  have hkeyofs : s.currentKeyOfs = 0 := by rw [hg.rest]
  have hkeysize : s.currentKeySize = initialKeySize := by rw [hg.rest]
  have hblock : s.currentKeyBlock = initialKeyStore := by rw [hg.rest]
  refine ⟨⟨by omega, by omega, hofs.ge, by simp, .nil, by simp, fun key handle hkey => ?_,
    .inl ⟨hblock, hkeysize⟩, ?_⟩, ?_, hg.counter, hmapped, hkeys, ?_⟩
  · rw [hkeys] at hkey
    cases hkey
  · rw [hkeyofs, hkeysize]
    decide
  · unfold PersistState.plan PersistState.room startPlan
    rw [hofs, hsize, hgrowths, hkeyofs, hkeysize]
    rfl
  · rw [hfile]
    exact ByteStore.read_write_self

/-! ## Runs -/

inductive PersistOp where
  | allocEntry (key : List UInt8) (size : Nat)
  | allocString (key value : List UInt8)
  | lookupEntry (key : List UInt8)
  | lookupString (key : List UInt8)
  | renameEntry (oldKey newKey : List UInt8)
  /-- The entry of a key is mapped, written to and unmapped. -/
  | write (key : List UInt8) (ofs : Nat) (bytes : List UInt8)
  | mapEntry
  | unmapEntry

def writeEntry (s : PersistState) (key : List UInt8) (ofs : Nat) (bytes : List UInt8) :
    Option PersistState :=
  (s.keys key).bind fun handle =>
    ((persistStateMapEntry s).store (handle + ofs) bytes).map persistStateUnmapEntry

def persistStep (env : PersistEnv) (s : PersistState) : PersistOp → Option PersistState
  | .allocEntry key size => (persistStateAllocEntry env s key size).map Prod.fst
  | .allocString key value => persistStateAllocString env s key value
  | .lookupEntry key => (persistStateLookupEntry s key).map Prod.fst
  | .lookupString key => (persistStateLookupString s key).map Prod.fst
  | .renameEntry oldKey newKey => some (persistStateRenameEntry s oldKey newKey)
  | .write key ofs bytes => writeEntry s key ofs bytes
  | .mapEntry => some (persistStateMapEntry s)
  | .unmapEntry => some (persistStateUnmapEntry s)

/-- What the operation leaves mapped. -/
def PersistOp.maps : PersistOp → Int
  | .mapEntry => 1
  | .unmapEntry => -1
  | _ => 0

/-- The sizes have 32 bits, a string gets its room, and a caller writes to the value of its key and
unmaps what it has mapped. -/
def OpFits (env : PersistEnv) (s : PersistState) : PersistOp → Prop
  | .allocEntry key size => EntryNarrow env s key size
  | .allocString key value => EntryNarrow env s key (value.length + 4) ∧
      (s.plan.entry env key (value.length + 4)).isSome = true
  | .write key ofs bytes =>
      ((s.keys key).any fun handle => ofs + bytes.length ≤ s.file.word (handle - valueHeaderSize)) = true
  | .unmapEntry => 0 < s.mappedCounter
  | _ => True

instance (env : PersistEnv) (s : PersistState) (op : PersistOp) : Decidable (OpFits env s op) :=
  match op with
  | .allocEntry .. => inferInstanceAs (Decidable (EntryNarrow ..))
  | .allocString .. => inferInstanceAs (Decidable (_ ∧ _))
  | .write .. => inferInstanceAs (Decidable (_ = true))
  | .unmapEntry => inferInstanceAs (Decidable (_ < _))
  | .lookupEntry .. | .lookupString .. | .renameEntry .. | .mapEntry => inferInstanceAs (Decidable True)

def PersistNext (env : PersistEnv) (s : PersistState) (op : PersistOp) (s' : PersistState) : Prop :=
  OpFits env s op ∧ persistStep env s op = some s'

def persistNext (env : PersistEnv) (s : PersistState) (op : PersistOp) : Option PersistState :=
  if OpFits env s op then persistStep env s op else none

theorem EntryAllocated.counter {key : List UInt8} (h : EntryAllocated s key n s' handle) :
    s'.mappedCounter = s.mappedCounter := by
  cases h with
  | refused hg => exact hg.counter
  | failed hnew hadded hfreed =>
    have hcounter := hadded.counter.trans hnew.counter
    rcases hfreed with rfl | ⟨-, rfl⟩
    · exact hcounter
    · exact hcounter
  | done hnew hadded => exact hadded.counter.trans hnew.counter

theorem step_balanced {op : PersistOp} (hl : Laid s areas) (h : PersistNext env s op s') :
    s'.mappedCounter = s.mappedCounter + op.maps ∧ ∃ areas', Laid s' areas' := by
  obtain ⟨hfits, hstep⟩ := h
  cases op with
  | allocEntry key size =>
    obtain ⟨⟨s1, handle⟩, halloc, rfl⟩ := map_eq_some_iff.1 hstep
    obtain ⟨hentry, -, more, hl', -⟩ := allocEntry_spec hl hfits halloc
    refine ⟨?_, _, hl'⟩
    rw [hentry.counter, dropped_same]
    exact (Int.add_zero _).symm
  | allocString key value =>
    obtain ⟨hnarrow, hserved⟩ := hfits
    obtain ⟨⟨s1, handle⟩, halloc, hstore⟩ := bind_eq_some_iff.1 hstep
    have hlen : (be32 value.length ++ value).length = value.length + 4 := by
      rw [length_append, length_be32, Nat.add_comm]
    rw [hlen] at halloc
    obtain ⟨hentry, hplan, more, hl1, hmem⟩ := allocEntry_spec hl hnarrow halloc
    have hne : handle ≠ 0 := by
      rintro rfl
      rw [hplan] at hserved
      cases hserved
    obtain ⟨s2, hwrite, rfl⟩ := map_eq_some_iff.1 hstore
    have hl2 := hl1.value (mem_append_right _ (hmem hne))
      (show 0 + (be32 value.length ++ value).length ≤ value.length + 4 by omega)
    rw [store_written hwrite]
    simp only [persistStateUnmapEntry, persistStateMapEntry, add_sub_cancel_right]
    refine ⟨?_, _, hl2⟩
    show s1.mappedCounter = _
    rw [hentry.counter, dropped_same]
    exact (Int.add_zero _).symm
  | lookupEntry key =>
    obtain ⟨⟨s1, entry⟩, hlookup, rfl⟩ := map_eq_some_iff.1 hstep
    rcases lookupEntry_spec hl hlookup with ⟨-, -, rfl⟩ | ⟨handle, size, -, hmem, -, rfl⟩
    · exact ⟨(Int.add_zero _).symm, areas, hl⟩
    · exact ⟨(Int.add_zero _).symm, areas, hl.marked hmem 1⟩
  | lookupString key =>
    obtain ⟨⟨s1, result⟩, hlookup, rfl⟩ := map_eq_some_iff.1 hstep
    obtain ⟨⟨s2, entry⟩, hlookup, hread⟩ := bind_eq_some_iff.1 hlookup
    have hsame : s1 = s2 := by
      cases entry with
      | none =>
        cases hread
        rfl
      | some entry =>
        obtain ⟨⟨sa, value⟩, -, hread⟩ := bind_eq_some_iff.1 hread
        cases hread
        simp [persistStateUnmapEntry, persistStateMapEntry]
    subst hsame
    rcases lookupEntry_spec hl hlookup with ⟨-, -, rfl⟩ | ⟨handle, size, -, hmem, -, rfl⟩
    · exact ⟨(Int.add_zero _).symm, areas, hl⟩
    · exact ⟨(Int.add_zero _).symm, areas, hl.marked hmem 1⟩
  | renameEntry oldKey newKey =>
    cases hstep
    refine ⟨?_, areas, hl.rename oldKey newKey⟩
    unfold persistStateRenameEntry
    split <;> exact (Int.add_zero _).symm
  | write key ofs bytes =>
    obtain ⟨handle, hkey, hin⟩ := (Option.any_eq_true ..).1 hfits
    replace hin := of_decide_eq_true hin
    obtain ⟨size, hmem, -⟩ := hl.handle_bound hkey
    have hsize := hl.sizes _ hmem
    dsimp only at hsize
    rw [hsize] at hin
    obtain ⟨handle', hkey', hstore⟩ := bind_eq_some_iff.1 hstep
    obtain rfl : handle = handle' := Option.some.inj (hkey.symm.trans hkey')
    obtain ⟨s1, hwrite, rfl⟩ := map_eq_some_iff.1 hstore
    rw [store_written hwrite]
    simp only [persistStateUnmapEntry, persistStateMapEntry, add_sub_cancel_right]
    exact ⟨(Int.add_zero _).symm, areas, hl.value hmem hin⟩
  | mapEntry =>
    cases hstep
    exact ⟨rfl, areas, hl.inside, hl.narrow, hl.start, hl.bound, hl.apart, hl.sizes, hl.keys, hl.block,
      hl.tail⟩
  | unmapEntry =>
    cases hstep
    exact ⟨rfl, areas, hl.inside, hl.narrow, hl.start, hl.bound, hl.apart, hl.sizes, hl.keys, hl.block,
      hl.tail⟩

/-- What is mapped in the end. -/
def mapsOf (script : List PersistOp) : Int := (script.map PersistOp.maps).sum

/-- The values of the committed file get their room in the new store. -/
def StartServed (env : PersistEnv) (growths : List Growth) (committed : Option PersistFile)
    (rounds : Nat) : Prop :=
  (committed.all fun file => decide (LoadServed env (startPlan env growths) (scanFile file rounds).values)) =
    true

instance (env : PersistEnv) (growths : List Growth) (committed : Option PersistFile) (rounds : Nat) :
    Decidable (StartServed env growths committed rounds) := inferInstanceAs (Decidable (_ = true))

theorem start_spec {growths : List Growth} {committed : Option PersistFile} {rounds : Nat}
    (hserved : StartServed env growths committed rounds)
    (h : persistStateStart env committed rounds (persistStateNew growths) = .ok (s, true)) :
    s.mappedCounter = 0 ∧ ∃ areas, Laid s areas := by
  obtain ⟨⟨s0, created⟩, hcreate, h⟩ := bind_ok h
  replace hcreate := orFault_ok hcreate
  cases created with
  | false => cases h
  | true =>
    obtain ⟨hl, hplan, hcounter, -⟩ := createStore_spec hcreate
    cases committed with
    | none =>
      cases h
      exact ⟨hcounter, [], hl⟩
    | some file =>
      have hload := persistStateLoad_eq h
      obtain ⟨s1, hvalues, hend⟩ := bind_ok hload
      have hsame : s1 = s := by
        cases hcase : (scanFile file rounds).ending with
        | stopped =>
          rw [hcase] at hend
          cases hend
          rfl
        | outside =>
          rw [hcase] at hend
          cases hend
        | rounds =>
          rw [hcase] at hend
          cases hend
      subst hsame
      have hserved' := of_decide_eq_true hserved
      rw [← hplan] at hserved'
      obtain ⟨hcounter', hareas⟩ := loadValues_spec hl hserved' hvalues
      exact ⟨hcounter'.trans hcounter, hareas⟩

/-- **Maps and unmaps are balanced**, in every run whose operations fit: a call leaves the counter as it
was, and what is allocated lies inside the mapped file. -/
theorem persist_state_balanced {growths : List Growth} {committed : Option PersistFile} {rounds : Nat}
    {s0 : PersistState} {script : List PersistOp}
    (hserved : StartServed env growths committed rounds)
    (hstart : persistStateStart env committed rounds (persistStateNew growths) = .ok (s0, true))
    (hrun : Run (PersistNext env) s0 script s) :
    s0.mappedCounter = 0 ∧ s.mappedCounter = mapsOf script ∧ s.currentOfs ≤ s.currentSize ∧
      (∀ op s', PersistNext env s op s' →
        s'.mappedCounter = s.mappedCounter + op.maps ∧ s'.currentOfs ≤ s'.currentSize) ∧
      (∀ key size handle s', EntryNarrow env s key size →
        persistStateAllocEntry env s key size = some (s', handle) → handle ≠ 0 →
          handle + size ≤ s'.currentSize) ∧
      ∀ key handle, s.keys key = some handle →
        handle + s.file.word (handle - valueHeaderSize) ≤ s.currentSize := by
  obtain ⟨hzero, areas0, hl0⟩ := start_spec hserved hstart
  have hinv : ∀ {s0 s : PersistState} {script : List PersistOp}, Run (PersistNext env) s0 script s →
      (∃ areas, Laid s0 areas) → s.mappedCounter = s0.mappedCounter + mapsOf script ∧
        ∃ areas, Laid s areas := by
    intro s0 s script hrun hl
    induction hrun with
    | refl => exact ⟨(Int.add_zero _).symm, hl⟩
    | step hnext _ ih =>
      obtain ⟨areas, hl⟩ := hl
      obtain ⟨hcounter, hl1⟩ := step_balanced hl hnext
      obtain ⟨hrest, hl2⟩ := ih hl1
      refine ⟨?_, hl2⟩
      rw [hrest, hcounter]
      simp [mapsOf, add_assoc]
  obtain ⟨hcounter, areas, hl⟩ := hinv hrun ⟨areas0, hl0⟩
  refine ⟨hzero, by rw [hcounter, hzero, Int.zero_add], hl.inside, fun op s' hnext => ?_,
    fun key size handle s' hnarrow halloc hne => ?_, fun key handle hkey => ?_⟩
  · obtain ⟨hmaps, areas', hl'⟩ := step_balanced hl hnext
    exact ⟨hmaps, hl'.inside⟩
  · obtain ⟨-, -, more, hl', hmem⟩ := allocEntry_spec hl hnarrow halloc
    exact (hl'.bound _ (mem_append_right _ (hmem hne))).2.trans hl'.inside
  · obtain ⟨size, hmem, -, hle⟩ := hl.handle_bound hkey
    have hsize := hl.sizes _ hmem
    dsimp only at hsize
    rwa [hsize]

theorem persistNext_sound {op : PersistOp} (h : persistNext env s op = some s') :
    PersistNext env s op s' := by
  unfold persistNext at h
  split at h
  · rename_i hfits
    exact ⟨hfits, h⟩
  · cases h

end

/-- Pages of 4096 bytes. -/
def pages4k : PersistEnv := ⟨12, by decide⟩

def runFrom (committed : Option PersistFile) (script : List PersistOp) :
    Option (PersistState × PersistState) :=
  match persistStateStart pages4k committed 100 (persistStateNew []) with
  | .ok (s, true) => (exec (persistNext pages4k) s script).map fun s' => (s, s')
  | _ => none

theorem runFrom_sound {committed : Option PersistFile} {script : List PersistOp} {s s' : PersistState}
    (h : runFrom committed script = some (s, s')) :
    persistStateStart pages4k committed 100 (persistStateNew []) = .ok (s, true) ∧
      Run (PersistNext pages4k) s script s' := by
  unfold runFrom at h
  split at h
  · rename_i s0 hstart
    obtain ⟨s1, hexec, heq⟩ := map_eq_some_iff.1 h
    cases heq
    exact ⟨hstart, Run.of_exec (fun _ _ _ => persistNext_sound) hexec⟩
  · cases h

/-- A value of one run is loaded in the next one. -/
theorem persist_state_balanced_reload : ∃ s1 s2 s3 s4,
    persistStateStart pages4k none 100 (persistStateNew []) = .ok (s1, true) ∧
    Run (PersistNext pages4k) s1 [.allocEntry [107] 3, .write [107] 0 [1, 2, 3]] s2 ∧
    persistStateStart pages4k (some (persistStateCommit s2)) 100 (persistStateNew []) = .ok (s3, true) ∧
    Run (PersistNext pages4k) s3 [.lookupEntry [107], .mapEntry, .allocString [115] [118], .mapEntry,
      .unmapEntry, .renameEntry [107] [110]] s4 ∧ s4.mappedCounter = 1 := by
  have hsome := show ((runFrom none [.allocEntry [107] 3, .write [107] 0 [1, 2, 3]]).bind fun p =>
      (runFrom (some (persistStateCommit p.2)) [.lookupEntry [107], .mapEntry, .allocString [115] [118],
        .mapEntry, .unmapEntry, .renameEntry [107] [110]]).map fun _ =>
          decide (StartServed pages4k [] (some (persistStateCommit p.2)) 100)) = some true by
    decide +kernel
  obtain ⟨⟨s1, s2⟩, h1, hsome⟩ := bind_eq_some_iff.1 hsome
  obtain ⟨⟨s3, s4⟩, h2, hserved⟩ := map_eq_some_iff.1 hsome
  obtain ⟨hstart1, hrun1⟩ := runFrom_sound h1
  obtain ⟨hstart2, hrun2⟩ := runFrom_sound h2
  have hbalanced := persist_state_balanced (of_decide_eq_true hserved) hstart2 hrun2
  exact ⟨s1, s2, s3, s4, hstart1, hrun1, hstart2, hrun2, hbalanced.2.1⟩

/-- A value of almost 4 GB is allocated without any growth, and a lookup leaves it mapped. -/
theorem persist_state_unbalanced : ∃ s0 s1 s2,
    persistStateStart pages4k none 100 (persistStateNew []) = .ok (s0, true) ∧
    persistStateAllocEntry pages4k s0 [107] (2 ^ 32 - 8192) = some (s1, 4104) ∧
    s1.currentSize < s1.currentOfs ∧
    persistStateLookupEntry s1 [107] = some (s2, none) ∧ s2.mappedCounter = s1.mappedCounter + 1 := by
  have hsome := show ((runFrom none []).bind fun p =>
      (persistStateAllocEntry pages4k p.1 [107] (2 ^ 32 - 8192)).bind fun r =>
        (persistStateLookupEntry r.1 [107]).map fun q =>
          (r.2, q.2, decide (r.1.currentSize < r.1.currentOfs), q.1.mappedCounter - r.1.mappedCounter)) =
      some (4104, none, true, 1) by decide +kernel
  obtain ⟨⟨s0, s0'⟩, h0, hsome⟩ := bind_eq_some_iff.1 hsome
  obtain ⟨⟨s1, handle⟩, halloc, hsome⟩ := bind_eq_some_iff.1 hsome
  obtain ⟨⟨s2, entry⟩, hlookup, heq⟩ := map_eq_some_iff.1 hsome
  simp only [Prod.mk.injEq, decide_eq_true_eq] at heq
  obtain ⟨rfl, rfl, hlt, hcounter⟩ := heq
  exact ⟨s0, s1, s2, (runFrom_sound h0).1, halloc, hlt, hlookup, by omega⟩

end SyslogNg.PersistState
