import SyslogNg.PersistState.Alloc

/-!
# The layout of the file

Areas follow each other behind the header of the file: the values, and the key blocks but for the
first. What the calls write stays in the area it is for (`Laid`).
-/

namespace SyslogNg.PersistState

open Lib List Function Option

structure Area where
  ofs : Nat
  size : Nat
  isKeys : Bool
  deriving DecidableEq

def Area.Apart (a b : Area) : Prop :=
  a.ofs + a.size + valueHeaderSize ≤ b.ofs ∨ b.ofs + b.size + valueHeaderSize ≤ a.ofs

instance : Std.Symm Area.Apart := ⟨fun _ _ h => h.symm⟩

/-- The areas lie behind each other, with their sizes in front of them. -/
structure Laid (s : PersistState) (areas : List Area) : Prop where
  inside : s.currentOfs ≤ s.currentSize
  narrow : s.currentSize < 2 ^ 32
  start : headerSize ≤ s.currentOfs
  bound : ∀ a ∈ areas, headerSize + valueHeaderSize ≤ a.ofs ∧ a.ofs + a.size ≤ s.currentOfs
  apart : areas.Pairwise fun a b => a.ofs + a.size + valueHeaderSize ≤ b.ofs
  sizes : ∀ a ∈ areas, s.file.word (a.ofs - valueHeaderSize) = a.size
  keys : ∀ key handle, s.keys key = some handle → ∃ size, ⟨handle, size, false⟩ ∈ areas
  block : (s.currentKeyBlock = initialKeyStore ∧ s.currentKeySize = initialKeySize) ∨
    (⟨s.currentKeyBlock, persistStateKeyBlockSize, true⟩ ∈ areas ∧
      s.currentKeySize = persistStateKeyBlockSize)
  tail : s.currentKeyOfs + chainSize ≤ s.currentKeySize

section

variable {env : PersistEnv} {s s' : PersistState} {areas : List Area} {a b : Area} {handle : Nat}

theorem Laid.tailKept (hl : Laid s areas) : TailKept s := by
  refine ⟨hl.tail, ?_⟩
  rcases hl.block with ⟨-, h⟩ | ⟨-, h⟩
  · rw [h]
    decide
  · rw [h]
    decide

theorem Laid.separate (hl : Laid s areas) (ha : a ∈ areas) (hb : b ∈ areas) (hne : a ≠ b) : a.Apart b := by
  have hapart : areas.Pairwise Area.Apart := hl.apart.imp fun h => .inl h
  exact hapart.forall ha hb hne

/-- Bytes that are no sizes: those of an area or its marks, or of the header of the file. -/
def NoSizes (areas : List Area) (ofs n : Nat) : Prop :=
  ∀ a ∈ areas, ofs + n + valueHeaderSize ≤ a.ofs ∨ a.ofs ≤ ofs + 4

variable {n : Nat} {inUse : Bool}

theorem Laid.noSizes_area (hl : Laid s areas) (ha : a ∈ areas) {ofs : Nat} (hofs : a.ofs ≤ ofs + 4)
    (hend : ofs + n ≤ a.ofs + a.size) : NoSizes areas ofs n := by
  intro b hb
  by_cases hab : a = b
  · subst hab
    exact .inr hofs
  · rcases hl.separate ha hb hab with h | h
    · exact .inl (by omega)
    · exact .inr (by omega)

theorem Laid.noSizes_header (hl : Laid s areas) {ofs : Nat} (hend : ofs + n ≤ headerSize) :
    NoSizes areas ofs n :=
  fun b hb => .inl (by have := (hl.bound b hb).1; omega)

theorem Laid.file {file : ByteStore} (hl : Laid s areas)
    (hsizes : ∀ a ∈ areas, ByteStore.Agree s.file file (a.ofs - valueHeaderSize) 4) :
    Laid { s with file := file } areas :=
  ⟨hl.inside, hl.narrow, hl.start, hl.bound, hl.apart,
    fun a ha => (hsizes a ha).word.trans (hl.sizes a ha), hl.keys, hl.block, hl.tail⟩

theorem Laid.writtenIn {buff len : Nat} (hl : Laid s areas) (hw : WrittenIn buff len s s')
    (hclear : NoSizes areas buff len) : Laid s' areas := by
  rw [hw.rest]
  refine hl.file fun a ha i hi hlt => hw.outside i ?_
  have := (hl.bound a ha).1
  have h8 : valueHeaderSize = 8 := rfl
  rcases hclear a ha with h | h <;> omega

theorem writtenIn_write (s : PersistState) (ofs : Nat) (bytes : List UInt8) :
    WrittenIn ofs bytes.length s { s with file := s.file.write ofs bytes } :=
  ⟨rfl, fun _ hi => ByteStore.write_outside hi⟩

theorem Laid.grown (hl : Laid s areas) (hg : Grown s s') (hnarrow : s'.currentSize < 2 ^ 32) :
    Laid s' areas := by
  obtain ⟨hrest, hsize, hbytes, -⟩ := hg
  have hsizes : ∀ a ∈ areas, ByteStore.Agree s.file s'.file (a.ofs - valueHeaderSize) 4 := by
    intro a ha i hi hlt
    have := (hl.bound a ha).1
    have h8 : valueHeaderSize = 8 := rfl
    exact hbytes i (by unfold headerSize at this; omega)
  rw [hrest]
  exact ⟨hl.inside.trans hsize, hnarrow, hl.start, hl.bound, hl.apart,
    fun a ha => (hsizes a ha).word.trans (hl.sizes a ha), hl.keys, hl.block, hl.tail⟩

variable {version : Nat}

theorem Laid.allocated (isKeys : Bool) (hl : Laid s areas) (hn : n < 2 ^ 32)
    (ha : Allocated s s' handle n inUse version) : Laid s' (areas ++ [⟨handle, n, isKeys⟩]) := by
  obtain ⟨⟨s1, hg, hmapped, hs'⟩, hhandle, hinside, hnarrow⟩ := ha
  have h8 : valueHeaderSize = 8 := rfl
  have hstart := hl.start
  have hup : n ≤ up8 n := le_up8
  have hofs' : s'.currentOfs = s.currentOfs + (up8 n + valueHeaderSize) := by rw [hs']
  have hfile : s'.file = s1.file.write s.currentOfs
      (be32 n ++ [if inUse then 1 else 0, UInt8.ofNat version]) := by rw [hs']
  have hkeys : s'.keys = s.keys := by rw [hs', hg.rest]
  have hblock : s'.currentKeyBlock = s.currentKeyBlock := by rw [hs', hg.rest]
  have hkeysize : s'.currentKeySize = s.currentKeySize := by rw [hs', hg.rest]
  have hkeyofs : s'.currentKeyOfs = s.currentKeyOfs := by rw [hs', hg.rest]
  refine ⟨hinside, hnarrow, by omega, fun a hmem => ?_, ?_, fun a hmem => ?_, fun key h hkey => ?_, ?_, ?_⟩
  · rcases mem_append.1 hmem with hmem | hmem
    · have := hl.bound a hmem
      omega
    · rw [mem_singleton.1 hmem]
      dsimp only
      omega
  · refine pairwise_append.2 ⟨hl.apart, pairwise_singleton _ _, fun a hmem b hb => ?_⟩
    rw [mem_singleton.1 hb]
    have := (hl.bound a hmem).2
    dsimp only
    omega
  · rcases mem_append.1 hmem with hmem | hmem
    · have hb := hl.bound a hmem
      have hagree : ByteStore.Agree s.file s'.file (a.ofs - valueHeaderSize) 4 := by
        intro i hi hlt
        rw [hfile, ByteStore.write_outside (.inl (by omega))]
        exact hg.bytes i (by unfold headerSize at hb; omega)
      rw [hagree.word, hl.sizes a hmem]
    · rw [mem_singleton.1 hmem]
      dsimp only
      rw [hhandle, Nat.add_sub_cancel]
      refine ByteStore.word_of_read hn ?_
      rw [hfile]
      exact ByteStore.read_write_left s1.file s.currentOfs (be32 n) _
  · rw [hkeys] at hkey
    obtain ⟨size, hmem⟩ := hl.keys key h hkey
    exact ⟨size, mem_append_left _ hmem⟩
  · rw [hblock, hkeysize]
    exact hl.block.imp_right fun ⟨hmem, hsize⟩ => ⟨mem_append_left _ hmem, hsize⟩
  · rw [hkeyofs, hkeysize]
    exact hl.tail

theorem Laid.noSizes_keys (hl : Laid s areas) :
    NoSizes areas (s.currentKeyBlock + s.currentKeyOfs) (s.currentKeySize - s.currentKeyOfs) := by
  have htail := hl.tail
  rcases hl.block with ⟨hblock, hsize⟩ | ⟨hmem, hsize⟩
  · refine hl.noSizes_header ?_
    unfold initialKeyStore at hblock
    unfold initialKeySize at hsize
    unfold headerSize
    omega
  · refine hl.noSizes_area hmem (by dsimp only; omega) ?_
    dsimp only
    omega

theorem NoSizes.sub {ofs ofs' n' : Nat} (h : NoSizes areas ofs n) (hofs : ofs ≤ ofs')
    (hend : ofs' + n' ≤ ofs + n) : NoSizes areas ofs' n' :=
  fun a ha => (h a ha).imp (fun h => by omega) fun h => by omega

variable {key : List UInt8}

theorem Laid.withKey {size : Nat} (hl : Laid s areas)
    (hmem : ⟨handle, size, false⟩ ∈ areas) : Laid (withKey s key handle) areas := by
  refine ⟨hl.inside, hl.narrow, hl.start, hl.bound, hl.apart, hl.sizes, fun key' h hkey => ?_, hl.block,
    hl.tail⟩
  unfold PersistState.withKey at hkey
  dsimp only at hkey
  by_cases hsame : key' = key
  · rw [hsame, update_self, some_inj] at hkey
    exact ⟨size, hkey ▸ hmem⟩
  · rw [update_of_ne hsame] at hkey
    exact hl.keys key' h hkey

theorem Laid.recorded (hl : Laid s areas) (hroom : KeyRoom s key) :
    Laid (recorded s key handle) areas := by
  have hkeys : NoSizes areas (s.currentKeyBlock + s.currentKeyOfs) (record key handle).length := by
    refine hl.noSizes_keys.sub le_rfl ?_
    rw [length_record]
    unfold KeyRoom at hroom
    omega
  have hl1 := hl.writtenIn (writtenIn_write s _ _) hkeys
  have hl2 := hl1.writtenIn (writtenIn_write _ keyCountOfs (be32 (ByteStore.word
    (s.file.write (s.currentKeyBlock + s.currentKeyOfs) (record key handle)) keyCountOfs + 1)))
    (hl1.noSizes_header (by decide : keyCountOfs + 4 ≤ headerSize))
  exact ⟨hl2.inside, hl2.narrow, hl2.start, hl2.bound, hl2.apart, hl2.sizes, hl2.keys, hl2.block, hroom⟩

theorem Laid.chained {newBlock : Nat} (hl : Laid s areas)
    (hmem : ⟨newBlock, persistStateKeyBlockSize, true⟩ ∈ areas) : Laid (chained s newBlock) areas := by
  have hkeys : NoSizes areas (s.currentKeyBlock + s.currentKeyOfs) (record [] newBlock).length := by
    refine hl.noSizes_keys.sub le_rfl ?_
    have htail := hl.tail
    have h8 : chainSize = 8 := rfl
    rw [length_record, length_nil]
    omega
  have hl1 := hl.writtenIn (writtenIn_write s _ _) hkeys
  exact ⟨hl1.inside, hl1.narrow, hl1.start, hl1.bound, hl1.apart, hl1.sizes, hl1.keys,
    .inr ⟨hmem, rfl⟩, (by decide : 0 + chainSize ≤ persistStateKeyBlockSize)⟩

theorem Laid.keyAdded {size : Nat} {ok : Bool} (hl : Laid s areas)
    (hmem : ⟨handle, size, false⟩ ∈ areas) (h : KeyAdded s key handle s' ok) :
    ∃ blocks, Laid s' (areas ++ blocks) ∧ ∀ a ∈ blocks, a.isKeys = true := by
  have hl0 : Laid (PersistState.withKey s key handle) areas := hl.withKey hmem
  have hbuffer : NoSizes areas (s.currentKeyBlock + s.currentKeyOfs)
      (s.currentKeySize - s.currentKeyOfs - chainSize) := hl.noSizes_keys.sub le_rfl (by omega)
  cases h with
  | here hroom =>
    refine ⟨[], ?_, by simp⟩
    rw [append_nil]
    exact hl0.recorded hroom
  | refused _ hw hg hnarrow =>
    refine ⟨[], ?_, by simp⟩
    rw [append_nil]
    exact (hl0.writtenIn hw hbuffer).grown hg hnarrow
  | chained _ hw hnew hlen =>
    have hl2 := ((hl0.writtenIn hw hbuffer).allocated true (by decide) hnew).chained
      (mem_append_right _ (mem_singleton_self _))
    exact ⟨_, hl2.recorded (show 0 + _ + chainSize ≤ persistStateKeyBlockSize by omega), by simp⟩
  | @tooLong _ s2 _ newBlock _ hw hnew _ hw2 =>
    have hl2 := ((hl0.writtenIn hw hbuffer).allocated true (by decide) hnew).chained
      (mem_append_right _ (mem_singleton_self _))
    refine ⟨_, hl2.writtenIn hw2 ?_, by simp⟩
    exact hl2.noSizes_keys.sub le_rfl (by
      show newBlock + _ ≤ newBlock + 0 + (persistStateKeyBlockSize - 0)
      omega)

/-! ## Entries -/

/-- The mark of a value is set or cleared. -/
def marked (s : PersistState) (handle : Nat) (mark : UInt8) : PersistState :=
  { s with file := s.file.write (handle - 4) [mark] }

theorem Laid.handle_bound (hl : Laid s areas) (hkey : s.keys key = some handle) :
    ∃ size, ⟨handle, size, false⟩ ∈ areas ∧ headerSize + valueHeaderSize ≤ handle ∧
      handle + size ≤ s.currentSize := by
  obtain ⟨size, hmem⟩ := hl.keys key handle hkey
  have hb := hl.bound _ hmem
  exact ⟨size, hmem, hb.1, hb.2.trans hl.inside⟩

theorem headerOf_eq (hge : valueHeaderSize ≤ handle) (hlt : handle < 2 ^ 32) :
    headerOf handle = handle - valueHeaderSize := by
  unfold headerOf valueHeaderSize at *
  omega

theorem Laid.marked (hl : Laid s areas) (ha : a ∈ areas) (mark : UInt8) :
    Laid (marked s a.ofs mark) areas := by
  have hb := hl.bound a ha
  have h8 : valueHeaderSize = 8 := rfl
  refine hl.writtenIn (writtenIn_write s (a.ofs - 4) [mark]) (hl.noSizes_area ha ?_ ?_)
  · omega
  · rw [length_singleton]
    omega

theorem store_mark (hl : Laid s areas) (ha : a ∈ areas) {mark : UInt8}
    (h : ((persistStateMapEntry s).store (headerOf a.ofs + inUseOfs) [mark]).map persistStateUnmapEntry =
      some s') : s' = PersistState.marked s a.ofs mark := by
  have hb := hl.bound a ha
  have h8 : valueHeaderSize = 8 := rfl
  have hlt := hl.narrow
  have hin := hl.inside
  obtain ⟨s1, hstore, rfl⟩ := map_eq_some_iff.1 h
  rw [store_written hstore, headerOf_eq (by omega) (by omega)]
  have hofs : a.ofs - valueHeaderSize + inUseOfs = a.ofs - 4 := by
    unfold inUseOfs
    omega
  rw [hofs]
  simp only [persistStateUnmapEntry, persistStateMapEntry, add_sub_cancel_right]
  rfl

/-- The entry that a name has is no longer marked. -/
def dropped (s : PersistState) (key : List UInt8) : PersistState :=
  match s.keys key with
  | some handle => PersistState.marked s handle 0
  | none => s

theorem dropOldEntry_spec (hl : Laid s areas) (h : dropOldEntry s key = some s') :
    s' = dropped s key ∧ Laid s' areas := by
  unfold dropOldEntry persistStateLookupKey at h
  unfold dropped
  cases hkey : s.keys key with
  | none =>
    rw [hkey] at h
    cases h
    exact ⟨rfl, hl⟩
  | some handle =>
    rw [hkey] at h
    obtain ⟨size, hmem, -⟩ := hl.handle_bound hkey
    obtain rfl := store_mark hl hmem h
    exact ⟨rfl, hl.marked hmem 0⟩

theorem freeValue_spec (hl : Laid s areas) (ha : a ∈ areas) (h : persistStateFreeValue s a.ofs = some s') :
    s' = s ∨ (a.ofs = s.currentSize ∧ s' = PersistState.marked s a.ofs 0) := by
  have hb := hl.bound a ha
  have h8 : valueHeaderSize = 8 := rfl
  have hlt := hl.narrow
  have hin := hl.inside
  unfold persistStateFreeValue at h
  rw [if_neg (by omega)] at h
  split at h
  · cases h
    exact .inl rfl
  rename_i hge
  right
  have hofs : a.ofs = s.currentSize := by omega
  refine ⟨hofs, ?_⟩
  obtain ⟨bytes, hfetch, h⟩ := bind_eq_some_iff.1 h
  have hbytes : bytes = s.file.read (a.ofs - valueHeaderSize) 4 := by
    rw [headerOf_eq (by omega) (by omega)] at hfetch
    unfold PersistState.fetch at hfetch
    split at hfetch
    · cases hfetch
      rfl
    · cases hfetch
  have hsize : ofBe32 bytes = a.size := by
    rw [hbytes]
    exact hl.sizes a ha
  rw [hsize, if_neg] at h
  · exact store_mark hl ha h
  · show ¬ (a.size + a.ofs) % 2 ^ 32 > s.currentSize
    rw [Nat.mod_eq_of_lt (by omega)]
    omega

/-- No size that the entry needs has more than 32 bits. -/
def EntryNarrow (env : PersistEnv) (s : PersistState) (key : List UInt8) (n : Nat) : Prop :=
  n < 2 ^ 32 ∧ sizeWith env s.currentOfs s.currentSize n < 2 ^ 32 ∧
    ((s.room.take env n).all fun room =>
      KeyRoom s key ∨ sizeWith env room.ofs room.size persistStateKeyBlockSize < 2 ^ 32) = true

instance (env : PersistEnv) (s : PersistState) (key : List UInt8) (n : Nat) :
    Decidable (EntryNarrow env s key n) := inferInstanceAs (Decidable (_ ∧ _ ∧ _))

/-- What `persist_state_alloc_entry` does behind the old entry. -/
inductive EntryAllocated (s : PersistState) (key : List UInt8) (n : Nat) : PersistState → Nat → Prop where
  | refused {s' : PersistState} : Grown s s' → EntryAllocated s key n s' 0
  | failed {s1 s2 s' : PersistState} {handle : Nat} : Allocated s s1 handle n true s.version →
      KeyAdded s1 key handle s2 false →
      s' = s2 ∨ (handle = s2.currentSize ∧ s' = marked s2 handle 0) → EntryAllocated s key n s' 0
  | done {s1 s' : PersistState} {handle : Nat} : Allocated s s1 handle n true s.version →
      KeyAdded s1 key handle s' true → EntryAllocated s key n s' handle

theorem Allocated.keyRoom (h : Allocated s s' handle n inUse version) :
    KeyRoom s' key ↔ KeyRoom s key := by
  obtain ⟨s1, hg, -, rfl⟩ := h.grown
  unfold KeyRoom
  rw [hg.rest]

theorem Allocated.handle_pos (h : Allocated s s' handle n inUse version) : handle ≠ 0 := by
  rw [h.handle]
  unfold valueHeaderSize
  omega

theorem addEntry_spec {ok : Bool} {s1 : PersistState}
    (hl : Laid s areas) (hn : n < 2 ^ 32) (hnew : Allocated s s1 handle n inUse version)
    (htake : s.room.take env n = some s1.room)
    (hnarrow : KeyRoom s key ∨ sizeWith env s1.currentOfs s1.currentSize persistStateKeyBlockSize < 2 ^ 32)
    (h : persistStateAddKey env s1 key handle = some (s', ok)) :
    key ≠ [] ∧ KeyAdded s1 key handle s' ok ∧
      s.plan.entry env key n = (if ok then some s'.plan else none) ∧
      ∃ blocks, Laid s' (areas ++ ⟨handle, n, false⟩ :: blocks) ∧ ∀ a ∈ blocks, a.isKeys = true := by
  have hl1 := hl.allocated false hn hnew
  obtain ⟨hkey, hadded, hplan⟩ := addKey_spec hl1.tailKept hl1.inside hl1.narrow (fun hroom =>
    hnarrow.resolve_left fun h => hroom (hnew.keyRoom.2 h)) h
  refine ⟨hkey, hadded, ?_, ?_⟩
  · unfold Plan.entry
    rw [show s.plan.room = s.room from rfl, htake, bind_some]
    have hsame : { s.plan with room := s1.room } = s1.plan := by
      obtain ⟨s2, hg, -, rfl⟩ := hnew.grown
      unfold PersistState.plan
      dsimp only
      rw [hg.rest]
    rw [hsame, hplan]
  · obtain ⟨blocks, hlaid, hblocks⟩ := hl1.keyAdded
      (mem_append_right _ (mem_singleton_self _)) hadded
    refine ⟨blocks, ?_, hblocks⟩
    rw [append_assoc] at hlaid
    exact hlaid

theorem dropped_same (s : PersistState) (key : List UInt8) :
    dropped s key = { s with file := (dropped s key).file } := by
  unfold dropped
  split <;> rfl

theorem allocEntry_spec (hl : Laid s areas) (hnarrow : EntryNarrow env s key n)
    (h : persistStateAllocEntry env s key n = some (s', handle)) :
    EntryAllocated (dropped s key) key n s' handle ∧
      s.plan.entry env key n = (if handle = 0 then none else some s'.plan) ∧
      ∃ more, Laid s' (areas ++ more) ∧ (handle ≠ 0 → ⟨handle, n, false⟩ ∈ more) := by
  obtain ⟨hn, hfit, hkeys⟩ := hnarrow
  obtain ⟨s0, hdrop, h⟩ := bind_eq_some_iff.1 h
  obtain ⟨rfl, hl0⟩ := dropOldEntry_spec hl hdrop
  have hsame := dropped_same s key
  have hofs : (dropped s key).currentOfs = s.currentOfs := by rw [hsame]
  have hsize : (dropped s key).currentSize = s.currentSize := by rw [hsame]
  have hroom : (dropped s key).room = s.room := by
    rw [hsame]
    rfl
  have hplan : (dropped s key).plan = s.plan := by
    rw [hsame]
    rfl
  obtain ⟨⟨s1, handle1⟩, halloc, h⟩ := bind_eq_some_iff.1 h
  rcases allocValue_spec hn hl0.inside hl0.narrow (by rwa [hofs, hsize]) halloc with
    ⟨rfl, hg, hlt, htake⟩ | ⟨hnew, htake⟩
  · cases h
    refine ⟨.refused hg, ?_, [], ?_, fun hne => absurd rfl hne⟩
    · unfold Plan.entry
      rw [show s.plan.room = s.room from rfl, ← hroom, htake]
      rfl
    · rw [append_nil]
      exact hl0.grown hg hlt
  · dsimp only at h
    rw [if_neg hnew.handle_pos] at h
    obtain ⟨⟨s2, ok⟩, hadd, h⟩ := bind_eq_some_iff.1 h
    have hblock : KeyRoom (dropped s key) key ∨
        sizeWith env s1.currentOfs s1.currentSize persistStateKeyBlockSize < 2 ^ 32 := by
      rw [← hroom, htake] at hkeys
      have hkeys := of_decide_eq_true hkeys
      unfold KeyRoom at hkeys ⊢
      rwa [hsame]
    obtain ⟨-, hadded, hentry, blocks, hlaid, -⟩ := addEntry_spec hl0 hn hnew htake hblock hadd
    rw [hplan] at hentry
    cases ok with
    | true =>
      cases h
      refine ⟨.done hnew hadded, ?_, _, hlaid, fun _ => mem_cons_self⟩
      rw [hentry, if_neg hnew.handle_pos]
      rfl
    | false =>
      dsimp only at h
      rw [if_neg Bool.false_ne_true] at h
      obtain ⟨s3, hfree, h⟩ := bind_eq_some_iff.1 h
      cases h
      have hmem : (⟨handle1, n, false⟩ : Area) ∈ areas ++ ⟨handle1, n, false⟩ :: blocks :=
        mem_append_right _ mem_cons_self
      have hfreed := freeValue_spec hlaid hmem hfree
      refine ⟨.failed hnew hadded hfreed, hentry, ⟨handle1, n, false⟩ :: blocks, ?_,
        fun hne => absurd rfl hne⟩
      rcases hfreed with rfl | ⟨-, rfl⟩
      · exact hlaid
      · exact hlaid.marked hmem 0

theorem lookupEntry_spec {entry : Option PersistEntry} (hl : Laid s areas)
    (h : persistStateLookupEntry s key = some (s', entry)) :
    (s.keys key = none ∧ entry = none ∧ s' = s) ∨ ∃ handle size, s.keys key = some handle ∧
      ⟨handle, size, false⟩ ∈ areas ∧ entry = some ⟨handle, size, s.file (handle - 3)⟩ ∧
        s' = PersistState.marked s handle 1 := by
  unfold persistStateLookupEntry persistStateLookupKey at h
  cases hkey : s.keys key with
  | none =>
    rw [hkey] at h
    cases h
    exact .inl ⟨rfl, rfl, rfl⟩
  | some handle =>
    right
    rw [hkey] at h
    obtain ⟨size, hmem, hge, hle⟩ := hl.handle_bound hkey
    have h8 : valueHeaderSize = 8 := rfl
    have hlt := hl.narrow
    dsimp only at h
    rw [if_neg (by omega)] at h
    obtain ⟨header, hfetch, h⟩ := bind_eq_some_iff.1 h
    rw [headerOf_eq (by omega) (by omega)] at hfetch
    have hheader : header = s.file.read (handle - valueHeaderSize) 6 := by
      unfold PersistState.fetch at hfetch
      split at hfetch
      · cases hfetch
        rfl
      · cases hfetch
    have hversion : header.getD 5 0 = s.file (handle - 3) := by
      rw [hheader, ByteStore.getD_read (by decide), show handle - valueHeaderSize + 5 = handle - 3 by omega]
    have hsize : ofBe32 (header.take 4) = size := by
      have hword := hl.sizes _ hmem
      unfold ByteStore.word at hword
      rw [hheader, ByteStore.read_append _ _ 4 2, take_left' ByteStore.length_read, hword]
    have hinside : ¬ (size + handle) % 2 ^ 32 > s.currentSize := by
      rw [Nat.mod_eq_of_lt (by omega)]
      omega
    have hcur : (persistStateMapEntry s).currentSize = s.currentSize := rfl
    rw [hsize, hcur, if_neg hinside] at h
    obtain ⟨s1, hstore, h⟩ := bind_eq_some_iff.1 h
    cases h
    refine ⟨handle, size, rfl, hmem, by rw [hversion], ?_⟩
    refine store_mark hl hmem ?_
    rw [hstore]
    rfl

theorem Laid.value {size : Nat} (hl : Laid s areas) (hmem : ⟨handle, size, false⟩ ∈ areas) {ofs : Nat}
    {bytes : List UInt8} (hin : ofs + bytes.length ≤ size) :
    Laid { s with file := s.file.write (handle + ofs) bytes } areas :=
  hl.writtenIn (writtenIn_write s _ bytes) (hl.noSizes_area hmem (by dsimp only; omega)
    (by dsimp only; omega))

theorem Laid.rename (hl : Laid s areas) (oldKey newKey : List UInt8) :
    Laid (persistStateRenameEntry s oldKey newKey) areas := by
  unfold persistStateRenameEntry
  cases hkey : s.keys oldKey with
  | none => exact hl
  | some handle =>
    refine ⟨hl.inside, hl.narrow, hl.start, hl.bound, hl.apart, hl.sizes, fun key h hk => ?_, hl.block,
      hl.tail⟩
    dsimp only at hk
    by_cases hnew : key = newKey
    · rw [hnew, update_self, some_inj] at hk
      exact hk ▸ hl.keys oldKey handle hkey
    · rw [update_of_ne hnew] at hk
      by_cases hold : key = oldKey
      · rw [hold, update_self] at hk
        cases hk
      · rw [update_of_ne hold] at hk
        exact hl.keys key h hk

end

end SyslogNg.PersistState
