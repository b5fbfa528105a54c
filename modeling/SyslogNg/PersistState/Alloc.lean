import SyslogNg.PersistState.Store

/-!
# Allocating values and adding keys

What the calls do, as long as no size has more than 32 bits (`sizeWith`). Whether they succeed is
decided by the room that is left and by the answers of the system (`Plan`).
-/

namespace SyslogNg.PersistState

open Lib
open Option (bind_eq_some_iff)

/-! ## Room -/

def up8 (n : Nat) : Nat := (n + 7) / 8 * 8

def pageUp (env : PersistEnv) (n : Nat) : Nat :=
  if n % 2 ^ env.pageBits ≠ 0 then (n / 2 ^ env.pageBits + 1) * 2 ^ env.pageBits else n

/-- The size of the file with another area of `n` bytes. -/
def sizeWith (env : PersistEnv) (ofs size n : Nat) : Nat :=
  let need := up8 n + valueHeaderSize
  if ofs + need ≤ size then size else pageUp env (size + need)

/-- What there is to allocate from. -/
structure Room where
  ofs : Nat
  size : Nat
  growths : List Growth

/-- An area of `n` bytes is taken; the file grows where it has to, if it can. -/
def Room.take (env : PersistEnv) (r : Room) (n : Nat) : Option Room :=
  let ofs := r.ofs + (up8 n + valueHeaderSize)
  if ofs ≤ r.size then some { r with ofs := ofs }
  else if r.growths.headD .done = .done then
    some ⟨ofs, sizeWith env r.ofs r.size n, r.growths.tail⟩
  else none

def PersistState.room (s : PersistState) : Room := ⟨s.currentOfs, s.currentSize, s.growths⟩

section

variable {env : PersistEnv} {s s' : PersistState} {n handle : Nat}

theorem le_up8 : n ≤ up8 n := by
  unfold up8
  omega

theorem le_pageUp : n ≤ pageUp env n := by
  unfold pageUp
  split
  · have hlt := Nat.lt_div_mul_add (a := n) (Nat.two_pow_pos env.pageBits)
    rw [Nat.succ_mul]
    exact hlt.le
  · exact Nat.le_refl n

theorem roundedSize_eq (hn : n < 2 ^ 32) : roundedSize n = up8 n % 2 ^ 32 := by
  unfold roundedSize up8
  split <;> omega

/-- The file has grown, or not. -/
structure Grown (s s' : PersistState) : Prop where
  rest : s' = { s with
    currentSize := s'.currentSize, mapped := s'.mapped, file := s'.file, growths := s'.growths }
  size : s.currentSize ≤ s'.currentSize
  bytes : ∀ i, 4 ≤ i → s'.file i = s.file i
  start : s'.file = s.file ∨ s'.file.read 0 4 = magic

theorem Grown.refl (s : PersistState) : Grown s s := ⟨rfl, le_rfl, fun _ _ => rfl, .inl rfl⟩

theorem Grown.currentOfs (h : Grown s s') : s'.currentOfs = s.currentOfs := by rw [h.rest]

theorem Grown.counter (h : Grown s s') : s'.mappedCounter = s.mappedCounter := by rw [h.rest]

theorem pageUp_le : pageUp env n ≤ n + 2 ^ env.pageBits := by
  unfold pageUp
  split
  · rw [Nat.succ_mul]
    exact Nat.add_le_add_right (Nat.div_mul_le_self n _) _
  · exact Nat.le_add_right n _

variable {ok : Bool}

theorem growStore_spec {newSize : Nat} (hfit : pageUp env newSize < 2 ^ 32)
    (hgrow : s.currentSize < newSize) (h : persistStateGrowStore env s newSize = some (s', ok)) :
    Grown s s' ∧ s.mappedCounter = 0 ∧ s'.growths = s.growths.tail ∧ s'.currentSize ≤ pageUp env newSize ∧
      (ok = true ↔ s.growths.headD .done = .done) ∧
      (ok = true → s'.currentSize = pageUp env newSize ∧ s'.mapped = true ∧
        s'.file = s.file.write 0 magic) := by
  unfold persistStateGrowStore at h
  split at h
  · cases h
  rename_i hcounter
  have hpage : (if newSize % 2 ^ env.pageBits ≠ 0 then
      (newSize / 2 ^ env.pageBits + 1) * 2 ^ env.pageBits % 2 ^ 32 else newSize) = pageUp env newSize := by
    unfold pageUp at hfit ⊢
    split
    · rename_i hne
      rw [if_pos hne] at hfit
      exact Nat.mod_eq_of_lt hfit
    · rfl
  have hgt : s.currentSize < pageUp env newSize := hgrow.trans_le le_pageUp
  dsimp only at h
  rw [hpage, if_pos hgt] at h
  split at h
  · rename_i hdone
    cases h
    refine ⟨⟨rfl, hgt.le, fun i hi => ?_, .inr ?_⟩, not_not.1 hcounter, rfl, le_rfl, iff_of_true rfl hdone,
      fun _ => ⟨rfl, rfl, rfl⟩⟩
    · show s.file.write 0 magic i = s.file i
      exact ByteStore.write_outside (.inr hi)
    · show (s.file.write 0 magic).read 0 magic.length = magic
      exact ByteStore.read_write_self
  · rename_i hfails
    cases h
    refine ⟨⟨rfl, le_rfl, fun _ _ => rfl, .inl rfl⟩, not_not.1 hcounter, rfl, hgt.le, ?_, fun hok => ?_⟩
    · rw [hfails]
      decide
    · cases hok
  · rename_i hfails
    cases h
    refine ⟨⟨rfl, hgt.le, fun _ _ => rfl, .inl rfl⟩, not_not.1 hcounter, rfl, le_rfl, ?_, fun hok => ?_⟩
    · rw [hfails]
      decide
    · cases hok

/-- An area of `n` bytes was allocated behind the others. -/
structure Allocated (s s' : PersistState) (handle n : Nat) (inUse : Bool) (version : Nat) : Prop where
  grown : ∃ s1, Grown s s1 ∧ s1.mapped = true ∧ s' = { s1 with
    file := s1.file.write s.currentOfs (be32 n ++ [if inUse then 1 else 0, UInt8.ofNat version])
    currentOfs := s.currentOfs + (up8 n + valueHeaderSize) }
  handle : handle = s.currentOfs + valueHeaderSize
  inside : s'.currentOfs ≤ s'.currentSize
  narrow : s'.currentSize < 2 ^ 32

theorem Allocated.counter {version : Nat} {inUse : Bool} (h : Allocated s s' handle n inUse version) :
    s'.mappedCounter = s.mappedCounter := by
  obtain ⟨s1, hg, -, rfl⟩ := h.grown
  exact hg.counter

variable {bytes : List UInt8}

theorem store_eq {ofs : Nat} (hne : bytes ≠ []) (h : s.store ofs bytes = some s') :
    s.mapped = true ∧ ofs + bytes.length ≤ s.currentSize ∧
      s' = { s with file := s.file.write ofs bytes } := by
  unfold PersistState.store at h
  rw [if_neg hne] at h
  split at h
  · rename_i hin
    cases h
    exact ⟨hin.1, hin.2, rfl⟩
  · cases h

theorem store_written {ofs : Nat} (h : s.store ofs bytes = some s') :
    s' = { s with file := s.file.write ofs bytes } := by
  by_cases hnil : bytes = []
  · unfold PersistState.store at h
    rw [if_pos hnil] at h
    cases h
    have hsame : s.file.write ofs [] = s.file := by
      funext i
      unfold ByteStore.write
      split <;> rfl
    rw [hnil, hsame]
  · exact (store_eq hnil h).2.2

theorem growForValue_spec (hofs : s.currentOfs ≤ s.currentSize)
    (hsize : s.currentSize < 2 ^ 32) (hfit : sizeWith env s.currentOfs s.currentSize n < 2 ^ 32)
    (h : growForValue env s (up8 n) = some (s', ok)) :
    Grown s s' ∧ s'.currentSize < 2 ^ 32 ∧ (ok = false → s.room.take env n = none) ∧
      (ok = true → s.room.take env n =
          some ⟨s.currentOfs + (up8 n + valueHeaderSize), s'.currentSize, s'.growths⟩ ∧
        s.currentOfs + (up8 n + valueHeaderSize) ≤ s'.currentSize) := by
  have h8 : valueHeaderSize = 8 := rfl
  have hpage : s.currentSize + (up8 n + valueHeaderSize) ≤
      pageUp env (s.currentSize + (up8 n + valueHeaderSize)) := le_pageUp
  unfold growForValue at h
  unfold Room.take PersistState.room
  unfold sizeWith at hfit ⊢
  dsimp only at hfit ⊢
  by_cases hfull : s.currentOfs + (up8 n + valueHeaderSize) ≤ s.currentSize
  · rw [Nat.mod_eq_of_lt (by omega), if_neg (by omega)] at h
    cases h
    rw [if_pos hfull]
    exact ⟨.refl s, hsize, fun hok => (by cases hok), fun _ => ⟨rfl, hfull⟩⟩
  · rw [if_neg hfull] at hfit
    have hsum : (s.currentSize + valueHeaderSize + up8 n) % 2 ^ 32 =
        s.currentSize + (up8 n + valueHeaderSize) := by
      rw [Nat.mod_eq_of_lt (by omega)]
      omega
    rw [Nat.mod_eq_of_lt (by omega), if_pos (by omega), hsum] at h
    obtain ⟨hg, -, hgrowths, hnarrow, hiff, hok⟩ := growStore_spec hfit (by omega) h
    rw [if_neg hfull, if_neg hfull, hgrowths]
    refine ⟨hg, hnarrow.trans_lt hfit, fun hfalse => ?_, fun htrue => ?_⟩
    · rw [if_neg fun hdone => by rw [hiff.2 hdone] at hfalse; cases hfalse]
    · obtain ⟨hcur, -⟩ := hok htrue
      rw [if_pos (hiff.1 htrue), hcur]
      exact ⟨rfl, by omega⟩

theorem allocValue_spec {inUse : Bool} {version : Nat} (hn : n < 2 ^ 32)
    (hofs : s.currentOfs ≤ s.currentSize) (hsize : s.currentSize < 2 ^ 32)
    (hfit : sizeWith env s.currentOfs s.currentSize n < 2 ^ 32)
    (h : persistStateAllocValue env s n inUse version = some (s', handle)) :
    (handle = 0 ∧ Grown s s' ∧ s'.currentSize < 2 ^ 32 ∧ s.room.take env n = none) ∨
      (Allocated s s' handle n inUse version ∧ s.room.take env n = some s'.room) := by
  have hneed : s.currentOfs + (up8 n + valueHeaderSize) < 2 ^ 32 := by
    have hle : s.currentSize + (up8 n + valueHeaderSize) ≤
      pageUp env (s.currentSize + (up8 n + valueHeaderSize)) := le_pageUp
    unfold sizeWith at hfit
    dsimp only at hfit
    split at hfit <;> omega
  have h8 : valueHeaderSize = 8 := rfl
  have hround : roundedSize n = up8 n := by
    rw [roundedSize_eq hn, Nat.mod_eq_of_lt (by omega)]
  unfold persistStateAllocValue at h
  dsimp only at h
  rw [Nat.mod_eq_of_lt hn, hround] at h
  obtain ⟨⟨s1, ok⟩, hgrow, h⟩ := bind_eq_some_iff.1 h
  obtain ⟨hg, hnarrow, hrefused, hroom⟩ := growForValue_spec hofs hsize hfit hgrow
  cases ok with
  | false =>
    cases h
    exact .inl ⟨rfl, hg, hnarrow, hrefused rfl⟩
  | true =>
    right
    obtain ⟨s2, hstore, h⟩ := bind_eq_some_iff.1 h
    cases h
    have hofs1 := hg.currentOfs
    obtain ⟨hmapped, -, rfl⟩ := store_eq (by simp) hstore
    obtain ⟨htake, hroom⟩ := hroom rfl
    have hend : (s1.currentOfs + up8 n + valueHeaderSize) % 2 ^ 32 =
        s.currentOfs + (up8 n + valueHeaderSize) := by
      rw [hofs1, Nat.mod_eq_of_lt (by omega)]
      omega
    refine ⟨⟨⟨s1, hg, hmapped, ?_⟩, ?_, ?_, hnarrow⟩, ?_⟩
    · simp only [persistStateUnmapEntry, persistStateMapEntry, hofs1, add_sub_cancel_right]
      rw [Nat.mod_eq_of_lt (by omega)]
      rfl
    · show (s1.currentOfs + valueHeaderSize) % 2 ^ 32 = _
      rw [hofs1, Nat.mod_eq_of_lt (by omega)]
    · show (s1.currentOfs + up8 n + valueHeaderSize) % 2 ^ 32 ≤ s1.currentSize
      rw [hend]
      exact hroom
    · rw [htake]
      show _ = some (Room.mk ((s1.currentOfs + up8 n + valueHeaderSize) % 2 ^ 32) s1.currentSize s1.growths)
      rw [hend]

/-! ## Records -/

/-- A key and its handle, as they are in a key block. -/
def record (key : List UInt8) (handle : Nat) : List UInt8 := be32 key.length ++ key ++ be32 handle

theorem length_record (key : List UInt8) (handle : Nat) :
    (record key handle).length = key.length + 8 := by
  simp [record]
  omega

/-- Bytes of the archive's buffer are changed. -/
structure WrittenIn (buff len : Nat) (s s' : PersistState) : Prop where
  rest : s' = { s with file := s'.file }
  outside : ∀ i, i < buff ∨ buff + len ≤ i → s'.file i = s.file i

theorem WrittenIn.refl (buff len : Nat) (s : PersistState) : WrittenIn buff len s s :=
  ⟨rfl, fun _ _ => rfl⟩

theorem WrittenIn.trans {buff len : Nat} {s1 : PersistState} (h : WrittenIn buff len s s1)
    (h' : WrittenIn buff len s1 s') : WrittenIn buff len s s' := by
  refine ⟨?_, fun i hi => (h'.outside i hi).trans (h.outside i hi)⟩
  rw [h'.rest, h.rest]

theorem archiveWriteBytes_spec {sa sa' : SerializeBufferArchive}
    (hpos : sa.pos ≤ sa.len) (h : serializeArchiveWriteBytes s sa bytes = some (s', sa')) :
    WrittenIn sa.buff sa.len s s' ∧ sa'.pos ≤ sa'.len ∧ sa'.buff = sa.buff ∧ sa'.len = sa.len ∧
      (sa'.error = true ↔ sa.error = true ∨ sa.len < sa.pos + bytes.length) ∧
      (sa'.error = false → sa' = { sa with pos := sa.pos + bytes.length } ∧
        s' = { s with file := s.file.write (sa.buff + sa.pos) bytes }) := by
  unfold serializeArchiveWriteBytes at h
  split at h
  · rename_i herr
    cases h
    exact ⟨.refl .., hpos, rfl, rfl, by simp [herr], fun hno => by simp [herr] at hno⟩
  rename_i herr
  split at h
  · rename_i hfull
    cases h
    exact ⟨.refl .., hpos, rfl, rfl, by simp [hfull], fun hno => by cases hno⟩
  rename_i hfits
  obtain ⟨s1, hstore, heq⟩ := Option.map_eq_some_iff.1 h
  rw [Prod.mk.injEq] at heq
  obtain ⟨rfl, rfl⟩ := heq
  have hs1 := store_written hstore
  subst hs1
  refine ⟨⟨rfl, fun i hi => ?_⟩, ?_, rfl, rfl, ?_, fun _ => ⟨rfl, rfl⟩⟩
  · exact ByteStore.write_outside (by omega)
  · show sa.pos + bytes.length ≤ sa.len
    omega
  · simp [herr]
    omega

theorem writeRecord_spec {buff len : Nat} {sa : SerializeBufferArchive} {key : List UInt8}
    (h : serializeWriteRecord s ⟨buff, len, 0, false⟩ key handle = some (s', sa)) :
    WrittenIn buff len s s' ∧ (sa.error = true ↔ len < key.length + 8) ∧
      (sa.error = false → sa.pos = key.length + 8 ∧
        s' = { s with file := s.file.write buff (record key handle) }) := by
  obtain ⟨⟨s1, sa1⟩, h1, h⟩ := bind_eq_some_iff.1 h
  obtain ⟨⟨s2, sa2⟩, h2, h3⟩ := bind_eq_some_iff.1 h
  obtain ⟨hw1, hp1, hb1, hl1, he1, hok1⟩ := archiveWriteBytes_spec (Nat.zero_le _) h1
  obtain ⟨hw2, hp2, hb2, hl2, he2, hok2⟩ := archiveWriteBytes_spec hp1 h2
  obtain ⟨hw3, -, -, -, he3, hok3⟩ := archiveWriteBytes_spec hp2 h3
  rw [hb1, hl1] at hw2
  rw [hb2, hl2, hb1, hl1] at hw3
  refine ⟨(hw1.trans hw2).trans hw3, ?_, fun hno => ?_⟩
  · rw [he3, he2, he1, hl2, hl1]
    simp only [length_be32, Bool.false_eq_true, false_or]
    cases hcase1 : sa1.error with
    | true =>
      have := he1.1 hcase1
      simp at this
      omega
    | false =>
      obtain ⟨rfl, -⟩ := hok1 hcase1
      cases hcase2 : sa2.error with
      | true =>
        have := he2.1 hcase2
        simp at this ⊢
        omega
      | false =>
        obtain ⟨rfl, -⟩ := hok2 hcase2
        simp
        omega
  · have hno2 : sa2.error = false := by
      by_contra hne
      rw [he3.2 (.inl (eq_true_of_ne_false hne))] at hno
      cases hno
    have hno1 : sa1.error = false := by
      by_contra hne
      rw [he2.2 (.inl (eq_true_of_ne_false hne))] at hno2
      cases hno2
    obtain ⟨rfl, rfl⟩ := hok1 hno1
    obtain ⟨rfl, rfl⟩ := hok2 hno2
    obtain ⟨rfl, rfl⟩ := hok3 hno
    refine ⟨by simp; omega, ?_⟩
    have hkey := ByteStore.write_append s.file buff (be32 key.length) key
    have hhandle := ByteStore.write_append s.file buff (be32 key.length ++ key) (be32 handle)
    rw [length_be32] at hkey
    rw [List.length_append, length_be32] at hhandle
    have hfile : ((s.file.write buff (be32 key.length)).write (buff + 4) key).write
        (buff + (4 + key.length)) (be32 handle) = s.file.write buff (record key handle) := by
      rw [hkey, hhandle]
      rfl
    rw [← hfile]
    rfl

/-! ## Keys -/

/-- The key fits into the current block, in front of the link to the next one. -/
def KeyRoom (s : PersistState) (key : List UInt8) : Prop :=
  s.currentKeyOfs + (key.length + 8) + chainSize ≤ s.currentKeySize

instance (s : PersistState) (key : List UInt8) : Decidable (KeyRoom s key) :=
  inferInstanceAs (Decidable (_ ≤ _))

/-- The end of the current block is kept for the link. -/
structure TailKept (s : PersistState) : Prop where
  tail : s.currentKeyOfs + chainSize ≤ s.currentKeySize
  narrow : s.currentKeySize < 2 ^ 32

def recorded (s : PersistState) (key : List UInt8) (handle : Nat) : PersistState :=
  let file := s.file.write (s.currentKeyBlock + s.currentKeyOfs) (record key handle)
  { s with
    file := file.write keyCountOfs (be32 (file.word keyCountOfs + 1))
    currentKeyOfs := s.currentKeyOfs + (key.length + 8) }

theorem keyArchive_eq (ht : TailKept s) {reserved : Nat} (hr : reserved ≤ chainSize) :
    keyArchive s reserved = ⟨s.currentKeyBlock + s.currentKeyOfs,
      s.currentKeySize - s.currentKeyOfs - reserved, 0, false⟩ := by
  obtain ⟨htail, hnarrow⟩ := ht
  unfold keyArchive
  congr 1
  omega

theorem addKeyRound_spec {key : List UInt8} (ht : TailKept s)
    (h : addKeyRound s key handle = some (s', ok)) :
    (ok = true ∧ KeyRoom s key ∧ s' = recorded s key handle) ∨
    (ok = false ∧ ¬ KeyRoom s key ∧ ∃ s1, s' = persistStateMapEntry s1 ∧
      WrittenIn (s.currentKeyBlock + s.currentKeyOfs)
        (s.currentKeySize - s.currentKeyOfs - chainSize) s s1) := by
  have htail := ht.tail
  obtain ⟨⟨s1, sa⟩, hwrite, h⟩ := bind_eq_some_iff.1 h
  have harchive : keyArchive (persistStateMapEntry s) chainSize = keyArchive s chainSize := rfl
  rw [harchive, keyArchive_eq ht le_rfl] at hwrite
  obtain ⟨hw, herr, hok⟩ := writeRecord_spec hwrite
  dsimp only at h
  split at h
  · rename_i hsa
    cases h
    have hlong := herr.1 hsa
    refine .inr ⟨rfl, fun hroom => ?_, { s' with mappedCounter := s.mappedCounter }, ?_, ?_, hw.outside⟩
    · unfold KeyRoom at hroom
      omega
    · rw [hw.rest]
      rfl
    · rw [hw.rest]
      rfl
  · rename_i hsa
    obtain ⟨hpos, hs1⟩ := hok (eq_false_of_ne_true hsa)
    obtain ⟨count, hfetch, h⟩ := bind_eq_some_iff.1 h
    obtain ⟨s2, hstore, h⟩ := bind_eq_some_iff.1 h
    cases h
    have hshort : ¬ _ := fun hlt => hsa (herr.2 hlt)
    have hcount : count = s1.file.read keyCountOfs 4 := by
      unfold PersistState.fetch at hfetch
      split at hfetch
      · cases hfetch
        rfl
      · cases hfetch
    have hs2 := store_written hstore
    refine .inl ⟨rfl, ?_, ?_⟩
    · unfold KeyRoom
      omega
    · subst hs2 hcount hs1
      simp only [persistStateUnmapEntry, persistStateMapEntry, add_sub_cancel_right, hpos]
      rfl

def chained (s : PersistState) (newBlock : Nat) : PersistState :=
  { s with
    file := s.file.write (s.currentKeyBlock + s.currentKeyOfs) (record [] newBlock)
    currentKeyBlock := newBlock
    currentKeySize := persistStateKeyBlockSize
    currentKeyOfs := 0 }

theorem chainKeyBlock_spec {newBlock : Nat} (ht : TailKept s)
    (h : chainKeyBlock s newBlock = some s') : s' = chained s newBlock := by
  have htail := ht.tail
  have h8 : chainSize = 8 := rfl
  obtain ⟨⟨s1, sa⟩, hwrite, h⟩ := bind_eq_some_iff.1 h
  have harchive : keyArchive (persistStateMapEntry s) 0 = keyArchive s 0 := rfl
  rw [harchive, keyArchive_eq ht (Nat.zero_le _)] at hwrite
  obtain ⟨-, herr, hok⟩ := writeRecord_spec hwrite
  dsimp only at h
  split at h
  · cases h
  · rename_i hsa
    cases h
    obtain ⟨-, rfl⟩ := hok (eq_false_of_ne_true hsa)
    simp only [persistStateUnmapEntry, persistStateMapEntry, add_sub_cancel_right]
    rfl

def withKey (s : PersistState) (key : List UInt8) (handle : Nat) : PersistState :=
  { s with keys := Function.update s.keys key (some handle) }

/-- What `persist_state_add_key` does. A key that does not fit leaves a part of it in the block. -/
inductive KeyAdded (s : PersistState) (key : List UInt8) (handle : Nat) : PersistState → Bool → Prop where
  | here : KeyRoom s key → KeyAdded s key handle (recorded (withKey s key handle) key handle) true
  | refused {s1 s2 : PersistState} : ¬ KeyRoom s key →
      WrittenIn (s.currentKeyBlock + s.currentKeyOfs) (s.currentKeySize - s.currentKeyOfs - chainSize)
        (withKey s key handle) s1 →
      Grown s1 s2 → s2.currentSize < 2 ^ 32 → KeyAdded s key handle s2 false
  | chained {s1 s2 : PersistState} {newBlock : Nat} : ¬ KeyRoom s key →
      WrittenIn (s.currentKeyBlock + s.currentKeyOfs) (s.currentKeySize - s.currentKeyOfs - chainSize)
        (withKey s key handle) s1 →
      Allocated s1 s2 newBlock persistStateKeyBlockSize true 0 →
      key.length + 8 + chainSize ≤ persistStateKeyBlockSize →
      KeyAdded s key handle (recorded (chained s2 newBlock) key handle) true
  | tooLong {s1 s2 s3 : PersistState} {newBlock : Nat} : ¬ KeyRoom s key →
      WrittenIn (s.currentKeyBlock + s.currentKeyOfs) (s.currentKeySize - s.currentKeyOfs - chainSize)
        (withKey s key handle) s1 →
      Allocated s1 s2 newBlock persistStateKeyBlockSize true 0 →
      persistStateKeyBlockSize < key.length + 8 + chainSize →
      WrittenIn newBlock (persistStateKeyBlockSize - chainSize) (chained s2 newBlock) s3 →
      KeyAdded s key handle s3 false

/-- What is left for entries: the room behind the areas, and the current key block. -/
structure Plan where
  room : Room
  keyOfs : Nat
  keySize : Nat

/-- The key goes to the current block, or to a new one. -/
def Plan.key (env : PersistEnv) (p : Plan) (key : List UInt8) : Option Plan :=
  if p.keyOfs + (key.length + 8) + chainSize ≤ p.keySize then
    some { p with keyOfs := p.keyOfs + (key.length + 8) }
  else if key.length + 8 + chainSize ≤ persistStateKeyBlockSize then
    (p.room.take env persistStateKeyBlockSize).map fun room =>
      ⟨room, key.length + 8, persistStateKeyBlockSize⟩
  else none

/-- A value and its key. -/
def Plan.entry (env : PersistEnv) (p : Plan) (key : List UInt8) (n : Nat) : Option Plan :=
  (p.room.take env n).bind fun room => Plan.key env { p with room := room } key

def PersistState.plan (s : PersistState) : Plan := ⟨s.room, s.currentKeyOfs, s.currentKeySize⟩

theorem WrittenIn.counter {buff len : Nat} (h : WrittenIn buff len s s') :
    s'.mappedCounter = s.mappedCounter := by rw [h.rest]

theorem KeyAdded.counter {key : List UInt8} {ok : Bool} (h : KeyAdded s key handle s' ok) :
    s'.mappedCounter = s.mappedCounter := by
  cases h with
  | here => rfl
  | refused _ hw hg => exact hg.counter.trans hw.counter
  | chained _ hw hnew => exact hnew.counter.trans hw.counter
  | tooLong _ hw hnew _ hw2 => exact hw2.counter.trans (hnew.counter.trans hw.counter)

theorem WrittenIn.room {buff len : Nat} (h : WrittenIn buff len s s') : s'.room = s.room := by
  rw [h.rest]
  rfl

theorem addKey_spec {key : List UInt8} (ht : TailKept s)
    (hofs : s.currentOfs ≤ s.currentSize) (hsize : s.currentSize < 2 ^ 32)
    (hfit : ¬ KeyRoom s key → sizeWith env s.currentOfs s.currentSize persistStateKeyBlockSize < 2 ^ 32)
    (h : persistStateAddKey env s key handle = some (s', ok)) :
    key ≠ [] ∧ KeyAdded s key handle s' ok ∧
      s.plan.key env key = if ok then some s'.plan else none := by
  unfold persistStateAddKey at h
  split at h
  · cases h
  rename_i hkey
  refine ⟨hkey, ?_⟩
  obtain ⟨⟨s1, ok1⟩, hround, h⟩ := bind_eq_some_iff.1 h
  have ht1 : TailKept (withKey s key handle) := ⟨ht.tail, ht.narrow⟩
  rcases addKeyRound_spec ht1 hround with ⟨rfl, hroom, rfl⟩ | ⟨rfl, hroom, s2, rfl, hw⟩
  · cases h
    refine ⟨.here hroom, ?_⟩
    unfold Plan.key
    rw [if_pos (show s.plan.keyOfs + _ + chainSize ≤ s.plan.keySize from hroom)]
    rfl
  · dsimp only at h
    rw [if_neg Bool.false_ne_true] at h
    obtain ⟨⟨s3, newBlock⟩, halloc, h⟩ := bind_eq_some_iff.1 h
    have hsame : persistStateUnmapEntry (persistStateMapEntry s2) = s2 := by
      simp [persistStateUnmapEntry, persistStateMapEntry]
    rw [hsame] at halloc
    have hroom2 : s2.room = s.room := hw.room
    have hofs2 : s2.currentOfs = s.currentOfs := congrArg Room.ofs hroom2
    have hsize2 : s2.currentSize = s.currentSize := congrArg Room.size hroom2
    have hfit2 : sizeWith env s2.currentOfs s2.currentSize persistStateKeyBlockSize < 2 ^ 32 := by
      rw [hofs2, hsize2]
      exact hfit hroom
    have hnone : ¬ s.plan.keyOfs + (key.length + 8) + chainSize ≤ s.plan.keySize := hroom
    unfold Plan.key
    rw [if_neg hnone]
    rcases allocValue_spec (by decide) (by rwa [hofs2, hsize2]) (by rwa [hsize2]) hfit2 halloc with
      ⟨rfl, hg, hnarrow, htake⟩ | ⟨hnew, htake⟩
    · cases h
      rw [hroom2] at htake
      refine ⟨.refused hroom hw hg hnarrow, ?_⟩
      rw [show s.plan.room = s.room from rfl, htake]
      split <;> rfl
    · have hne : newBlock ≠ 0 := by
        rw [hnew.handle]
        unfold valueHeaderSize
        omega
      dsimp only at h
      rw [if_neg hne] at h
      obtain ⟨s4, hchain, h⟩ := bind_eq_some_iff.1 h
      have ht3 : TailKept s3 := by
        obtain ⟨s5, hg, -, rfl⟩ := hnew.grown
        refine ⟨?_, ?_⟩
        · show s5.currentKeyOfs + chainSize ≤ s5.currentKeySize
          rw [hg.rest, hw.rest]
          exact ht.tail
        · show s5.currentKeySize < 2 ^ 32
          rw [hg.rest, hw.rest]
          exact ht.narrow
      obtain rfl := chainKeyBlock_spec ht3 hchain
      obtain ⟨⟨s6, ok2⟩, hround2, h⟩ := bind_eq_some_iff.1 h
      have ht4 : TailKept (chained s3 newBlock) :=
        ⟨(by decide : 0 + chainSize ≤ persistStateKeyBlockSize),
          (by decide : persistStateKeyBlockSize < 2 ^ 32)⟩
      have hempty : KeyRoom (chained s3 newBlock) key ↔
          key.length + 8 + chainSize ≤ persistStateKeyBlockSize := by
        unfold KeyRoom chained
        dsimp only
        omega
      rw [hroom2] at htake
      rcases addKeyRound_spec ht4 hround2 with ⟨rfl, hfits, rfl⟩ | ⟨rfl, hfits, s7, rfl, hw2⟩
      · cases h
        refine ⟨.chained hroom hw hnew (hempty.1 hfits), ?_⟩
        rw [if_pos (hempty.1 hfits), show s.plan.room = s.room from rfl, htake]
        simp only [Option.map_some, if_true, Option.some.injEq]
        unfold PersistState.plan recorded chained
        simp [PersistState.room]
      · cases h
        have hsame2 : persistStateUnmapEntry (persistStateMapEntry s7) = s7 := by
          simp [persistStateUnmapEntry, persistStateMapEntry]
        rw [hsame2]
        refine ⟨.tooLong hroom hw hnew (by rw [hempty] at hfits; omega) hw2, ?_⟩
        rw [if_neg fun hle => hfits (hempty.2 hle)]
        rfl

end

end SyslogNg.PersistState
