import SyslogNg.Lib.ByteStore

/-!
# The persistent state (`lib/persist-state.c`)

The mapped file with its key blocks and values, and the table of the keys. A handle is an offset in
the file; keys are C strings without their `NUL`. An operation gives `none` where the code touches
bytes that are not mapped, aborts in an assertion, or waits for an entry that stays mapped.
-/

namespace SyslogNg.PersistState

open Lib

/-- The page has `2 ^ pageBits` bytes. -/
structure PersistEnv where
  pageBits : Nat
  pageBits_le : pageBits ≤ 30

/-- What the system answers when the file is to grow: `lseek` or `write` fails, or `mmap`. -/
inductive Growth where
  | done
  | writeFails
  | mapFails
  deriving DecidableEq

structure PersistState where
  version : Nat
  mappedCounter : Int
  currentSize : Nat
  currentOfs : Nat
  /-- The bytes of the file; behind its end they are zero. -/
  file : ByteStore
  /-- `current_map` is not `NULL`. -/
  mapped : Bool
  keys : List UInt8 → Option Nat
  currentKeyBlock : Nat
  currentKeyOfs : Nat
  currentKeySize : Nat
  /-- The answers of the system to come; all is well when there are no more. -/
  growths : List Growth

def headerSize : Nat := 4096
def initialKeyStore : Nat := 64
def initialKeySize : Nat := 4032
def valueHeaderSize : Nat := 8
def persistFileInitialSize : Nat := 16384
def persistStateKeyBlockSize : Nat := 4096

/-- `SLP4`. -/
def magic : List UInt8 := [83, 76, 80, 52]

def persistStateNew (growths : List Growth) : PersistState where
  version := 4
  mappedCounter := 0
  currentSize := 0
  currentOfs := headerSize
  file := fun _ => 0
  mapped := false
  keys := fun _ => none
  currentKeyBlock := 0
  currentKeyOfs := 0
  currentKeySize := 0
  growths := growths

/-! ## The mapped file -/

def PersistState.store (self : PersistState) (ofs : Nat) (bytes : List UInt8) : Option PersistState :=
  if bytes = [] then some self
  else if self.mapped ∧ ofs + bytes.length ≤ self.currentSize then
    some { self with file := self.file.write ofs bytes }
  else none

def PersistState.fetch (self : PersistState) (ofs n : Nat) : Option (List UInt8) :=
  if n = 0 ∨ self.mapped ∧ ofs + n ≤ self.currentSize then some (self.file.read ofs n) else none

def persistStateMapEntry (self : PersistState) : PersistState :=
  { self with mappedCounter := self.mappedCounter + 1 }

def persistStateUnmapEntry (self : PersistState) : PersistState :=
  { self with mappedCounter := self.mappedCounter - 1 }

/-- `persist_state_grow_store`. A size that is rounded up to `2 ^ 32` is 0. -/
def persistStateGrowStore (env : PersistEnv) (self : PersistState) (newSize : Nat) :
    Option (PersistState × Bool) :=
  if self.mappedCounter ≠ 0 then none
  else
    let pgsize := 2 ^ env.pageBits
    let newSize := if newSize % pgsize ≠ 0 then (newSize / pgsize + 1) * pgsize % 2 ^ 32 else newSize
    if newSize > self.currentSize then
      let growths := self.growths.tail
      match self.growths.headD .done with
      | .done => some ({ self with
          currentSize := newSize, mapped := true, file := self.file.write 0 magic,
          growths := growths }, true)
      | .writeFails => some ({ self with growths := growths }, false)
      | .mapFails =>
        some ({ self with currentSize := newSize, mapped := false, growths := growths }, false)
    else some (self, true)

def persistStateCreateStore (env : PersistEnv) (self : PersistState) : Option (PersistState × Bool) :=
  persistStateGrowStore env { self with
    currentKeyBlock := initialKeyStore, currentKeyOfs := 0, currentKeySize := initialKeySize }
    persistFileInitialSize

/-! ## Values -/

/-- The handle less the size of a header, as a handle. -/
def headerOf (handle : Nat) : Nat := (handle + (2 ^ 32 - valueHeaderSize)) % 2 ^ 32

def inUseOfs : Nat := 4

/-- The size, rounded up to 8 bytes. -/
def roundedSize (size : Nat) : Nat :=
  if size % 8 ≠ 0 then (size / 8 + 1) * 8 % 2 ^ 32 else size

/-- The file grows if it has no room for a value of the size. The sum of the offset and the size has
32 bits, and so has the new size of the file. -/
def growForValue (env : PersistEnv) (self : PersistState) (size : Nat) : Option (PersistState × Bool) :=
  if (self.currentOfs + size) % 2 ^ 32 + valueHeaderSize > self.currentSize then
    persistStateGrowStore env self ((self.currentSize + valueHeaderSize + size) % 2 ^ 32)
  else some (self, true)

/-- `persist_state_alloc_value`, with 0 if it fails. -/
def persistStateAllocValue (env : PersistEnv) (self : PersistState) (origSize : Nat) (inUse : Bool)
    (version : Nat) : Option (PersistState × Nat) := do
  let origSize := origSize % 2 ^ 32
  let size := roundedSize origSize
  let (self, ok) ← growForValue env self size
  if ok then
    let header := be32 origSize ++ [if inUse then 1 else 0, UInt8.ofNat version]
    let self ← (persistStateMapEntry self).store self.currentOfs header
    let self := persistStateUnmapEntry self
    return ({ self with currentOfs := (self.currentOfs + size + valueHeaderSize) % 2 ^ 32 },
      (self.currentOfs + valueHeaderSize) % 2 ^ 32)
  else return (self, 0)

def persistStateFreeValue (self : PersistState) (handle : Nat) : Option PersistState :=
  if handle = 0 then some self
  else if handle < self.currentSize then some self
  else do
    let self := persistStateMapEntry self
    let size ← self.fetch (headerOf handle) 4
    if (ofBe32 size + handle) % 2 ^ 32 > self.currentSize then some self
    else (self.store (headerOf handle + inUseOfs) [0]).map persistStateUnmapEntry

/-! ## Archives in the map (`lib/serialize.c`) -/

structure SerializeBufferArchive where
  buff : Nat
  len : Nat
  pos : Nat
  error : Bool

/-- `serialize_archive_write_bytes`: behind an error nothing is written. -/
def serializeArchiveWriteBytes (self : PersistState) (sa : SerializeBufferArchive)
    (bytes : List UInt8) : Option (PersistState × SerializeBufferArchive) :=
  if sa.error then some (self, sa)
  else if sa.pos + bytes.length > sa.len then some (self, { sa with error := true })
  else (self.store (sa.buff + sa.pos) bytes).map fun self =>
    (self, { sa with pos := sa.pos + bytes.length })

/-- `serialize_write_cstring` and then `serialize_write_uint32`; of no bytes there is nothing to
write. -/
def serializeWriteRecord (self : PersistState) (sa : SerializeBufferArchive) (key : List UInt8)
    (handle : Nat) : Option (PersistState × SerializeBufferArchive) := do
  let (self, sa) ← serializeArchiveWriteBytes self sa (be32 key.length)
  let (self, sa) ← serializeArchiveWriteBytes self sa key
  serializeArchiveWriteBytes self sa (be32 handle)

/-! ## Keys -/

def persistStateLookupKey (self : PersistState) (key : List UInt8) : Option Nat := self.keys key

/-- `persist_state_rename_entry`: the file is left as it is. -/
def persistStateRenameEntry (self : PersistState) (oldKey newKey : List UInt8) : PersistState :=
  match self.keys oldKey with
  | some handle =>
    { self with keys := Function.update (Function.update self.keys oldKey none) newKey (some handle) }
  | none => self

def keyCountOfs : Nat := 8
def chainSize : Nat := 8

/-- The archive over the rest of the current key block; the difference is one of 32 bits. -/
def keyArchive (self : PersistState) (reserved : Nat) : SerializeBufferArchive where
  buff := self.currentKeyBlock + self.currentKeyOfs
  len := (((self.currentKeySize : Int) - self.currentKeyOfs - reserved) % 2 ^ 32).toNat
  pos := 0
  error := false

/-- One round of the loop of `persist_state_add_key`: the key block stays mapped if the key does not
fit into it. -/
def addKeyRound (self : PersistState) (key : List UInt8) (handle : Nat) :
    Option (PersistState × Bool) := do
  let self := persistStateMapEntry self
  let (self, sa) ← serializeWriteRecord self (keyArchive self chainSize) key handle
  if sa.error then return (self, false)
  else
    let count ← self.fetch keyCountOfs 4
    let self ← self.store keyCountOfs (be32 (ofBe32 count + 1))
    return (persistStateUnmapEntry { self with currentKeyOfs := self.currentKeyOfs + sa.pos }, true)

/-- The tail of the current key block is linked to the new one. -/
def chainKeyBlock (self : PersistState) (newBlock : Nat) : Option PersistState := do
  let self := persistStateMapEntry self
  let (self, sa) ← serializeWriteRecord self (keyArchive self 0) [] newBlock
  if sa.error then none
  else
    return persistStateUnmapEntry { self with
      currentKeyBlock := newBlock, currentKeySize := persistStateKeyBlockSize, currentKeyOfs := 0 }

/-- `persist_state_add_key`, with the two rounds that its loop can have. -/
def persistStateAddKey (env : PersistEnv) (self : PersistState) (key : List UInt8) (handle : Nat) :
    Option (PersistState × Bool) :=
  if key = [] then none
  else do
    let self := { self with keys := Function.update self.keys key (some handle) }
    let (self, success) ← addKeyRound self key handle
    if success then return (self, true)
    else
      let (self, newBlock) ←
        persistStateAllocValue env (persistStateUnmapEntry self) persistStateKeyBlockSize true 0
      if newBlock = 0 then return (self, false)
      else
        let self ← chainKeyBlock self newBlock
        let (self, success) ← addKeyRound self key handle
        if success then return (self, true) else return (persistStateUnmapEntry self, false)

/-! ## Entries -/

/-- The old entry of a name is left out of the next rebuild. -/
def dropOldEntry (self : PersistState) (persistName : List UInt8) : Option PersistState :=
  match persistStateLookupKey self persistName with
  | some handle =>
    ((persistStateMapEntry self).store (headerOf handle + inUseOfs) [0]).map persistStateUnmapEntry
  | none => some self

/-- `persist_state_alloc_entry`, with 0 if it fails. -/
def persistStateAllocEntry (env : PersistEnv) (self : PersistState) (persistName : List UInt8)
    (allocSize : Nat) : Option (PersistState × Nat) := do
  let self ← dropOldEntry self persistName
  let (self, handle) ← persistStateAllocValue env self allocSize true self.version
  if handle = 0 then return (self, 0)
  else
    let (self, success) ← persistStateAddKey env self persistName handle
    if success then return (self, handle)
    else
      let self ← persistStateFreeValue self handle
      return (self, 0)

/-- What `persist_state_lookup_entry` returns. -/
structure PersistEntry where
  handle : Nat
  size : Nat
  version : UInt8
  deriving DecidableEq

def persistStateLookupEntry (self : PersistState) (key : List UInt8) :
    Option (PersistState × Option PersistEntry) :=
  match persistStateLookupKey self key with
  | none => some (self, none)
  | some handle =>
    if handle > self.currentSize then some (self, none)
    else do
      let self := persistStateMapEntry self
      let header ← self.fetch (headerOf handle) 6
      let size := ofBe32 (header.take 4)
      -- the entry stays mapped
      if (size + handle) % 2 ^ 32 > self.currentSize then return (self, none)
      else
        let self ← self.store (headerOf handle + inUseOfs) [1]
        return (persistStateUnmapEntry self, some ⟨handle, size, header.getD 5 0⟩)

end SyslogNg.PersistState
