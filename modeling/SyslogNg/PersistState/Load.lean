import SyslogNg.PersistState.Store

/-!
# Loading a persistent state

The values of the committed file are copied into a new store. The loop over the key blocks of a file
takes the number of its rounds; memory for a name that is read is always there.
-/

namespace SyslogNg.PersistState

open Lib

structure PersistFile where
  size : Nat
  bytes : ByteStore

def PersistFile.fetch (file : PersistFile) (ofs n : Nat) : Option (List UInt8) :=
  if n = 0 ∨ ofs + n ≤ file.size then some (file.bytes.read ofs n) else none

/-- `persist_state_commit`: the file under its final name. -/
def persistStateCommit (self : PersistState) : PersistFile := ⟨self.currentSize, self.file⟩

/-! ## Archives that are read (`lib/serialize.c`) -/

section

variable (fetch : Nat → Nat → Option (List UInt8))

/-- `serialize_archive_read_bytes`, without the bytes where it fails. -/
def serializeArchiveReadBytes (sa : SerializeBufferArchive) (buflen : Nat) :
    Option (SerializeBufferArchive × Option (List UInt8)) :=
  if sa.error then some (sa, none)
  else if sa.pos + buflen > sa.len then some ({ sa with error := true }, none)
  else (fetch (sa.buff + sa.pos) buflen).map fun bytes =>
    ({ sa with pos := sa.pos + buflen }, some bytes)

def serializeReadUint32 (sa : SerializeBufferArchive) :
    Option (SerializeBufferArchive × Option Nat) :=
  (serializeArchiveReadBytes fetch sa 4).map fun (sa, bytes) => (sa, bytes.map ofBe32)

/-- `serialize_read_cstring`. One more than the largest length is 0, and nothing is allocated. -/
def serializeReadCstring (sa : SerializeBufferArchive) :
    Option (SerializeBufferArchive × Option (List UInt8)) := do
  let (sa, len) ← serializeReadUint32 fetch sa
  match len with
  | none => return (sa, none)
  | some len => if len = 2 ^ 32 - 1 then return (sa, none) else serializeArchiveReadBytes fetch sa len

end

/-- The C string in a buffer with a `NUL` behind it. -/
def cString (bytes : List UInt8) : List UInt8 := bytes.takeWhile (· ≠ 0)

/-! ## Loading -/

/-- Bytes outside the committed file are read, the new store is left as in `Store`, or the rounds are
used up. -/
inductive LoadFault where
  | outside
  | store
  | rounds
  deriving DecidableEq

def orFault {A : Type} (fault : LoadFault) : Option A → Except LoadFault A
  | some a => .ok a
  | none => .error fault

/-- A value is allocated and filled, and its key is added. -/
def loadValue (env : PersistEnv) (self : PersistState) (key : List UInt8) (size version : Nat)
    (bytes : Option (List UInt8)) : Except LoadFault PersistState := do
  let (self, newHandle) ← orFault .store (persistStateAllocValue env self size false version)
  let bytes ← orFault .outside bytes
  let self ← orFault .store ((persistStateMapEntry self).store newHandle bytes)
  let (self, _) ← orFault .store (persistStateAddKey env (persistStateUnmapEntry self) key newHandle)
  return self

/-- The value behind the header is loaded if it is in use. -/
def loadEntry (env : PersistEnv) (file : PersistFile) (self : PersistState) (name : List UInt8)
    (entryOfs : Nat) (header : List UInt8) : Except LoadFault PersistState :=
  let size := ofBe32 (header.take 4)
  if header.getD 4 0 ≠ 0 then
    loadValue env self name size (header.getD 5 0).toNat (file.fetch entryOfs size)
  else return self

/-- The loop of `persist_state_load_v23`. -/
def loadV23Loop (env : PersistEnv) (file : PersistFile) (version : Nat) :
    (rounds : Nat) → PersistState → SerializeBufferArchive → Except LoadFault PersistState
  | 0, _, _ => throw .rounds
  | rounds + 1, self, sa => do
    let (sa, key) ← orFault .outside (serializeReadCstring file.fetch sa)
    match key.map cString with
    | none | some [] => return self
    | some key =>
      let (sa, value) ← orFault .outside (serializeReadCstring file.fetch sa)
      match value with
      | none => return self
      | some value =>
        let self ← loadValue env self key (value.length + 4) version
          (some (be32 value.length ++ value))
        loadV23Loop env file version rounds self sa

/-- The loops of `persist_state_load_v4` over the key blocks and their keys. -/
def loadV4Loop (env : PersistEnv) (file : PersistFile) (keyCount : Nat) :
    (rounds : Nat) → PersistState → SerializeBufferArchive → (i : Nat) →
      Except LoadFault PersistState
  | 0, _, _, _ => throw .rounds
  | rounds + 1, self, sa, i =>
    if keyCount ≤ i then return self
    else do
      let (sa, name) ← orFault .outside (serializeReadCstring file.fetch sa)
      match name.map cString with
      | none => return self
      | some [] =>
        let (_, chainOfs) ← orFault .outside (serializeReadUint32 file.fetch sa)
        match chainOfs with
        | none => return self
        | some chainOfs =>
          if chainOfs = 0 ∨ chainOfs > file.size then return self
          -- the size is in front of the block, and may be in front of the map
          else if chainOfs < valueHeaderSize then throw .outside
          else
            let keySize ← orFault .outside (file.fetch (chainOfs - valueHeaderSize) 4)
            if (chainOfs + ofBe32 keySize) % 2 ^ 32 > file.size then return self
            else loadV4Loop env file keyCount rounds self ⟨chainOfs, ofBe32 keySize, 0, false⟩ i
      | some name =>
        let (sa, entryOfs) ← orFault .outside (serializeReadUint32 file.fetch sa)
        match entryOfs with
        | none => return self
        | some entryOfs =>
          if entryOfs < headerSize ∨ entryOfs > file.size then return self
          else
            let header ← orFault .outside (file.fetch (entryOfs - valueHeaderSize) 6)
            let self ← loadEntry env file self name entryOfs header
            loadV4Loop env file keyCount rounds self sa (i + 1)

def persistStateLoadV23 (env : PersistEnv) (file : PersistFile) (version : Nat) (rounds : Nat)
    (self : PersistState) : Except LoadFault (PersistState × Bool) := do
  let self ← loadV23Loop env file version rounds self ⟨0, file.size, 4, false⟩
  return (self, true)

/-- `persist_state_load_v4`; the number of keys is an `int`. -/
def persistStateLoadV4 (env : PersistEnv) (file : PersistFile) (rounds : Nat) (self : PersistState) :
    Except LoadFault (PersistState × Bool) :=
  if file.size > 2 ^ 31 - 1 then return (self, false)
  else do
    let count ← orFault .outside (file.fetch keyCountOfs 4)
    let keyCount := if ofBe32 count < 2 ^ 31 then ofBe32 count else 0
    let self ← loadV4Loop env file keyCount rounds self ⟨initialKeyStore, initialKeySize, 0, false⟩ 0
    return (self, true)

/-- `persist_state_load`, from the committed file if there is one. Of a file that has less than four
bytes not all of `magic` is set. -/
def persistStateLoad (env : PersistEnv) (committed : Option PersistFile) (rounds : Nat)
    (self : PersistState) : Except LoadFault (PersistState × Bool) :=
  match committed with
  | none => return (self, true)
  | some file => do
    let magic ← orFault .outside (file.fetch 0 4)
    if magic.take 3 ≠ [83, 76, 80] then return (self, true)
    else if magic.getD 3 0 = 50 then persistStateLoadV23 env file 2 rounds self
    else if magic.getD 3 0 = 51 then persistStateLoadV23 env file 3 rounds self
    else if magic.getD 3 0 = 52 then persistStateLoadV4 env file rounds self
    else return (self, true)

def persistStateStart (env : PersistEnv) (committed : Option PersistFile) (rounds : Nat)
    (self : PersistState) : Except LoadFault (PersistState × Bool) := do
  let (self, created) ← orFault .store (persistStateCreateStore env self)
  if created then persistStateLoad env committed rounds self else return (self, false)

/-! ## Strings -/

/-- `persist_state_lookup_string`, with the string and its version. -/
def persistStateLookupString (self : PersistState) (key : List UInt8) :
    Option (PersistState × Option (List UInt8 × UInt8)) := do
  let (self, entry) ← persistStateLookupEntry self key
  match entry with
  | none => return (self, none)
  | some entry =>
    let self := persistStateMapEntry self
    let (_, result) ← serializeReadCstring self.fetch ⟨entry.handle, entry.size, 0, false⟩
    return (persistStateUnmapEntry self, result.map fun value => (value, entry.version))

/-- `persist_state_alloc_string`: where no entry is allocated the string is written to the beginning
of the file. -/
def persistStateAllocString (env : PersistEnv) (self : PersistState) (persistName value : List UInt8) :
    Option PersistState := do
  let buf := be32 value.length ++ value
  let (self, handle) ← persistStateAllocEntry env self persistName buf.length
  ((persistStateMapEntry self).store handle buf).map persistStateUnmapEntry

end SyslogNg.PersistState
