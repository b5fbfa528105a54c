import SyslogNg.Lib.Buffer
import SyslogNg.Lib.SortedTable
import Mathlib.Logic.Function.Basic

/-!
# The name-value table (`lib/nvtable.c`, `lib/nvtable.h`)

The memory of a table is cut as its own comment cuts it: the header, the offsets of the static
values, the (handle, offset) pairs of the dynamic ones, and the entries, which are named by their
offset from the top. A block of the entry area keeps its `alloc_len`, and a write that would leave
its block gives `none`, as does a step through a `NULL` pointer. A copy of the table keeps the
offsets from the top, so its entries are those of the original.

`memcpy` between overlapping areas is taken as `memmove`. A handle is an `NVHandle`, a `guint32`;
the name of a value comes with its handle, from the registry.
-/

namespace SyslogNg.NameValue

open Lib

structure NVDynValue where
  handle : Nat
  ofs : Nat
  deriving DecidableEq

/-- The union of an entry; `indirect` says which part of it is in use. -/
inductive NVPayload where
  | vdirect (name value : List UInt8)
  | vindirect (handle : Nat) (ofs len type : Nat) (name : List UInt8)
  deriving DecidableEq

structure NVEntry where
  referenced : Bool
  allocLen : Nat
  payload : NVPayload
  deriving DecidableEq

structure NVTable where
  size : Nat
  used : Nat
  refCnt : Nat
  borrowed : Bool
  staticEntries : List Nat
  dynEntries : List NVDynValue
  entries : Nat → Option NVEntry

def nvEntryDirectHdr : Nat := 12

def nvEntryIndirectHdr : Nat := 24

/-- The offset of `vindirect.name`; `sizeof(NVEntry)` has padding behind it. -/
def nvEntryIndirectName : Nat := 21

def nvTableMaxBytes : Nat := 256 * 1024 * 1024

def nvTableBound (x : Nat) : Nat := (x + 3) / 4 * 4

/-- The bytes of its block that a payload takes up, with the header. -/
def NVPayload.bytes : NVPayload → Nat
  | .vdirect name value => nvEntryDirectHdr + name.length + 1 + value.length + 1
  | .vindirect _ _ _ _ name => nvEntryIndirectName + name.length + 1

def NVPayload.name : NVPayload → List UInt8
  | .vdirect name _ => name
  | .vindirect _ _ _ _ name => name

def NVEntry.indirect (self : NVEntry) : Bool :=
  match self.payload with
  | .vdirect _ _ => false
  | .vindirect .. => true

/-- What `resolve_indirect` makes of the referenced value. -/
def resolveSlice (value : List UInt8) (ofs len : Nat) : List UInt8 :=
  if ofs > value.length then [] else window value ofs (min ((ofs + len) % 2 ^ 32) value.length)

/-- What `add_value` and `add_value_indirect` return, `*new_entry`, and the table. -/
structure AddResult where
  ok : Bool
  newEntry : Bool
  table : NVTable

namespace NVTable

def numStaticEntries (self : NVTable) : Nat := self.staticEntries.length

def numDynEntries (self : NVTable) : Nat := self.dynEntries.length

/-- `nv_table_get_ofs_table_top`: where the offset tables end. -/
def ofsTableTop (self : NVTable) : Nat := 12 + 4 * self.numStaticEntries + 8 * self.numDynEntries

def allocCheck (self : NVTable) (allocSize : Nat) : Bool :=
  self.ofsTableTop + self.used + allocSize ≤ self.size

def entryAtOfs (ofs : Nat) : Option Nat := if ofs = 0 then none else some ofs

/-- `nv_table_get_entry_slow`: the offset of the entry, and the slot. -/
def getEntrySlow (self : NVTable) (handle : Nat) : Option Nat × Option Nat :=
  match search NVDynValue.handle self.dynEntries handle with
  | .found m => (entryAtOfs ((self.dynEntries[m]?.map NVDynValue.ofs).getD 0), some m)
  | .missing _ => (none, none)

def getEntry (self : NVTable) (handle : Nat) : Option Nat × Option Nat :=
  if handle = 0 then (none, none)
  else if handle ≤ self.numStaticEntries then
    (entryAtOfs ((self.staticEntries[handle - 1]?).getD 0), none)
  else self.getEntrySlow handle

/-- `nv_table_get_value` and `nv_table_resolve_indirect`, which call each other; `depth` bounds how
deep. -/
def getValueDepth (self : NVTable) : Nat → Nat → Option (List UInt8)
  | 0, _ => none
  | depth + 1, handle =>
    match (self.getEntry handle).1 with
    | none => some []
    | some ofs => (self.entries ofs).bind fun entry =>
      match entry.payload with
      | .vdirect _ value => some value
      | .vindirect ref rofs rlen _ _ =>
        (getValueDepth self depth ref).map (resolveSlice · rofs rlen)

/-- `nv_table_get_value`. A chain of references is shorter than the number of entries, or the calls
never end. -/
def getValue (self : NVTable) (handle : Nat) : Option (List UInt8) :=
  self.getValueDepth (self.used + 2) handle

def resolveIndirect (self : NVTable) (ref : Nat) (rofs rlen : Nat) : Option (List UInt8) :=
  (self.getValueDepth (self.used + 1) ref).map (resolveSlice · rofs rlen)

/-- `nv_table_alloc_value`: a fresh block at the bottom of the entry area. What it holds is
written next. -/
def allocValue (self : NVTable) (allocSize : Nat) : Option (Nat × NVTable) :=
  let allocSize := nvTableBound allocSize
  if self.allocCheck allocSize then
    let ofs := self.used + allocSize
    some (ofs, { self with
      used := ofs
      entries := Function.update self.entries ofs (some ⟨false, allocSize, .vdirect [] []⟩) })
  else none

/-- `nv_table_reserve_table_entry`: the slot of a dynamic value is made before its entry. The keys
are compared as `guint16` here, and the number of slots is one. `none` is `FALSE`. -/
def reserveTableEntry (self : NVTable) (handle : Nat) (slot : Option Nat) :
    Option (Option Nat × NVTable) :=
  if slot = none ∧ handle > self.numStaticEntries then
    if self.allocCheck 8 then
      let dyn := self.dynEntries
      match search (fun d => d.handle % 2 ^ 16) dyn handle with
      | .found ndx => some (some ndx, { self with
          dynEntries := (dyn.take ndx ++ ⟨handle, 0⟩ :: dyn.drop ndx).take dyn.length })
      | .missing ndx => some (some ndx, { self with
          dynEntries := (dyn.take ndx ++ ⟨handle, 0⟩ :: dyn.drop ndx).take
            ((dyn.length + 1) % 2 ^ 16) })
    else none
  else some (slot, self)

def setTableEntry (self : NVTable) (handle : Nat) (ofs : Nat) (slot : Option Nat) :
    Option NVTable :=
  if handle = 0 then none
  else if handle ≤ self.numStaticEntries then
    some { self with staticEntries := self.staticEntries.set (handle - 1) ofs }
  else slot.map fun m => { self with dynEntries := self.dynEntries.set m ⟨handle, ofs⟩ }

/-- The entry at an offset gets a new payload, if that fits in its block. -/
def setPayload (self : NVTable) (ofs : Nat) (payload : NVPayload) : Option NVTable :=
  (self.entries ofs).bind fun entry =>
    if payload.bytes ≤ entry.allocLen then
      some { self with
        entries := Function.update self.entries ofs (some { entry with payload := payload }) }
    else none

def setReferenced (self : NVTable) (ofs : Nat) : Option NVTable :=
  (self.entries ofs).map fun entry => { self with
    entries := Function.update self.entries ofs (some { entry with referenced := true }) }

/-- The name is stored for non-builtin values only. -/
def storedName (self : NVTable) (handle : Nat) (name : List UInt8) : List UInt8 :=
  if handle ≥ self.numStaticEntries then name else []

/-- A slot and a new block for an entry that does not fit in its old space. -/
def allocEntry (self : NVTable) (handle : Nat) (slot : Option Nat) (newEntry : Bool)
    (allocSize : Nat) (payload : NVPayload) : Option AddResult :=
  match self.reserveTableEntry handle slot with
  | none => some ⟨false, newEntry, self⟩
  | some (slot, self) =>
    match self.allocValue allocSize with
    | none => some ⟨false, newEntry, self⟩
    | some (ofs, self) =>
      (self.setPayload ofs payload).bind fun self =>
        (self.setTableEntry handle ofs slot).map fun self => ⟨true, newEntry, self⟩

/-- The new value fits in the old space; an indirect entry is converted. -/
def overwrite (self : NVTable) (ofs : Nat) (name value : List UInt8) : Option NVTable :=
  (self.entries ofs).bind fun entry =>
    self.setPayload ofs
      (.vdirect (if entry.indirect then name else entry.payload.name) value)

/-- The positions of the offset tables, in the order of `nv_table_foreach_entry`. -/
inductive Slot where
  | static (i : Nat)
  | dyn (i : Nat)

/-- The handle and the offset at a position. -/
def slotAt (self : NVTable) : Slot → Nat × Nat
  | .static i => (i + 1, (self.staticEntries[i]?).getD 0)
  | .dyn i => ((self.dynEntries[i]?.map NVDynValue.handle).getD 0,
      (self.dynEntries[i]?.map NVDynValue.ofs).getD 0)

def slots (self : NVTable) : List Slot :=
  (List.range self.numStaticEntries).map .static ++ (List.range self.numDynEntries).map .dyn

/-- `nv_table_foreach_entry`: stops when `func` returns `TRUE`. The tables are read again in every
round. -/
def foreachEntry (func : NVTable → Nat → Nat → Option (Bool × NVTable)) :
    List Slot → NVTable → Option (Bool × NVTable)
  | [], self => some (false, self)
  | slot :: rest, self =>
    let (handle, ofs) := self.slotAt slot
    match entryAtOfs ofs with
    | none => foreachEntry func rest self
    | some ofs => (func self handle ofs).bind fun
      | (true, self) => some (true, self)
      | (false, self) => foreachEntry func rest self

/-- `nv_table_make_direct`; `add` is `nv_table_add_value`. `TRUE` stops the iteration: the table is
full. -/
def makeDirect (add : NVTable → Nat → List UInt8 → List UInt8 → Option AddResult)
    (refHandle : Nat) (self : NVTable) (handle : Nat) (ofs : Nat) :
    Option (Bool × NVTable) :=
  (self.entries ofs).bind fun entry =>
    match entry.payload with
    | .vdirect _ _ => some (false, self)
    | .vindirect ref rofs rlen _ name =>
      if ref = refHandle then
        (self.resolveIndirect ref rofs rlen).bind fun value =>
          (add self handle name value).map fun result => (!result.ok, result.table)
      else some (false, self)

/-- `nv_table_add_value`, which calls itself through `make_direct`; `depth` bounds how deep.
`newEntry` says whether the caller wants to know if the entry is new. -/
def addValueDepth : Nat → NVTable → Nat → List UInt8 → List UInt8 → Bool → Option AddResult
  | 0, _, _, _, _, _ => none
  | depth + 1, self, handle, name, value, newEntry =>
    let value := value.take nvTableMaxBytes
    let allocSize := nvEntryDirectHdr + name.length + value.length + 2
    let payload := .vdirect (self.storedName handle name) value
    match self.getEntry handle with
    | (none, slot) =>
      -- zero length matches are not stored unless the caller wants to know of new entries
      if !newEntry && value.isEmpty then some ⟨true, false, self⟩
      else self.allocEntry handle slot newEntry allocSize payload
    | (some ofs, slot) => (self.entries ofs).bind fun entry =>
      (if !entry.indirect && entry.referenced then
        foreachEntry (makeDirect (fun t h n v => addValueDepth depth t h n v false) handle)
          self.slots self
      else some (false, self)).bind fun
      | (true, self) => some ⟨false, false, self⟩
      | (false, self) =>
        if entry.allocLen ≥ value.length + nvEntryDirectHdr + name.length + 2 then
          (self.overwrite ofs name value).map fun self => ⟨true, false, self⟩
        else self.allocEntry handle slot false allocSize payload

/-- `nv_table_add_value`: entries made direct are indirect, so their calls go no deeper. -/
def addValue (self : NVTable) (handle : Nat) (name value : List UInt8) (newEntry : Bool) :
    Option AddResult :=
  addValueDepth 2 self handle name value newEntry

/-- The rest of `nv_table_add_value_indirect`, when the referenced entry is not indirect itself. -/
def addReference (self : NVTable) (handle : Nat) (name : List UInt8) (refHandle : Nat)
    (refOfs : Option Nat) (type rofs rlen : Nat) (newEntry : Bool) : Option AddResult :=
  let allocSize := nvEntryIndirectHdr + name.length + 1
  let payload := .vindirect refHandle rofs rlen type (self.storedName handle name)
  -- `ref_entry->referenced = TRUE`
  let refer (self : NVTable) : Option NVTable := refOfs.bind self.setReferenced
  match self.getEntry handle with
  | (none, slot) =>
    if !newEntry && (rlen = 0 || refOfs.isNone) then some ⟨true, false, self⟩
    else (self.allocEntry handle slot newEntry allocSize payload).bind fun result =>
      if result.ok then (refer result.table).map fun self => ⟨true, newEntry, self⟩
      else some result
  | (some ofs, slot) => (self.entries ofs).bind fun entry =>
    (if !entry.indirect && entry.referenced then
      (foreachEntry (makeDirect (fun t h n v => addValueDepth 1 t h n v false) handle)
        self.slots self).map fun (stopped, self) => (!stopped, self)
    else some (false, self)).bind fun
    -- every reference was made direct, but this is taken for a failure
    | (true, self) => some ⟨false, false, self⟩
    | (false, self) =>
      if entry.allocLen ≥ nvEntryIndirectHdr + name.length + 1 then
        (refer self).bind fun self => (self.entries ofs).bind fun entry =>
          (self.setPayload ofs (.vindirect refHandle rofs rlen type
            (if entry.indirect then entry.payload.name else self.storedName handle name))).map
              fun self => ⟨true, false, self⟩
      else (self.allocEntry handle slot false allocSize payload).bind fun result =>
        if result.ok then (refer result.table).map fun self => ⟨true, false, self⟩
        else some result

def addValueIndirect (self : NVTable) (handle : Nat) (name : List UInt8)
    (refHandle : Nat) (type rofs rlen : Nat) (newEntry : Bool) : Option AddResult :=
  let refOfs := (self.getEntry refHandle).1
  match refOfs.map self.entries with
  | some none => none
  | some (some ⟨_, _, .vindirect ref ofs len _ _⟩) =>
    -- an indirect entry is not referred to, its value is copied
    (self.resolveIndirect ref ofs len).bind fun value =>
      let (rofs, rlen) := if rofs > value.length then (0, 0)
        else (rofs, min ((rofs + rlen) % 2 ^ 32) value.length - rofs)
      self.addValue handle name (window value rofs (rofs + rlen)) newEntry
  | _ => self.addReference handle name refHandle refOfs type rofs rlen newEntry

/-- The bytes that the header of a copy takes, `sizeof(NVTable)` and the offset tables. -/
def headerSize (self : NVTable) : Nat := 16 + 4 * self.numStaticEntries + 8 * self.numDynEntries

/-- `nv_table_realloc`; a copy keeps `size` although more was allocated. -/
def realloc (self : NVTable) : Option (Bool × NVTable) :=
  let newSize := min (2 * self.size) nvTableMaxBytes
  if newSize = self.size then some (false, self)
  else if newSize < self.size then none
  else if self.refCnt = 1 ∧ !self.borrowed then some (true, { self with size := newSize })
  else if self.headerSize ≤ self.size then
    some (true, { self with refCnt := 1, borrowed := false })
  else none

/-- The `new_size` of `nv_table_clone`. -/
def cloneSize (self : NVTable) (additionalSpace : Int) : Int :=
  if (self.size : Int) - self.used - self.ofsTableTop < additionalSpace then self.size
  else self.size + (additionalSpace + 3) / 4 * 4

/-- `nv_table_clone`. -/
def clone (self : NVTable) (additionalSpace : Int) : Option NVTable :=
  let newSize := self.cloneSize additionalSpace
  if newSize < 2 ^ 31 ∧ self.headerSize ≤ self.size ∧ self.headerSize ≤ newSize ∧
      self.ofsTableTop + self.used ≤ newSize then
    some { self with size := newSize.toNat, refCnt := 1, borrowed := false }
  else none

end NVTable

def nvTableGetAllocSize (numStaticEntries numDynValues initLength : Nat) : Nat :=
  let size := nvTableBound initLength + nvTableBound (16 + 4 * numStaticEntries + 8 * numDynValues)
  if size < 128 then 128 else min size nvTableMaxBytes

def nvTableNew (numStaticEntries numDynValues initLength : Nat) : NVTable where
  size := nvTableGetAllocSize numStaticEntries numDynValues initLength
  used := 0
  refCnt := 1
  borrowed := false
  staticEntries := List.replicate (numStaticEntries % 2 ^ 8) 0
  dynEntries := []
  entries := fun _ => none

end SyslogNg.NameValue
