import SyslogNg.Lib.Run
import SyslogNg.NameValue.AddValue

/-!
# A table is a map

Every run of the operations on a table from `nv_table_new`, next to a map from handles to values:
a successful `nv_table_add_value` stores its value in the map, a successful
`nv_table_add_value_indirect` the part of the value that its target has then, and nothing else
changes the map. `nv_table_refines_map`: the table holds what the map holds.
-/

namespace SyslogNg.NameValue

open Lib Function List

/-- The names of the handles; `nv_registry_alloc_handle` refuses longer ones. -/
structure NVRegistry where
  name : Nat → List UInt8
  name_le : ∀ handle, (name handle).length ≤ 255

structure NVWorld where
  table : NVTable
  map : Nat → List UInt8

inductive NVOp where
  | addValue (handle : Nat) (value : List UInt8) (newEntry : Bool)
  | addValueIndirect (handle ref type ofs len : Nat) (newEntry : Bool)
  | realloc
  | clone (additionalSpace : Int)

def nvStart (numStaticEntries numDynValues initLength : Nat) : NVWorld :=
  ⟨nvTableNew numStaticEntries numDynValues initLength, fun _ => []⟩

def nvStep (registry : NVRegistry) (w : NVWorld) : NVOp → Option NVWorld
  | .addValue handle value newEntry =>
    (w.table.addValue handle (registry.name handle) value newEntry).map fun r =>
      ⟨r.table, if r.ok then update w.map handle value else w.map⟩
  | .addValueIndirect handle ref type ofs len newEntry =>
    (w.table.addValueIndirect handle (registry.name handle) ref type ofs len newEntry).map fun r =>
      ⟨r.table, if r.ok then update w.map handle (slice (w.map ref) ofs len) else w.map⟩
  | .realloc => w.table.realloc.map fun (_, table) => ⟨table, w.map⟩
  | .clone additionalSpace => (w.table.clone additionalSpace).map fun table => ⟨table, w.map⟩

/-- The handles are those of a registry, at most `65535`; a target has an entry, and is another
handle. A clone gets a valid size, and its source has room for a whole header. The references to
the handle of an `add_value_indirect` have room to be made direct. -/
def NVOp.Ok (t : NVTable) : NVOp → Prop
  | .addValue handle _ _ => 0 < handle ∧ handle < 2 ^ 16
  | .addValueIndirect handle ref _ ofs len _ => 0 < handle ∧ handle < 2 ^ 16 ∧ ref ≠ handle ∧
    (t.getEntry ref).1.isSome = true ∧ ofs + len < 2 ^ 32 ∧ t.RoomForDirect handle
  | .realloc => True
  | .clone additionalSpace => 0 ≤ additionalSpace ∧ t.cloneSize additionalSpace ≤ nvTableMaxBytes ∧
    t.headerSize ≤ t.size

def NVNext (registry : NVRegistry) (w : NVWorld) (op : NVOp) (w' : NVWorld) : Prop :=
  nvStep registry w op = some w' ∧ op.Ok w.table

structure NVInv (registry : NVRegistry) (w : NVWorld) : Prop where
  sound : w.table.Sound registry.name
  value : ∀ h, EntryMap.value w.table.entryOf h = w.map h

namespace NVTable

variable {names : Nat → List UInt8} {t : NVTable}

theorem Sound.resize {n : Nat} (hs : t.Sound names) (hroom : t.ofsTableTop + t.used ≤ n)
    (hmax : n ≤ nvTableMaxBytes) :
    Sound names { t with size := n, refCnt := 1, borrowed := false } ∧
      entryOf { t with size := n, refCnt := 1, borrowed := false } = t.entryOf := by
  have hl := hs.layout
  exact ⟨⟨⟨hl.statics, hl.sorted, hl.handles, hroom, hmax, hl.present, hl.distinct, hl.block,
    hl.apart, rfl, rfl⟩, hs.refs⟩, rfl⟩

theorem realloc_spec (hs : t.Sound names) :
    ∃ ok t', t.realloc = some (ok, t') ∧ t'.Sound names ∧ t'.entryOf = t.entryOf := by
  have hroom := hs.layout.room
  have hmax := hs.layout.size_le
  obtain ⟨href, hborrowed⟩ := hs.layout.owned
  unfold realloc
  by_cases heq : min (2 * t.size) nvTableMaxBytes = t.size
  · rw [if_pos heq]
    exact ⟨false, t, rfl, hs, rfl⟩
  · rw [if_neg heq, if_neg (by omega), if_pos ⟨href, by rw [hborrowed]; rfl⟩]
    have hres := hs.resize (n := min (2 * t.size) nvTableMaxBytes) (by omega) (by omega)
    rw [← href, ← hborrowed] at hres
    exact ⟨true, _, rfl, hres⟩

theorem clone_spec (hs : t.Sound names) {additionalSpace : Int} (hpos : 0 ≤ additionalSpace)
    (hmax : t.cloneSize additionalSpace ≤ nvTableMaxBytes) (hheader : t.headerSize ≤ t.size) :
    ∃ t', t.clone additionalSpace = some t' ∧ t'.Sound names ∧ t'.entryOf = t.entryOf := by
  have hroom := hs.layout.room
  have hle : (t.size : Int) ≤ t.cloneSize additionalSpace := by
    unfold cloneSize
    split <;> omega
  have hlt : (nvTableMaxBytes : Int) < 2 ^ 31 := by decide
  unfold clone
  rw [if_pos ⟨by omega, hheader, by omega, by omega⟩]
  exact ⟨_, rfl, hs.resize (by omega) (by omega)⟩

theorem nvTableNew_sound (names : Nat → List UInt8)
    (numStaticEntries numDynValues initLength : Nat) :
    Sound names (nvTableNew numStaticEntries numDynValues initLength) ∧
      ∀ h, entryOf (nvTableNew numStaticEntries numDynValues initLength) h = none := by
  have hslot : ∀ h, slotOfs (nvTableNew numStaticEntries numDynValues initLength) h = 0 := by
    intro h
    unfold slotOfs nvTableNew
    split
    · rfl
    split
    · rcases hat : (replicate (numStaticEntries % 2 ^ 8) 0)[h - 1]? with - | o
      · rfl
      · exact (mem_replicate.1 (mem_of_getElem? hat)).2
    · rfl
  have hnone : ∀ h, entryOf (nvTableNew numStaticEntries numDynValues initLength) h = none := by
    intro h
    rw [entryOf, hslot]
    rfl
  refine ⟨⟨⟨?_, .nil, by simp [nvTableNew], ?_, ?_, ?_, ?_, ?_, ?_, rfl, rfl⟩, ?_, ?_⟩, hnone⟩
  · show (replicate (numStaticEntries % 2 ^ 8) 0).length < 2 ^ 8
    rw [length_replicate]
    omega
  · show 12 + 4 * (replicate (numStaticEntries % 2 ^ 8) 0).length + 8 * 0 + 0 ≤
      nvTableGetAllocSize numStaticEntries numDynValues initLength
    rw [length_replicate]
    unfold nvTableGetAllocSize nvTableBound nvTableMaxBytes
    simp only
    split <;> omega
  · show nvTableGetAllocSize numStaticEntries numDynValues initLength ≤ nvTableMaxBytes
    unfold nvTableGetAllocSize nvTableMaxBytes
    simp only
    split <;> omega
  · intro h hne
    exact absurd (hslot h) hne
  · intro h h' hne
    exact absurd (hslot h) hne
  · intro o e he
    cases he
  · intro o o' e' _ he
    cases he
  · intro h e he
    rw [hnone] at he
    cases he
  · intro h e r ofs len type name he
    rw [hnone] at he
    cases he

end NVTable

section

variable {registry : NVRegistry} {w : NVWorld}

theorem NVInv.start (registry : NVRegistry) (numStaticEntries numDynValues initLength : Nat) :
    NVInv registry (nvStart numStaticEntries numDynValues initLength) := by
  obtain ⟨hs, hnone⟩ := NVTable.nvTableNew_sound registry.name numStaticEntries numDynValues
    initLength
  refine ⟨hs, fun h => ?_⟩
  have hcell : EntryMap.cells (nvTableNew numStaticEntries numDynValues initLength).entryOf h =
      none := by
    rw [EntryMap.cells, hnone]
    rfl
  exact SliceMap.value_of_none hcell

theorem NVInv.stored {handle : Nat} {v : List UInt8} {r : AddResult} (hw : NVInv registry w)
    (hr : NVTable.Stored registry.name w.table handle v r) :
    NVInv registry ⟨r.table, if r.ok then update w.map handle v else w.map⟩ := by
  refine ⟨hr.sound, fun h => ?_⟩
  rw [hr.value]
  show _ = (if r.ok then update w.map handle v else w.map) h
  cases r.ok with
  | false => exact hw.value h
  | true =>
    by_cases hh : h = handle
    · rw [if_pos ⟨rfl, hh⟩, if_pos rfl, hh, update_self]
    · rw [if_neg fun hc => hh hc.2, if_pos rfl, update_of_ne hh, hw.value]

theorem nv_step (hw : NVInv registry w) (op : NVOp) (hok : op.Ok w.table) :
    ∃ w', nvStep registry w op = some w' ∧ NVInv registry w' := by
  cases op with
  | addValue handle value newEntry =>
    obtain ⟨hpos, hlt⟩ := hok
    obtain ⟨r, hr, hst⟩ := NVTable.addValue_spec hw.sound hpos hlt value newEntry
    exact ⟨_, by rw [nvStep, hr]; rfl, hw.stored hst⟩
  | addValueIndirect handle ref type ofs len newEntry =>
    obtain ⟨hpos, hlt, hne, hentry, hlen, hroom⟩ := hok
    obtain ⟨r, hr, hst⟩ := NVTable.addValueIndirect_spec hw.sound hpos hlt hne hentry hlen hroom
      newEntry
    rw [hw.value] at hst
    exact ⟨_, by rw [nvStep, hr]; rfl, hw.stored hst⟩
  | realloc =>
    obtain ⟨ok, t, ht, hs, hof⟩ := NVTable.realloc_spec hw.sound
    exact ⟨_, by rw [nvStep, ht]; rfl, hs, fun h => by rw [hof]; exact hw.value h⟩
  | clone additionalSpace =>
    obtain ⟨hpos, hmax, hheader⟩ := hok
    obtain ⟨t, ht, hs, hof⟩ := NVTable.clone_spec hw.sound hpos hmax hheader
    exact ⟨_, by rw [nvStep, ht]; rfl, hs, fun h => by rw [hof]; exact hw.value h⟩

theorem nv_run {ops : List NVOp} {w' : NVWorld} (hrun : Run (NVNext registry) w ops w')
    (hw : NVInv registry w) : NVInv registry w' := by
  refine Run.invariant ?_ hrun hw
  rintro s op s' ⟨hstep, hok⟩ hs
  obtain ⟨s1, hstep1, hinv⟩ := nv_step hs op hok
  cases hstep.symm.trans hstep1
  exact hinv

end

/-- **A table refines a map**: after every run of `nv_table_add_value`,
`nv_table_add_value_indirect`, `nv_table_realloc` and `nv_table_clone` on a new table, with handles
of the registry, targets that have entries and room to make references direct, `nv_table_get_value`
returns what the map holds for every handle, and no step touches memory that it should not. -/
theorem nv_table_refines_map (registry : NVRegistry)
    (numStaticEntries numDynValues initLength : Nat) (ops : List NVOp) (w : NVWorld)
    (hrun : Run (NVNext registry) (nvStart numStaticEntries numDynValues initLength) ops w) :
    (∀ handle, w.table.getValue handle = some (w.map handle)) ∧
      ∀ op : NVOp, op.Ok w.table → ∃ w', NVNext registry w op w' := by
  have hw := nv_run hrun (NVInv.start registry numStaticEntries numDynValues initLength)
  refine ⟨fun handle => ?_, fun op hok => ?_⟩
  · rw [NVTable.getValue_eq hw.sound, hw.value]
  · obtain ⟨w', hstep, -⟩ := nv_step hw op hok
    exact ⟨w', hstep, hok⟩

/-- A registry with names of one byte. -/
def oneByteNames : NVRegistry := ⟨fun _ => [110], fun _ => by simp⟩

/-- A reference keeps the value that its target had. -/
theorem nv_table_refines_map_reference :
    ∃ w, Run (NVNext oneByteNames) (nvStart 3 0 0)
        [.addValue 1 [97, 98, 99] true, .addValueIndirect 4 1 0 1 2 true, .addValue 1 [120] false,
          .realloc, .clone 8] w ∧
      w.table.getValue 1 = some [120] ∧ w.table.getValue 4 = some [98, 99] := by
  have hrun : ∃ w, Run (NVNext oneByteNames) (nvStart 3 0 0)
      [.addValue 1 [97, 98, 99] true, .addValueIndirect 4 1 0 1 2 true, .addValue 1 [120] false,
        .realloc, .clone 8] w ∧ w.map 1 = [120] ∧ w.map 4 = [98, 99] := by
    refine ⟨_, .step ⟨rfl, by decide, by decide⟩ (.step ⟨rfl, by decide, by decide, by decide,
      by decide, by decide, ?_⟩ (.step ⟨rfl, by decide, by decide⟩ (.step ⟨rfl, trivial⟩ (.step ⟨rfl, by decide,
      by decide, by decide⟩ (.refl _))))), rfl, rfl⟩
    intro e he
    cases he
  obtain ⟨w, hrun, h1, h4⟩ := hrun
  obtain ⟨hval, -⟩ := nv_table_refines_map oneByteNames 3 0 0 _ w hrun
  exact ⟨w, hrun, by rw [hval, h1], by rw [hval, h4]⟩

/-- Without room to make the reference of handle `4` direct, `nv_table_add_value_indirect` on its
target goes on as if it were: the value of `4` changes with that of `1`. -/
theorem nv_table_reference_changes :
    ∃ w, exec (nvStep oneByteNames) (nvStart 3 0 0)
        [.addValue 1 (replicate 32 97) true, .addValue 2 [122] true,
          .addValueIndirect 4 1 0 0 32 true, .addValueIndirect 1 2 0 0 1 true] = some w ∧
      w.map 1 = [122] ∧ w.map 4 = replicate 32 97 ∧
      w.table.getValue 4 = some [122] := by
  refine ⟨_, rfl, rfl, rfl, rfl⟩

end SyslogNg.NameValue
