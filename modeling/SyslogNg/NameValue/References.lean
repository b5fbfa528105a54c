import SyslogNg.NameValue.Refinement

/-!
# References are one step deep

The single-indirection rule of a table: an indirect entry refers to a present direct entry that is
marked as referenced, so that a lookup follows at most one reference. The calls keep it as long as
the target of a reference has an entry of its own, which they do not check.
-/

namespace SyslogNg.NameValue

open Lib

/-- The single-indirection rule. -/
def NVTable.SingleIndirection (t : NVTable) : Prop :=
  ∀ handle e ref ofs len type name, t.entryOf handle = some e →
    e.payload = .vindirect ref ofs len type name →
    ∃ e', t.entryOf ref = some e' ∧ e'.indirect = false ∧ e'.referenced = true

/-- The handles are those of a registry, and the target of a reference is another handle that has
an entry; a missing target is harmless when the handle has no entry either and the caller does not
ask for `new_entry`. The references to the handle have room to be made direct. -/
def NVOp.RefersOk (t : NVTable) : NVOp → Prop
  | .addValueIndirect handle ref _ ofs len newEntry => 0 < handle ∧ handle < 2 ^ 16 ∧
    ref ≠ handle ∧ ((t.getEntry ref).1.isSome = true ∨
      (newEntry = false ∧ (t.getEntry handle).1.isNone = true)) ∧
    ofs + len < 2 ^ 32 ∧ t.RoomForDirect handle
  | op => op.Ok t

def NVRefersNext (registry : NVRegistry) (w : NVWorld) (op : NVOp) (w' : NVWorld) : Prop :=
  nvStep registry w op = some w' ∧ op.RefersOk w.table

section

variable {registry : NVRegistry} {w : NVWorld}

theorem addValueIndirect_missing {t : NVTable} {names : Nat → List UInt8} (hs : t.Sound names)
    {handle ref : Nat} (href : (t.getEntry ref).1 = none) (hnone : (t.getEntry handle).1 = none)
    (name : List UInt8) (type ofs len : Nat) :
    t.addValueIndirect handle name ref type ofs len false = some ⟨true, false, t⟩ := by
  obtain ⟨slot, hget, -⟩ := NVTable.getEntry_spec hs.layout handle
  rw [hget] at hnone
  have hnone : NVTable.entryAtOfs (t.slotOfs handle) = none := hnone
  unfold NVTable.addValueIndirect NVTable.addReference
  simp [href, hget, hnone]

theorem refers_step (hw : w.table.Sound registry.name) (op : NVOp) (hok : op.RefersOk w.table) :
    ∃ w', nvStep registry w op = some w' ∧ w'.table.Sound registry.name := by
  cases op with
  | addValue handle value newEntry =>
    obtain ⟨hpos, hlt⟩ := hok
    obtain ⟨r, hr, hst⟩ := NVTable.addValue_spec hw hpos hlt value newEntry
    exact ⟨_, by rw [nvStep, hr]; rfl, hst.sound⟩
  | addValueIndirect handle ref type ofs len newEntry =>
    obtain ⟨hpos, hlt, hne, hentry, hlen, hroom⟩ := hok
    by_cases hsome : (w.table.getEntry ref).1.isSome = true
    · obtain ⟨r, hr, hst⟩ := NVTable.addValueIndirect_spec hw hpos hlt hne hsome hlen hroom newEntry
      exact ⟨_, by rw [nvStep, hr]; rfl, hst.sound⟩
    · obtain ⟨rfl, hnone⟩ := hentry.resolve_left hsome
      have hmiss := addValueIndirect_missing hw (Option.not_isSome_iff_eq_none.1 hsome)
        (Option.isNone_iff_eq_none.1 hnone) (registry.name handle) type ofs len
      exact ⟨⟨w.table, Function.update w.map handle (slice (w.map ref) ofs len)⟩,
        by rw [nvStep, hmiss]; rfl, hw⟩
  | realloc =>
    obtain ⟨ok, t, ht, hs, -⟩ := NVTable.realloc_spec hw
    exact ⟨_, by rw [nvStep, ht]; rfl, hs⟩
  | clone additionalSpace =>
    obtain ⟨hpos, hmax, hheader⟩ := hok
    obtain ⟨t, ht, hs, -⟩ := NVTable.clone_spec hw hpos hmax hheader
    exact ⟨_, by rw [nvStep, ht]; rfl, hs⟩

end

/-- **Single indirection**: after every run of the operations on a new table, each reference to
another handle that has an entry and with room to make the handle's own references direct, an
indirect entry refers to a present, direct and marked one, a lookup of any handle ends after at
most one reference, and no call goes through a missing entry. -/
theorem nv_table_single_indirection (registry : NVRegistry)
    (numStaticEntries numDynValues initLength : Nat) (ops : List NVOp) (w : NVWorld)
    (hrun : Run (NVRefersNext registry) (nvStart numStaticEntries numDynValues initLength) ops w) :
    w.table.SingleIndirection ∧ (∀ handle, (w.table.getValueDepth 2 handle).isSome = true) ∧
      ∀ op : NVOp, op.RefersOk w.table → ∃ w', NVRefersNext registry w op w' := by
  have hw : w.table.Sound registry.name := by
    refine Run.invariant (I := fun w => w.table.Sound registry.name) ?_ hrun
      (NVTable.nvTableNew_sound registry.name numStaticEntries numDynValues initLength).1
    rintro s op s' ⟨hstep, hok⟩ hs
    obtain ⟨s1, hstep1, hinv⟩ := refers_step hs op hok
    cases hstep.symm.trans hstep1
    exact hinv
  refine ⟨?_, fun handle => ?_, fun op hok => ?_⟩
  · intro handle e ref ofs len type name he hp
    obtain ⟨-, e', he', hmark, hdir⟩ := hw.refs.refs handle e ref ofs len type name he hp
    exact ⟨e', he', hdir, hmark⟩
  · rw [NVTable.getValueDepth_eq hw 0 handle]
    rfl
  · obtain ⟨w', hstep, -⟩ := refers_step hw op hok
    exact ⟨w', hstep, hok⟩

/-- A missing target, a reference, and a change of its target. -/
theorem nv_table_single_indirection_three :
    ∃ w, Run (NVRefersNext oneByteNames) (nvStart 3 0 0)
        [.addValueIndirect 4 1 0 0 3 false, .addValue 1 [97, 98, 99] true,
          .addValueIndirect 4 1 0 1 2 true, .addValue 1 [120] false] w ∧
      w.table.SingleIndirection ∧ ∀ handle, (w.table.getValueDepth 2 handle).isSome = true := by
  have hrun : ∃ w, Run (NVRefersNext oneByteNames) (nvStart 3 0 0)
      [.addValueIndirect 4 1 0 0 3 false, .addValue 1 [97, 98, 99] true,
        .addValueIndirect 4 1 0 1 2 true, .addValue 1 [120] false] w := by
    refine ⟨_, .step ⟨rfl, by decide, by decide, by decide, .inr ⟨rfl, rfl⟩, by decide, ?_⟩
      (.step ⟨rfl, by decide, by decide⟩ (.step ⟨rfl, by decide, by decide, by decide, .inl rfl,
      by decide, ?_⟩ (.step ⟨rfl, by decide, by decide⟩ (.refl _))))⟩
    · intro e he
      cases he
    · intro e he
      cases he
  obtain ⟨w, hrun⟩ := hrun
  obtain ⟨h1, h2, -⟩ := nv_table_single_indirection oneByteNames 3 0 0 _ w hrun
  exact ⟨w, hrun, h1, h2⟩

/-- A reference to a handle without an entry goes through a `NULL` pointer, and a lookup of a
handle that refers to itself never ends. -/
theorem nv_table_bad_references :
    exec (nvStep oneByteNames) (nvStart 3 0 0) [.addValueIndirect 4 1 0 0 3 true] = none ∧
    ∃ w, exec (nvStep oneByteNames) (nvStart 3 0 0)
        [.addValue 1 (List.replicate 16 97) true, .addValueIndirect 1 1 0 0 1 true] = some w ∧
      ∀ depth, w.table.getValueDepth depth 1 = none := by
  refine ⟨rfl, _, rfl, fun depth => ?_⟩
  induction depth with
  | zero => rfl
  | succ depth ih =>
    rw [NVTable.getValueDepth]
    exact congrArg (Option.map (resolveSlice · 0 1)) ih

end SyslogNg.NameValue
