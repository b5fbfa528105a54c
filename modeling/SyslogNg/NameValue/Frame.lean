import SyslogNg.NameValue.Calls

/-!
# What a call leaves alone

A call for one handle keeps the values that other handles have of their own, and gives no entry to a
handle that has none (`KeepsAt`); what it changes otherwise are references, which it may make direct.
As in `Room`, nothing is asked of the references of the table.
-/

namespace SyslogNg.NameValue

open Lib EntryMap
open Option (bind_eq_some_iff bind_some map_eq_some_iff)

namespace NVTable

variable {max : Nat} {names : Nat → List UInt8} {t t' t'' : NVTable} {handle ref h : Nat}
  {e : NVEntry}

/-- The handle has no entry, or an empty value of its own. -/
def Blank (t : NVTable) (h : Nat) : Prop :=
  cells t.entryOf h = none ∨ cells t.entryOf h = some (.own [])

theorem KeepsAt.blank (hk : KeepsAt t t' h) (hb : t.Blank h) : t'.Blank h :=
  hb.imp hk.absent (hk.own [])

theorem isSome_cells (t : NVTable) (h : Nat) :
    (cells t.entryOf h).isSome = (t.entryOf h).isSome := by
  rw [cells, Option.isSome_map]

theorem KeepsAt.isSome (hk : KeepsAt t t' h) : (t'.entryOf h).isSome = (t.entryOf h).isSome := by
  cases he : t.entryOf h with
  | none =>
    have hnone := hk.absent (by rw [cells, he]; rfl)
    rw [cells, Option.map_eq_none_iff] at hnone
    rw [hnone]
  | some e =>
    have hsome := hk.present (by rw [isSome_cells, he]; rfl)
    rwa [isSome_cells] at hsome

theorem Blank.getValue (hl : t.LayoutIn max) (hb : t.Blank h) : t.getValue h = some [] := by
  obtain ⟨slot, hget, -⟩ := getEntry_spec hl h
  unfold NVTable.getValue
  rcases hb with hc | hc
  · rw [getValueDepth, hget, entryOf_eq_none hl (Option.map_eq_none_iff.1 hc)]
    rfl
  · obtain ⟨⟨referenced, allocLen, payload⟩, he, hcell⟩ := map_eq_some_iff.1 hc
    cases payload with
    | vdirect name value =>
      cases hcell
      exact getValueDepth_direct hl he rfl _
    | vindirect => cases hcell

/-! ## The calls -/

variable {r : AddResult} {slot refOfs : Option Nat} {rofs rlen : Nat}

/-- **`nv_table_add_value`** for a caller that wants to know of new entries. -/
theorem addValue_framed {value : List UInt8} (hs : t.Stands names) (hpos : 0 < handle)
    (hlt : handle < 2 ^ 16) (hr : t.addValue handle (names handle) value true = some r) :
    Framed handle (some (value.take nvTableMaxBytes)) t r := by
  obtain ⟨r', hr', -, hframed⟩ := addValue_room hs hpos hlt value true
  cases hr'.symm.trans hr
  exact hframed rfl

theorem allocEntry_newEntry {newEntry : Bool} {allocSize : Nat} {payload : NVPayload}
    (hr : t.allocEntry handle slot newEntry allocSize payload = some r) : r.newEntry = newEntry := by
  unfold allocEntry at hr
  split at hr
  · cases hr
    rfl
  split at hr
  · cases hr
    rfl
  obtain ⟨t3, -, hr⟩ := bind_eq_some_iff.1 hr
  obtain ⟨t4, -, rfl⟩ := map_eq_some_iff.1 hr
  rfl

theorem addValue_newEntry {name value : List UInt8} (hl : t.LayoutIn max)
    (hr : t.addValue handle name value true = some r) : r.newEntry = (t.entryOf handle).isNone := by
  obtain ⟨slot, hget, -⟩ := getEntry_spec hl handle
  unfold addValue at hr
  rw [addValueDepth, hget] at hr
  cases hent : t.entryOf handle with
  | none =>
    rw [entryOf_eq_none hl hent, show entryAtOfs 0 = none from rfl] at hr
    exact allocEntry_newEntry hr
  | some e =>
    obtain ⟨-, hofs, hat⟩ := entryOf_eq_some hent
    rw [hofs] at hr
    simp only [hat, bind_some] at hr
    obtain ⟨⟨stopped, t1⟩, -, hr⟩ := bind_eq_some_iff.1 hr
    cases stopped with
    | true =>
      cases hr
      rfl
    | false =>
      dsimp only at hr
      split at hr
      · obtain ⟨t2, -, rfl⟩ := map_eq_some_iff.1 hr
        rfl
      · exact allocEntry_newEntry hr

/-- **`nv_table_add_value_indirect`** for a caller that wants to know of new entries. -/
theorem addValueIndirect_framed {type : Nat} (hs : t.Stands names) (hpos : 0 < handle)
    (hlt : handle < 2 ^ 16) (hlen : rofs + rlen < 2 ^ 32)
    (hr : t.addValueIndirect handle (names handle) ref type rofs rlen true = some r) :
    Framed handle none t r := by
  cases href : t.indirectAt ref with
  | false =>
    rw [addValueIndirect_direct hs.layout href] at hr
    exact ((addReference_room hs hpos hlt (target_present hs.layout) ref type rofs rlen true).2 _ hr).2
  | true =>
    obtain ⟨slot, hget, -⟩ := getEntry_spec hs.layout ref
    rw [addValueIndirect_copy ⟨slot, hget⟩ href (names handle) hlen] at hr
    obtain ⟨value, -, hr⟩ := bind_eq_some_iff.1 hr
    have hframed := addValue_framed hs hpos hlt hr
    exact ⟨hframed.other, by simp, hframed.failed⟩

end NVTable

end SyslogNg.NameValue
