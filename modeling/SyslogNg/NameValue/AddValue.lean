import SyslogNg.NameValue.MakeDirect

/-!
# What the operations do to the values

`addValue_spec` and `addValueIndirect_spec`: a successful call changes the value of its handle and
no other, a failed one changes none. For `nv_table_add_value_indirect` that needs the references to
the handle to have room to be made direct; `addReference` takes the end of that iteration for a
failure, and goes on when it was stopped.
-/

namespace SyslogNg.NameValue

open Lib List Function Option EntryMap
open Option (bind_some)

namespace NVTable

variable {names : Nat → List UInt8} {t t' : NVTable} {handle : Nat} {e : NVEntry}

/-- What a call that returns `ok` leaves, if success gives `handle` the value `v`. -/
structure Stored (names : Nat → List UInt8) (t : NVTable) (handle : Nat) (v : List UInt8)
    (r : AddResult) : Prop where
  sound : r.table.Sound names
  value : ∀ h, value r.table.entryOf h =
    if r.ok = true ∧ h = handle then v else value t.entryOf h

theorem Stored.failed {v : List UInt8} (hs : t'.Sound names)
    (hval : ∀ h, EntryMap.value t'.entryOf h = EntryMap.value t.entryOf h) (newEntry : Bool) :
    Stored names t handle v ⟨false, newEntry, t'⟩ :=
  ⟨hs, fun h => by rw [if_neg (fun hc => absurd hc.1 Bool.false_ne_true)]; exact hval h⟩

theorem Stored.direct {v : List UInt8} (hs : t.Sound names) (hl : t'.Layout)
    (hof : t'.entryOf = update t.entryOf handle (some e)) (hdir : e.indirect = false)
    (hcell : e.cell = .own v) (hname : e.payload.name.length ≤ (names handle).length)
    (hno : ∀ k, ¬ (cells t.entryOf).Refers k handle) (newEntry : Bool) :
    Stored names t handle v ⟨true, newEntry, t'⟩ := by
  refine ⟨⟨hl, hof ▸ hs.refs.update_direct hdir hname (.inr hno)⟩, fun h => ?_⟩
  show EntryMap.value t'.entryOf h = _
  rw [EntryMap.value, hof, EntryMap.cells_update, hcell]
  by_cases hh : h = handle
  · rw [if_pos ⟨rfl, hh⟩, hh, SliceMap.value_update_own]
  · rw [if_neg (fun hc => hh hc.2), SliceMap.value_update_of_ne hno _ hh]
    rfl

theorem take_eq_of_stored {v : List UInt8} {n : Nat} (hl : t.Layout) (he : t.entryOf handle = some e)
    (hlen : n + (v.take nvTableMaxBytes).length ≤ e.allocLen) (hn : 0 < n) :
    v.take nvTableMaxBytes = v := by
  have hle := (hl.value_le he).2
  rw [length_take] at hlen
  exact take_of_length_le (by omega)

theorem Stored.fresh {value stored : List UInt8} (hs : t.Sound names) (hl : t'.Layout)
    (hof : t'.entryOf = update t.entryOf handle (some ⟨false, nvTableBound
      (nvEntryDirectHdr + (names handle).length + (value.take nvTableMaxBytes).length + 2),
      .vdirect stored (value.take nvTableMaxBytes)⟩)) (hstored : stored.length ≤ (names handle).length)
    (hno : ∀ k, ¬ (cells t.entryOf).Refers k handle) (newEntry : Bool) :
    Stored names t handle value ⟨true, newEntry, t'⟩ := by
  have he := congrFun hof handle
  rw [update_self] at he
  have hbound := le_nvTableBound
    (nvEntryDirectHdr + (names handle).length + (value.take nvTableMaxBytes).length + 2)
  have htake := take_eq_of_stored (v := value)
    (n := nvEntryDirectHdr + (names handle).length + 2) hl he
    (by show _ ≤ nvTableBound _; omega) (by omega)
  refine .direct hs hl hof rfl ?_ hstored hno newEntry
  rw [NVEntry.cell, htake]

theorem store_spec {slot : Option Nat} {stored : List UInt8} (value : List UInt8) (hs : t.Sound names)
    (hpos : 0 < handle) (he : t.entryOf handle = some e)
    (hno : ∀ k, ¬ (cells t.entryOf).Refers k handle) (hr : t.SlotReady handle slot)
    (hstored : stored.length ≤ (names handle).length) :
    ∃ r, (if e.allocLen ≥ (value.take nvTableMaxBytes).length + nvEntryDirectHdr +
          (names handle).length + 2 then
        (t.overwrite (t.slotOfs handle) (names handle) (value.take nvTableMaxBytes)).map
          fun self => (⟨true, false, self⟩ : AddResult)
      else t.allocEntry handle slot false
        (nvEntryDirectHdr + (names handle).length + (value.take nvTableMaxBytes).length + 2)
        (.vdirect stored (value.take nvTableMaxBytes))) = some r ∧
      Stored names t handle value r := by
  by_cases hfits : e.allocLen ≥ (value.take nvTableMaxBytes).length + nvEntryDirectHdr +
      (names handle).length + 2
  · rw [if_pos hfits]
    have htake := take_eq_of_stored (v := value)
      (n := nvEntryDirectHdr + (names handle).length + 2) hs.layout he (by omega) (by omega)
    rw [htake] at hfits ⊢
    obtain ⟨-, -, hat⟩ := entryOf_eq_some he
    have hname : (if e.indirect then names handle else e.payload.name).length ≤
        (names handle).length := by
      split
      · exact Nat.le_refl _
      · exact hs.refs.nameLen handle e he
    have hbytes : (NVPayload.vdirect (if e.indirect then names handle else e.payload.name)
        value).bytes ≤ e.allocLen := by
      show nvEntryDirectHdr + (if e.indirect then names handle else e.payload.name).length + 1 +
        value.length + 1 ≤ e.allocLen
      omega
    obtain ⟨t', hset, hl', -, -, -, hof⟩ := setPayload_spec hs.layout he hbytes
    refine ⟨⟨true, false, t'⟩, ?_, .direct hs hl' hof rfl rfl hname hno false⟩
    unfold overwrite
    rw [hat, bind_some, hset]
    rfl
  · rw [if_neg hfits]
    have hbytes : (NVPayload.vdirect stored (value.take nvTableMaxBytes)).bytes ≤
        nvEntryDirectHdr + (names handle).length + (value.take nvTableMaxBytes).length + 2 := by
      show nvEntryDirectHdr + stored.length + 1 + (value.take nvTableMaxBytes).length + 1 ≤ _
      omega
    rcases allocEntry_ready hs.layout hpos hr false (by omega) hbytes with ⟨-, hfail⟩ |
      ⟨t', -, hok, hl', -, -, -, hof⟩
    · exact ⟨_, hfail, .failed hs (fun _ => rfl) false⟩
    · exact ⟨_, hok, .fresh hs hl' hof hstored hno false⟩

/-- **`nv_table_add_value`** stores the value or changes nothing. -/
theorem addValue_spec (hs : t.Sound names) (hpos : 0 < handle) (hlt : handle < 2 ^ 16)
    (value : List UInt8) (newEntry : Bool) :
    ∃ r, t.addValue handle (names handle) value newEntry = some r ∧ Stored names t handle value r := by
  obtain ⟨slot, hget, hslot⟩ := getEntry_spec hs.layout handle
  have hstored : (t.storedName handle (names handle)).length ≤ (names handle).length := by
    unfold storedName
    split <;> simp
  unfold addValue
  rw [addValueDepth, hget]
  rcases hent : t.entryOf handle with - | e
  · -- there is no entry
    have hno := hs.refs.not_refers fun x hx => by rw [hent] at hx; cases hx
    rw [entryOf_eq_none hs.layout hent, show entryAtOfs 0 = none from rfl]
    by_cases hempty : (!newEntry && (value.take nvTableMaxBytes).isEmpty) = true
    · simp only [hempty, if_true]
      refine ⟨_, rfl, hs, fun h => ?_⟩
      have hnil : value = [] := by
        rw [Bool.and_eq_true, List.isEmpty_iff, take_eq_nil_iff] at hempty
        exact hempty.2.resolve_left (by decide)
      by_cases hh : h = handle
      · have hcell : cells t.entryOf handle = none := by
          rw [cells, hent]
          rfl
        rw [if_pos ⟨rfl, hh⟩, hh, hnil, EntryMap.value, SliceMap.value_of_none hcell]
      · rw [if_neg fun hc => hh hc.2]
    · simp only [hempty]
      have hbytes : (NVPayload.vdirect (t.storedName handle (names handle))
          (value.take nvTableMaxBytes)).bytes ≤ nvEntryDirectHdr + (names handle).length +
            (value.take nvTableMaxBytes).length + 2 := by
        show nvEntryDirectHdr + (t.storedName handle (names handle)).length + 1 +
          (value.take nvTableMaxBytes).length + 1 ≤ _
        omega
      obtain ⟨ok, t', halloc, hl', -, hof⟩ :=
        allocEntry_spec hs.layout hpos hlt hslot newEntry (by omega) hbytes
      refine ⟨_, halloc, ?_⟩
      cases ok with
      | false =>
        have hof : t'.entryOf = t.entryOf := hof
        exact .failed ⟨hl', hof ▸ hs.refs⟩ (fun h => by rw [hof]) newEntry
      | true =>
        exact .fresh hs hl' hof hstored hno newEntry
  · obtain ⟨-, hofs, hat⟩ := entryOf_eq_some hent
    have hready := slotReady_of_entry hent hslot
    rw [hofs]
    simp only [hat, bind_some]
    by_cases hmark : (!e.indirect && e.referenced) = true
    · rw [if_pos hmark]
      obtain ⟨stopped, t1, hf, hd, hno, -⟩ := foreach_makeDirect_all 0 handle hs
      rw [hf, bind_some]
      cases stopped with
      | true => exact ⟨_, rfl, .failed hd.sound hd.value false⟩
      | false =>
        have he1 : t1.entryOf handle = some e := hd.refEntry.trans hent
        obtain ⟨r, hr, hst⟩ := store_spec value hd.sound hpos he1 (hno rfl)
          (hready.of_same hd.same) hstored
        rw [hd.refOfs] at hr
        exact ⟨r, hr, hst.sound, fun h => by rw [hst.value, hd.value]⟩
    · rw [if_neg hmark, bind_some]
      have hno := hs.refs.not_refers fun x hx => by
        rw [hent] at hx
        cases hx
        cases hi : e.indirect <;> simp_all
      exact store_spec value hs hpos hent hno hready hstored

theorem Stored.reference {ref rofs rlen type : Nat} {name : List UInt8} {er : NVEntry}
    (hs : t.Sound names) (hl : t'.Layout) (hne : ref ≠ handle) (her : t.entryOf ref = some er)
    (hdir : er.indirect = false) (hof : t'.entryOf = update
      (update t.entryOf ref (some { er with referenced := true })) handle (some e))
    (hp : e.payload = .vindirect ref rofs rlen type name) (hlen : rofs + rlen < 2 ^ 32)
    (hname : name.length ≤ (names handle).length)
    (hno : ∀ k, ¬ (cells t.entryOf).Refers k handle) (newEntry : Bool) :
    Stored names t handle (slice (EntryMap.value t.entryOf ref) rofs rlen) ⟨true, newEntry, t'⟩ := by
  have hcells : cells
      (update t.entryOf ref (some { er with referenced := true })) =
        cells t.entryOf := cells_mark her
  refine ⟨⟨hl, hof ▸ ?_⟩, fun h => ?_⟩
  · exact (hs.refs.mark her hdir).update_indirect hp hlen hname hne (update_self ..) rfl
      hdir (hcells ▸ hno)
  · obtain ⟨v, hv⟩ := cell_own_iff.2 hdir
    have hown : cells t.entryOf ref = some (.own v) :=
      map_eq_some_iff.2 ⟨er, her, hv⟩
    have hcell : e.cell = .slice ref rofs rlen := cell_slice_iff.2 ⟨type, name, hp⟩
    show EntryMap.value t'.entryOf h = _
    rw [EntryMap.value, hof, EntryMap.cells_update, hcells, hcell]
    by_cases hh : h = handle
    · rw [if_pos ⟨rfl, hh⟩, hh, SliceMap.value_update_slice hne hown]
      rfl
    · rw [if_neg (fun hc => hh hc.2), SliceMap.value_update_of_ne hno _ hh]
      rfl

/-- The references to a handle have room to be made direct, if they need it. -/
def RoomForDirect (t : NVTable) (handle : Nat) : Prop :=
  ∀ e, t.entryOf handle = some e → e.indirect = false → e.referenced = true →
    t.ofsTableTop + t.used + t.directSpaceAt handle t.slots ≤ t.size

theorem addReference_spec {ref type rofs rlen : Nat} {er : NVEntry} (hs : t.Sound names)
    (hpos : 0 < handle) (hlt : handle < 2 ^ 16) (hne : ref ≠ handle) (her : t.entryOf ref = some er)
    (hdir : er.indirect = false) (hlen : rofs + rlen < 2 ^ 32) (hroom : t.RoomForDirect handle)
    (newEntry : Bool) :
    ∃ r, t.addReference handle (names handle) ref (some (t.slotOfs ref)) type rofs rlen newEntry =
        some r ∧ Stored names t handle (slice (value t.entryOf ref) rofs rlen) r := by
  obtain ⟨slot, hget, hslot⟩ := getEntry_spec hs.layout handle
  have hstored : (t.storedName handle (names handle)).length ≤ (names handle).length := by
    unfold storedName
    split <;> simp
  have hbytes : (NVPayload.vindirect ref rofs rlen type (t.storedName handle (names handle))).bytes ≤
        nvEntryIndirectHdr + (names handle).length + 1 := by
    show 21 + (t.storedName handle (names handle)).length + 1 ≤ 24 + (names handle).length + 1
    omega
  -- a fresh block for the reference, whatever the handle had before
  have hfresh : (∀ k, ¬ (cells t.entryOf).Refers k handle) → ∀ newEntry : Bool,
      ∃ r, ((t.allocEntry handle slot newEntry (nvEntryIndirectHdr + (names handle).length + 1)
          (.vindirect ref rofs rlen type (t.storedName handle (names handle)))).bind fun result =>
          if result.ok then
            ((some (t.slotOfs ref)).bind result.table.setReferenced).map
              fun self => (⟨true, newEntry, self⟩ : AddResult)
          else some result) = some r ∧
        Stored names t handle (slice (value t.entryOf ref) rofs rlen) r := by
    intro hno newEntry
    obtain ⟨ok, t1, halloc, hl1, hslots, hof1⟩ :=
      allocEntry_spec hs.layout hpos hlt hslot newEntry (by omega) hbytes
    rw [halloc, bind_some]
    cases ok with
    | false =>
      have hof1 : t1.entryOf = t.entryOf := hof1
      exact ⟨_, rfl, .failed ⟨hl1, hof1 ▸ hs.refs⟩ (fun h => by rw [hof1]) newEntry⟩
    | true =>
      rw [if_pos rfl] at hof1
      have her1 : t1.entryOf ref = some er := by rw [hof1, update_of_ne hne, her]
      obtain ⟨t2, href, hl2, -, -, hof2⟩ := setReferenced_spec hl1 her1
      rw [hslots ref hne] at href
      refine ⟨⟨true, newEntry, t2⟩, by simp [href], ?_⟩
      rw [hof1, update_comm (Ne.symm hne)] at hof2
      exact .reference hs hl2 hne her hdir hof2 rfl hlen hstored hno newEntry
  unfold addReference
  rw [hget]
  rcases hent : t.entryOf handle with - | e
  · have hno := hs.refs.not_refers fun x hx => by rw [hent] at hx; cases hx
    rw [entryOf_eq_none hs.layout hent, show entryAtOfs 0 = none from rfl]
    by_cases hempty : (!newEntry && (decide (rlen = 0) || (some (t.slotOfs ref)).isNone)) = true
    · simp only [hempty, if_true]
      refine ⟨_, rfl, hs, fun h => ?_⟩
      have hzero : rlen = 0 := by
        rw [isNone_some, Bool.or_false, Bool.and_eq_true, decide_eq_true_eq] at hempty
        exact hempty.2
      by_cases hh : h = handle
      · have hcell : cells t.entryOf handle = none := by
          rw [cells, hent]
          rfl
        rw [if_pos ⟨rfl, hh⟩, hh, hzero, value, SliceMap.value_of_none hcell, slice, take_zero]
      · rw [if_neg fun hc => hh hc.2]
    · simp only [hempty]
      exact hfresh hno newEntry
  · obtain ⟨-, hofs, hat⟩ := entryOf_eq_some hent
    rw [hofs]
    simp only [hat, bind_some]
    by_cases hmark : (!e.indirect && e.referenced) = true
    · rw [if_pos hmark]
      rw [Bool.and_eq_true, Bool.not_eq_true'] at hmark
      obtain ⟨stopped, t1, hf, hd, -, hend⟩ := foreach_makeDirect_all 0 handle hs
      rw [hf, hend (hroom e hent hmark.1 hmark.2)]
      exact ⟨_, rfl, .failed hd.sound hd.value false⟩
    · rw [if_neg hmark, bind_some]
      have hno := hs.refs.not_refers fun x hx => by
        rw [hent] at hx
        cases hx
        cases hi : e.indirect <;> simp_all
      by_cases hfits : e.allocLen ≥ nvEntryIndirectHdr + (names handle).length + 1
      · simp only [if_pos hfits]
        obtain ⟨t1, href, hl1, hsame1, hslots1, hof1⟩ := setReferenced_spec hs.layout her
        have he1 : t1.entryOf handle = some e := by
          rw [hof1, update_of_ne (Ne.symm hne), hent]
        obtain ⟨-, -, hat1⟩ := entryOf_eq_some he1
        have hname : (if e.indirect then e.payload.name
            else t1.storedName handle (names handle)).length ≤ (names handle).length := by
          split
          · exact hs.refs.nameLen handle e hent
          · unfold storedName
            split <;> simp
        have hbytes' : (NVPayload.vindirect ref rofs rlen type (if e.indirect then e.payload.name
            else t1.storedName handle (names handle))).bytes ≤ e.allocLen := by
          have hfits : e.allocLen ≥ 24 + (names handle).length + 1 := hfits
          show 21 + (if e.indirect then e.payload.name
            else t1.storedName handle (names handle)).length + 1 ≤ e.allocLen
          omega
        obtain ⟨t2, hset, hl2, -, -, -, hof2⟩ := setPayload_spec hl1 he1 hbytes'
        refine ⟨⟨true, false, t2⟩, ?_, ?_⟩
        · rw [hslots1] at hat1 hset
          simp only [bind_some, href, hat1, hset, map_some]
        · rw [hof1] at hof2
          exact .reference hs hl2 hne her hdir hof2 rfl hlen hname hno false
      · simp only [if_neg hfits]
        exact hfresh hno false

/-- **`nv_table_add_value_indirect`** stores a part of the value that the target has, or changes
nothing. -/
theorem addValueIndirect_spec {ref type rofs rlen : Nat} (hs : t.Sound names) (hpos : 0 < handle)
    (hlt : handle < 2 ^ 16) (hne : ref ≠ handle) (hentry : (t.getEntry ref).1.isSome = true)
    (hlen : rofs + rlen < 2 ^ 32) (hroom : t.RoomForDirect handle) (newEntry : Bool) :
    ∃ r, t.addValueIndirect handle (names handle) ref type rofs rlen newEntry = some r ∧
      Stored names t handle (slice (value t.entryOf ref) rofs rlen) r := by
  obtain ⟨slot, hget, -⟩ := getEntry_spec hs.layout ref
  rw [hget] at hentry
  obtain ⟨o, ho⟩ := isSome_iff_exists.1 hentry
  have ho : entryAtOfs (t.slotOfs ref) = some o := ho
  obtain ⟨rfl, hofs⟩ := entryAtOfs_eq_some ho
  obtain ⟨er, hat⟩ := isSome_iff_exists.1 (hs.layout.present ref hofs)
  have her : t.entryOf ref = some er := by rw [entryOf, ho, bind_some, hat]
  unfold addValueIndirect
  simp only [hget, ho, map_some, hat]
  obtain ⟨referenced, allocLen, payload⟩ := er
  cases payload with
  | vdirect name value => exact addReference_spec hs hpos hlt hne her rfl hlen hroom newEntry
  | vindirect r ofs len type' name =>
    simp only [resolveIndirect_eq hs her rfl, bind_some]
    generalize value t.entryOf ref = v
    -- the copied part is the slice
    have hslice : window v (if rofs > v.length then (0, 0)
        else (rofs, min ((rofs + rlen) % 2 ^ 32) v.length - rofs)).1
        ((if rofs > v.length then (0, 0)
          else (rofs, min ((rofs + rlen) % 2 ^ 32) v.length - rofs)).1 +
        (if rofs > v.length then (0, 0)
          else (rofs, min ((rofs + rlen) % 2 ^ 32) v.length - rofs)).2) = slice v rofs rlen := by
      split
      · next hgt =>
        rw [slice_of_lt hgt]
        exact window_self _ _
      · next hle =>
        unfold window slice
        rw [Nat.mod_eq_of_lt hlen, drop_take, take_eq_take_iff, length_drop]
        simp only
        omega
    rw [hslice]
    exact addValue_spec hs hpos hlt _ newEntry

end NVTable

end SyslogNg.NameValue
