import SyslogNg.NameValue.Values

/-!
# Making references direct

Before the value of a referenced entry changes, `nv_table_make_direct` gives every entry that
refers to it a copy of its own. `foreach_makeDirect` is what that iteration does: no value changes,
whether it gets to the end or stops because the table is full; if it gets to the end, nothing
refers to the entry any more.
-/

namespace SyslogNg.NameValue

open Lib List Function Option EntryMap

namespace NVTable

variable {max : Nat} {names : Nat → List UInt8} {t t' : NVTable} {handle : Nat} {e : NVEntry}

theorem slotReady_of_entry {slot : Option Nat} (he : t.entryOf handle = some e)
    (hs : t.SlotOf handle slot) : t.SlotReady handle slot := by
  refine ⟨hs, fun hgt => ?_⟩
  cases hs with
  | static hle => exact absurd hle (Nat.not_le_of_lt hgt)
  | found => simp
  | missing hgt hdyn hsplit =>
    obtain ⟨hne, -, -⟩ := entryOf_eq_some he
    unfold slotOfs at hne
    rw [if_neg (by omega), if_neg (Nat.not_le_of_lt hgt), hdyn, hsplit.lookupBy_none] at hne
    exact absurd rfl hne

/-- The space that an indirect entry needs for a value of its own, if it does not fit in the
block that the entry has. -/
def copySpace (allocLen : Nat) (name value : List UInt8) : Nat :=
  if allocLen ≥ value.length + nvEntryDirectHdr + name.length + 2 then 0
  else nvTableBound (nvEntryDirectHdr + name.length + value.length + 2)

theorem addValue_over_indirect (depth : Nat) (hl : t.LayoutIn max) (hpos : 0 < handle)
    (he : t.entryOf handle = some e) (hi : e.indirect = true) (name : List UInt8) {value : List UInt8}
    (hv : value.length ≤ nvTableMaxBytes) :
    (t.allocCheck (copySpace e.allocLen name value) = false ∧
      addValueDepth (depth + 1) t handle name value false = some ⟨false, false, t⟩) ∨
    ∃ t' e', addValueDepth (depth + 1) t handle name value false = some ⟨true, false, t'⟩ ∧
      t'.LayoutIn max ∧ t.SameTables t' ∧ t'.used = t.used + copySpace e.allocLen name value ∧
      (∀ h ≠ handle, t'.slotOfs h = t.slotOfs h) ∧
      t'.entryOf = update t.entryOf handle (some e') ∧ e'.indirect = false ∧
      e'.cell = .own value ∧ e'.payload.name.length ≤ name.length := by
  obtain ⟨-, hofs, hat⟩ := entryOf_eq_some he
  obtain ⟨slot, hget, hslot⟩ := getEntry_spec hl handle
  rw [addValueDepth, take_of_length_le hv, hget, hofs]
  simp only [hat, bind_some, hi, Bool.not_true, Bool.false_and, if_false, Bool.false_eq_true]
  unfold copySpace
  by_cases hfits : e.allocLen ≥ value.length + nvEntryDirectHdr + name.length + 2
  · rw [if_pos hfits, if_pos hfits]
    right
    have hbytes : (NVPayload.vdirect name value).bytes ≤ e.allocLen := by
      show nvEntryDirectHdr + name.length + 1 + value.length + 1 ≤ e.allocLen
      omega
    obtain ⟨t', hset, hl', hsame, hused, hslots, hof⟩ := setPayload_spec hl he hbytes
    refine ⟨t', { e with payload := .vdirect name value }, ?_, hl', hsame, hused,
      fun h _ => by rw [hslots], hof, rfl, rfl, Nat.le_refl _⟩
    unfold overwrite
    rw [hat, bind_some, if_pos hi, hset]
    rfl
  · rw [if_neg hfits, if_neg hfits]
    have hstored : (t.storedName handle name).length ≤ name.length := by
      unfold storedName
      split <;> simp
    have hbytes : (NVPayload.vdirect (t.storedName handle name) value).bytes ≤
        nvEntryDirectHdr + name.length + value.length + 2 := by
      show nvEntryDirectHdr + (t.storedName handle name).length + 1 + value.length + 1 ≤
        nvEntryDirectHdr + name.length + value.length + 2
      omega
    rcases allocEntry_ready hl hpos (slotReady_of_entry he hslot) false (by omega) hbytes with
      hfail | ⟨t', -, hok, hl', hsame, hused, hslots, hof⟩
    · exact .inl hfail
    · exact .inr ⟨t', _, hok, hl', hsame, hused, hslots, hof, rfl, rfl, hstored⟩

/-! ## The iteration -/

theorem slotAt_spec (hl : t.LayoutIn max) {slot : Slot} (hs : slot ∈ t.slots) :
    (t.slotAt slot).2 = t.slotOfs (t.slotAt slot).1 ∧ 0 < (t.slotAt slot).1 := by
  unfold slots at hs
  rcases mem_append.1 hs with hs | hs
  · obtain ⟨i, hi, rfl⟩ := mem_map.1 hs
    have hi : i < t.numStaticEntries := mem_range.1 hi
    refine ⟨?_, Nat.succ_pos i⟩
    show (t.staticEntries[i]?).getD 0 = t.slotOfs (i + 1)
    unfold slotOfs
    rw [if_neg (Nat.succ_ne_zero i), if_pos (Nat.succ_le_of_lt hi)]
    rfl
  · obtain ⟨i, hi, rfl⟩ := mem_map.1 hs
    have hi : i < t.dynEntries.length := mem_range.1 hi
    have hmem : t.dynEntries[i] ∈ t.dynEntries := getElem_mem hi
    obtain ⟨hgt, -⟩ := hl.handles _ hmem
    have hat : t.slotAt (.dyn i) = (t.dynEntries[i].handle, t.dynEntries[i].ofs) := by
      simp [slotAt, hi]
    rw [hat]
    refine ⟨?_, Nat.zero_lt_of_lt hgt⟩
    unfold slotOfs
    rw [if_neg (Nat.ne_of_gt (Nat.zero_lt_of_lt hgt)), if_neg (Nat.not_le_of_lt hgt),
      hl.sorted.lookupBy_of_mem hmem]
    rfl

theorem exists_slot (he : t.entryOf handle = some e) : ∃ slot ∈ t.slots, (t.slotAt slot).1 = handle := by
  obtain ⟨hne, -, -⟩ := entryOf_eq_some he
  unfold slotOfs at hne
  by_cases h0 : handle = 0
  · rw [if_pos h0] at hne
    exact absurd rfl hne
  rw [if_neg h0] at hne
  unfold slots
  by_cases hst : handle ≤ t.numStaticEntries
  · refine ⟨.static (handle - 1), mem_append_left _ (mem_map.2
      ⟨handle - 1, mem_range.2 (by omega), rfl⟩), ?_⟩
    show handle - 1 + 1 = handle
    omega
  · rw [if_neg hst] at hne
    cases hrow : lookupBy NVDynValue.handle t.dynEntries handle with
    | none =>
      rw [hrow] at hne
      exact absurd rfl hne
    | some d =>
      obtain ⟨hmem, hkey⟩ := lookupBy_mem hrow
      obtain ⟨i, hi, hd⟩ := mem_iff_getElem.1 hmem
      refine ⟨.dyn i, mem_append_right _ (mem_map.2 ⟨i, mem_range.2 hi, rfl⟩), ?_⟩
      simp only [slotAt, getElem?_eq_getElem hi, map_some, getD_some, hd, hkey]

theorem SameTables.slots (h : t.SameTables t') : t'.slots = t.slots := by
  have hlen := congrArg List.length h.handles
  rw [length_map, length_map] at hlen
  unfold NVTable.slots numDynEntries
  rw [h.statics, hlen]

theorem SameTables.slotAt (h : t.SameTables t') (slot : Slot) : (t'.slotAt slot).1 = (t.slotAt slot).1 := by
  cases slot with
  | static i => rfl
  | dyn i =>
    have hmap := congrArg (fun l : List Nat => l[i]?) h.handles
    simp only [getElem?_map] at hmap
    show (Option.map NVDynValue.handle t'.dynEntries[i]?).getD 0 =
      (Option.map NVDynValue.handle t.dynEntries[i]?).getD 0
    rw [hmap]

/-- The space that the entry of a handle needs when `ref` is made direct. -/
def directSpaceOf (t : NVTable) (ref handle : Nat) : Nat :=
  match t.entryOf handle with
  | none => 0
  | some e =>
    match e.payload with
    | .vdirect _ _ => 0
    | .vindirect r _ _ _ name =>
      if r = ref then copySpace e.allocLen name ((t.getValue handle).getD []) else 0

/-- The space that the entries at these positions need when `ref` is made direct. -/
def directSpaceAt (t : NVTable) (ref : Nat) (slots : List Slot) : Nat :=
  (slots.map fun slot => t.directSpaceOf ref (t.slotAt slot).1).sum

structure Directed (names : Nat → List UInt8) (ref : Nat) (t t' : NVTable) : Prop where
  sound : t'.Sound names
  same : t.SameTables t'
  value : ∀ h, value t'.entryOf h = value t.entryOf h
  refEntry : t'.entryOf ref = t.entryOf ref
  refOfs : t'.slotOfs ref = t.slotOfs ref
  refers : ∀ h, (cells t'.entryOf).Refers h ref → (cells t.entryOf).Refers h ref
  space : ∀ h, t'.directSpaceOf ref h ≤ t.directSpaceOf ref h

theorem Directed.refl {ref : Nat} (hs : t.Sound names) : Directed names ref t t :=
  ⟨hs, .refl t, fun _ => rfl, rfl, rfl, fun _ => id, fun _ => Nat.le_refl _⟩

theorem Directed.trans {ref : Nat} {t1 t2 t3 : NVTable} (h1 : Directed names ref t1 t2)
    (h2 : Directed names ref t2 t3) : Directed names ref t1 t3 :=
  ⟨h2.sound, h1.same.trans h2.same, fun h => (h2.value h).trans (h1.value h), h2.refEntry.trans h1.refEntry,
    h2.refOfs.trans h1.refOfs, fun h hr => h1.refers h (h2.refers h hr), fun h => (h2.space h).trans (h1.space h)⟩

theorem value_length_le (hs : t.Sound names) (handle : Nat) :
    (value t.entryOf handle).length ≤ nvTableMaxBytes := by
  have hown : ∀ {h v}, cells t.entryOf h = some (.own v) →
      v.length ≤ nvTableMaxBytes := by
    intro h v hv
    obtain ⟨e, he, hcell⟩ := map_eq_some_iff.1 hv
    obtain ⟨h1, h2⟩ := hs.layout.value_le he
    unfold NVEntry.cell at hcell
    split at hcell <;> cases hcell
    next name hp =>
    rw [hp] at h1
    have h1 : nvEntryDirectHdr + name.length + 1 + v.length + 1 ≤ e.allocLen := h1
    omega
  rcases hc : cells t.entryOf handle with - | ⟨v⟩ | ⟨r, ofs, len⟩
  · rw [value, SliceMap.value_of_none hc]
    exact Nat.zero_le _
  · rw [value, SliceMap.value_of_own hc]
    exact hown hc
  · obtain ⟨v, hv⟩ := hs.refs.flat handle r ⟨ofs, len, hc⟩
    rw [value, SliceMap.value_of_slice hc, SliceMap.ownValue_of_own hv, slice,
      length_take, length_drop]
    have := hown hv
    omega

theorem directed_of_copy {ref ofs len type : Nat} {name : List UInt8} {e' : NVEntry} (hs : t.Sound names)
    (he : t.entryOf handle = some e) (hp : e.payload = .vindirect ref ofs len type name) (hl : t'.Layout)
    (hsame : t.SameTables t') (hslots : ∀ h ≠ handle, t'.slotOfs h = t.slotOfs h)
    (hof : t'.entryOf = update t.entryOf handle (some e')) (hdir : e'.indirect = false)
    (hcell : e'.cell = .own (value t.entryOf handle))
    (hname : e'.payload.name.length ≤ name.length) :
    Directed names ref t t' ∧ ¬ (cells t'.entryOf).Refers handle ref := by
  have href : (cells t.entryOf).Refers handle ref :=
    refers_iff.2 ⟨e, ofs, len, type, name, he, hp⟩
  have hi : e.indirect = true := by rw [NVEntry.indirect, hp]
  have hne : ref ≠ handle := by
    rintro rfl
    obtain ⟨-, e1, he1, -, hdir1⟩ := hs.refs.refs ref e ref ofs len type name he hp
    rw [he] at he1
    cases he1
    rw [hi] at hdir1
    cases hdir1
  have hno : ∀ k, ¬ (cells t.entryOf).Refers k handle := by
    refine hs.refs.not_refers fun x hx => ?_
    rw [he] at hx
    cases hx
    exact .inl hi
  have hlen : e'.payload.name.length ≤ (names handle).length := by
    have h1 := hs.refs.nameLen handle e he
    rw [hp] at h1
    exact hname.trans h1
  have hsound : t'.Sound names := ⟨hl, hof ▸ hs.refs.update_direct hdir hlen (.inr hno)⟩
  have hvalue : ∀ h, value t'.entryOf h = value t.entryOf h := by
    intro h
    rw [value, hof, cells_update, hcell]
    exact SliceMap.value_update_copy hs.refs.flat href h
  have hrefers : ∀ h, (cells t'.entryOf).Refers h ref →
      h ≠ handle ∧ (cells t.entryOf).Refers h ref := by
    intro h hr
    rw [hof, cells_update, hcell] at hr
    exact SliceMap.refers_update_own hr
  refine ⟨⟨hsound, hsame, hvalue, ?_, hslots ref hne, fun h hr => (hrefers h hr).2, ?_⟩,
    fun hr => (hrefers handle hr).1 rfl⟩
  · rw [hof, update_of_ne hne]
  · intro h
    unfold directSpaceOf
    rw [getValue_eq hs, getValue_eq hsound, hvalue, hof]
    by_cases hh : h = handle
    · rw [hh, update_self]
      unfold NVEntry.indirect at hdir
      cases hpay : e'.payload with
      | vdirect => simp [hpay]
      | vindirect => rw [hpay] at hdir; cases hdir
    · rw [update_of_ne hh]

theorem makeDirect_spec (depth ref : Nat) (hs : t.Sound names) (hpos : 0 < handle)
    (he : t.entryOf handle = some e) :
    ∃ stopped t', makeDirect (fun t h n v => addValueDepth (depth + 1) t h n v false) ref t handle
        (t.slotOfs handle) = some (stopped, t') ∧ Directed names ref t t' ∧
      (stopped = false → ¬ (cells t'.entryOf).Refers handle ref ∧
        t'.used = t.used + t.directSpaceOf ref handle) ∧
      (t.allocCheck (t.directSpaceOf ref handle) = true → stopped = false) := by
  obtain ⟨-, -, hat⟩ := entryOf_eq_some he
  have hskip : ¬ (cells t.entryOf).Refers handle ref → t.directSpaceOf ref handle = 0 →
      ∃ stopped t', some (false, t) = some (stopped, t') ∧ Directed names ref t t' ∧
        (stopped = false → ¬ (cells t'.entryOf).Refers handle ref ∧
          t'.used = t.used + t.directSpaceOf ref handle) ∧
        (t.allocCheck (t.directSpaceOf ref handle) = true → stopped = false) := by
    intro hno hzero
    exact ⟨false, t, rfl, .refl hs, fun _ => ⟨hno, by rw [hzero, Nat.add_zero]⟩, fun _ => rfl⟩
  unfold makeDirect
  rw [hat, bind_some]
  cases hp : e.payload with
  | vdirect name value =>
    refine hskip ?_ (by simp only [directSpaceOf, he, hp])
    intro hr
    obtain ⟨x, ofs, len, type, name, hx, hpx⟩ := refers_iff.1 hr
    rw [he] at hx
    cases hx
    rw [hp] at hpx
    cases hpx
  | vindirect r ofs len type name =>
    by_cases hr : r = ref
    swap
    · simp only [if_neg hr]
      refine hskip ?_ (by simp only [directSpaceOf, he, hp, if_neg hr])
      intro href
      obtain ⟨x, ofs, len, type, name, hx, hpx⟩ := refers_iff.1 href
      rw [he] at hx
      cases hx
      rw [hp] at hpx
      cases hpx
      exact hr rfl
    subst hr
    have hi : e.indirect = true := by rw [NVEntry.indirect, hp]
    have hspace : t.directSpaceOf r handle =
        copySpace e.allocLen name (value t.entryOf handle) := by
      simp only [directSpaceOf, he, hp, if_true, getValue_eq hs, getD_some]
    simp only [if_true, resolveIndirect_eq hs he hp, bind_some, hspace]
    rcases addValue_over_indirect depth hs.layout hpos he hi name (value_length_le hs handle) with
      ⟨hfull, hadd⟩ | ⟨t', e', hadd, hl, hsame, hused, hslots, hof, hdir, hcell, hname⟩
    · refine ⟨true, t, by rw [hadd]; rfl, .refl hs, by simp, ?_⟩
      rw [hfull]
      simp
    · obtain ⟨hd, hno⟩ := directed_of_copy hs he hp hl hsame hslots hof hdir hcell hname
      exact ⟨false, t', by rw [hadd]; rfl, hd, fun _ => ⟨hno, hused⟩, fun _ => rfl⟩

variable {func : NVTable → Nat → Nat → Option (Bool × NVTable)}

theorem foreachEntry_empty {slot : Slot} (h : entryAtOfs (t.slotAt slot).2 = none) (rest : List Slot) :
    foreachEntry func (slot :: rest) t = foreachEntry func rest t := by
  rw [foreachEntry]
  simp only [h]

theorem foreachEntry_stops {slot : Slot} {ofs : Nat} (h : entryAtOfs (t.slotAt slot).2 = some ofs)
    (hf : func t (t.slotAt slot).1 ofs = some (true, t')) (rest : List Slot) :
    foreachEntry func (slot :: rest) t = some (true, t') := by
  rw [foreachEntry]
  simp only [h, hf, bind_some]

theorem foreachEntry_continues {slot : Slot} {ofs : Nat} (h : entryAtOfs (t.slotAt slot).2 = some ofs)
    (hf : func t (t.slotAt slot).1 ofs = some (false, t')) (rest : List Slot) :
    foreachEntry func (slot :: rest) t = foreachEntry func rest t' := by
  rw [foreachEntry]
  simp only [h, hf, bind_some]

/-- **The iteration** over any of the positions. -/
theorem foreach_makeDirect (depth ref : Nat) (slots : List Slot) (hs : t.Sound names)
    (hslots : ∀ slot ∈ slots, slot ∈ t.slots) :
    ∃ stopped t', foreachEntry
        (makeDirect (fun t h n v => addValueDepth (depth + 1) t h n v false) ref) slots t =
          some (stopped, t') ∧ Directed names ref t t' ∧ (stopped = false → ∀ slot ∈ slots,
        ¬ (cells t'.entryOf).Refers (t.slotAt slot).1 ref) ∧
      (t.ofsTableTop + t.used + t.directSpaceAt ref slots ≤ t.size → stopped = false) := by
  induction slots generalizing t with
  | nil => exact ⟨false, t, rfl, .refl hs, fun _ slot h => absurd h (by simp), fun _ => rfl⟩
  | cons slot rest ih =>
    have hrest : ∀ slot ∈ rest, slot ∈ t.slots := fun s h => hslots s (mem_cons_of_mem _ h)
    obtain ⟨hofs, hpos⟩ := slotAt_spec hs.layout (hslots slot mem_cons_self)
    have hsum : t.directSpaceAt ref (slot :: rest) =
        t.directSpaceOf ref (t.slotAt slot).1 + t.directSpaceAt ref rest := by
      simp [directSpaceAt]
    rcases hat : entryAtOfs (t.slotAt slot).2 with - | o
    · -- an empty slot
      have hnone : t.entryOf (t.slotAt slot).1 = none := by
        rw [entryOf, ← hofs, hat]
        rfl
      obtain ⟨stopped, t', hf, hd, hno, hroom⟩ := ih hs hrest
      refine ⟨stopped, t', by rw [foreachEntry_empty hat, hf], hd, ?_,
        fun hle => hroom (by omega)⟩
      intro hst s hmem
      rcases mem_cons.1 hmem with rfl | hmem
      · intro hr
        obtain ⟨x, ofs, len, type, name, hx, -⟩ := refers_iff.1 (hd.refers _ hr)
        rw [hnone] at hx
        cases hx
      · exact hno hst s hmem
    · obtain ⟨rfl, hne⟩ := entryAtOfs_eq_some hat
      obtain ⟨e, he⟩ : ∃ e, t.entryOf (t.slotAt slot).1 = some e := by
        rw [hofs] at hne
        obtain ⟨e, he⟩ := isSome_iff_exists.1 (hs.layout.present _ hne)
        exact ⟨e, by rw [entryOf, entryAtOfs, if_neg hne, bind_some, he]⟩
      obtain ⟨stopped1, t1, hmake, hd1, hno1, hroom1⟩ := makeDirect_spec depth ref hs hpos he
      rw [← hofs] at hmake
      cases stopped1 with
      | true =>
        refine ⟨true, t1, foreachEntry_stops hat hmake rest, hd1, by simp, ?_⟩
        intro hle
        refine hroom1 ?_
        unfold allocCheck
        simp only [decide_eq_true_eq]
        omega
      | false =>
        obtain ⟨hnot, hused⟩ := hno1 rfl
        obtain ⟨stopped, t', hf, hd, hno, hroom⟩ :=
          ih hd1.sound (by rw [hd1.same.slots]; exact hrest)
        refine ⟨stopped, t', by rw [foreachEntry_continues hat hmake, hf], hd1.trans hd, ?_, ?_⟩
        · intro hst s hmem
          rcases mem_cons.1 hmem with rfl | hmem
          · exact fun hr => hnot (hd.refers _ hr)
          · rw [← hd1.same.slotAt]
            exact hno hst s hmem
        · intro hle
          apply hroom
          have hless : t1.directSpaceAt ref rest ≤ t.directSpaceAt ref rest := by
            unfold directSpaceAt
            apply sum_le_sum
            intro s _
            rw [hd1.same.slotAt]
            exact hd1.space _
          rw [hd1.same.ofsTableTop, hd1.same.size]
          omega

theorem foreach_makeDirect_all (depth ref : Nat) (hs : t.Sound names) :
    ∃ stopped t', foreachEntry
        (makeDirect (fun t h n v => addValueDepth (depth + 1) t h n v false) ref) t.slots t =
          some (stopped, t') ∧ Directed names ref t t' ∧
      (stopped = false → ∀ h, ¬ (cells t'.entryOf).Refers h ref) ∧
      (t.ofsTableTop + t.used + t.directSpaceAt ref t.slots ≤ t.size → stopped = false) := by
  obtain ⟨stopped, t', hf, hd, hno, hroom⟩ := foreach_makeDirect depth ref t.slots hs fun _ h => h
  refine ⟨stopped, t', hf, hd, ?_, hroom⟩
  intro hst h hr
  obtain ⟨e, _, _, _, _, he, -⟩ := refers_iff.1 (hd.refers h hr)
  obtain ⟨slot, hmem, rfl⟩ := exists_slot he
  exact hno hst slot hmem hr

end NVTable

end SyslogNg.NameValue
