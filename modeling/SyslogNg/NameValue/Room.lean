import SyslogNg.NameValue.Writes

/-!
# The room a call needs

`storeSpace` and `referenceSpace` are the bytes that a call takes at most, for a slot, for the
entries it makes direct and for its own. A call that returns `FALSE` for want of them leaves a
table that needs no more. A call for one handle keeps the values that other handles have of their own,
and gives no entry to a handle that has none (`KeepsAt`); what it changes otherwise are references, which
it may make direct. All this holds whatever the references of the table are like: it rests on the layout
alone (`Stands`).
-/

namespace SyslogNg.NameValue

open Lib List Function Option EntryMap
open Option (bind_some)

def NVPayload.value : NVPayload → List UInt8
  | .vdirect _ value => value
  | .vindirect .. => []

namespace NVTable

variable {max : Nat} {names : Nat → List UInt8} {t t' : NVTable} {handle ref : Nat} {e : NVEntry}
  {slot : Option Nat}

/-- The layout, names no longer than those of the handles, and values that `add_value` would not
cut. -/
structure Stands (names : Nat → List UInt8) (t : NVTable) : Prop where
  layout : t.LayoutIn (2 ^ 31 - 1)
  nameLen : ∀ h e, t.entryOf h = some e → e.payload.name.length ≤ (names h).length
  valueLen : ∀ h e, t.entryOf h = some e → e.payload.value.length ≤ nvTableMaxBytes

theorem Stands.of_entryOf (hs : t.Stands names) (hl : t'.LayoutIn (2 ^ 31 - 1))
    (hof : t'.entryOf = t.entryOf) : t'.Stands names :=
  ⟨hl, by rw [hof]; exact hs.nameLen, by rw [hof]; exact hs.valueLen⟩

theorem Stands.update (hs : t.Stands names) (hl : t'.LayoutIn (2 ^ 31 - 1))
    (hof : t'.entryOf = update t.entryOf handle (some e))
    (hname : e.payload.name.length ≤ (names handle).length)
    (hvalue : e.payload.value.length ≤ nvTableMaxBytes) : t'.Stands names := by
  have hall : ∀ h x, t'.entryOf h = some x → x.payload.name.length ≤ (names h).length ∧
      x.payload.value.length ≤ nvTableMaxBytes := by
    intro h x hx
    rw [hof] at hx
    by_cases hh : h = handle
    · rw [hh, update_self] at hx
      cases hx
      exact hh ▸ ⟨hname, hvalue⟩
    · rw [update_of_ne hh] at hx
      exact ⟨hs.nameLen h x hx, hs.valueLen h x hx⟩
  exact ⟨hl, fun h x hx => (hall h x hx).1, fun h x hx => (hall h x hx).2⟩

theorem storedName_le (t : NVTable) (handle : Nat) (name : List UInt8) :
    (t.storedName handle name).length ≤ name.length := by
  unfold storedName
  split <;> simp

/-! ## What a call leaves alone -/

structure KeepsAt (t t' : NVTable) (h : Nat) : Prop where
  absent : cells t.entryOf h = none → cells t'.entryOf h = none
  present : (cells t.entryOf h).isSome = true → (cells t'.entryOf h).isSome = true
  own : ∀ v, cells t.entryOf h = some (.own v) →
    cells t'.entryOf h = some (.own v)

theorem KeepsAt.of_cell {h : Nat} (hc : cells t'.entryOf h = cells t.entryOf h) :
    KeepsAt t t' h :=
  ⟨hc.trans, fun hs => by rwa [hc], fun _ => hc.trans⟩

theorem KeepsAt.refl {h : Nat} : KeepsAt t t h := .of_cell rfl

theorem KeepsAt.trans {t'' : NVTable} {h : Nat} (hk : KeepsAt t t' h) (hk' : KeepsAt t' t'' h) :
    KeepsAt t t'' h :=
  ⟨fun hc => hk'.absent (hk.absent hc), fun hc => hk'.present (hk.present hc),
    fun v hc => hk'.own v (hk.own v hc)⟩

theorem KeepsAt.of_update {h : Nat} (hof : t'.entryOf = update t.entryOf handle (some e))
    (hne : h ≠ handle) : KeepsAt t t' h :=
  .of_cell (by rw [cells, cells, hof, update_of_ne hne])

theorem KeepsAt.of_update_indirect {h : Nat} {e' : NVEntry} (he : t.entryOf handle = some e)
    (hi : e.indirect = true) (hof : t'.entryOf = update t.entryOf handle (some e')) :
    KeepsAt t t' h := by
  by_cases hne : h = handle
  · subst hne
    refine ⟨fun hc => ?_, fun _ => ?_, fun v hc => ?_⟩
    · rw [cells, he] at hc
      cases hc
    · rw [cells, hof, update_self]
      rfl
    · rw [cells, he, map_some, some_inj] at hc
      rw [cell_own_iff.1 ⟨v, hc⟩] at hi
      cases hi
  · exact .of_update hof hne

/-- What a call leaves: the other handles, and where it stores a value, that value. -/
structure Framed (handle : Nat) (stored : Option (List UInt8)) (t : NVTable) (r : AddResult) :
    Prop where
  other : ∀ h ≠ handle, KeepsAt t r.table h
  stored : ∀ v, stored = some v → r.ok = true → cells r.table.entryOf handle = some (.own v)
  failed : r.ok = false → cells r.table.entryOf handle = cells t.entryOf handle

variable {stored : Option (List UInt8)} {newEntry : Bool}

theorem Framed.of_failed (hof : t'.entryOf = t.entryOf) : Framed handle stored t ⟨false, newEntry, t'⟩ :=
  have hcells : cells t'.entryOf = cells t.entryOf := congrArg _ hof
  ⟨fun h _ => .of_cell (congrFun hcells h), by simp, fun _ => congrFun hcells handle⟩

theorem Framed.of_update {value : List UInt8}
    (hof : t'.entryOf = update t.entryOf handle (some e)) (hcell : e.cell = .own value) :
    Framed handle (some value) t ⟨true, newEntry, t'⟩ := by
  refine ⟨fun h hne => .of_update hof hne, fun v hv _ => ?_, by simp⟩
  cases hv
  rw [cells, hof, update_self]
  exact congrArg some hcell

theorem Framed.after {t1 : NVTable} {r : AddResult} (hkeep : ∀ h, KeepsAt t t1 h)
    (hsame : t1.entryOf handle = t.entryOf handle) (hr : Framed handle stored t1 r) :
    Framed handle stored t r :=
  ⟨fun h hne => (hkeep h).trans (hr.other h hne), hr.stored,
    fun hok => (hr.failed hok).trans (congrArg (Option.map NVEntry.cell) hsame)⟩

/-! ## Slots and blocks -/

/-- The free space between the offset table and the value area. -/
def free (t : NVTable) : Nat := t.size - (t.ofsTableTop + t.used)

/-- The space for a slot, if the handle needs a new one. -/
def slotSpace (t : NVTable) (handle : Nat) : Nat :=
  if t.numStaticEntries < handle ∧ ∀ d ∈ t.dynEntries, d.handle ≠ handle then 8 else 0

theorem slotSpace_ready (h : t.SlotReady handle slot) : t.slotSpace handle = 0 := by
  refine if_neg fun ⟨hgt, hnone⟩ => ?_
  obtain ⟨hs, hsome⟩ := h
  cases hs with
  | static hle => exact absurd hle (Nat.not_le_of_lt hgt)
  | @found pre post d _ hdyn hkey =>
    refine hnone d ?_ hkey
    rw [hdyn]
    simp
  | missing => exact hsome hgt rfl

theorem reserve_room (hl : t.LayoutIn max) (hlt : handle < 2 ^ 16) (hs : t.SlotOf handle slot) :
    (t.reserveTableEntry handle slot = none ∧ t.size < t.ofsTableTop + t.used + t.slotSpace handle) ∨
    ∃ slot' t', t.reserveTableEntry handle slot = some (slot', t') ∧ t'.LayoutIn max ∧
      t'.slotOfs = t.slotOfs ∧ t'.entryOf = t.entryOf ∧ t'.SlotReady handle slot' ∧
      t'.used = t.used ∧ t'.size = t.size ∧ t'.numStaticEntries = t.numStaticEntries ∧
      t'.ofsTableTop = t.ofsTableTop + t.slotSpace handle := by
  have hready : t.SlotReady handle slot → ∃ slot' t', t.reserveTableEntry handle slot =
      some (slot', t') ∧ t'.LayoutIn max ∧
      t'.slotOfs = t.slotOfs ∧ t'.entryOf = t.entryOf ∧ t'.SlotReady handle slot' ∧
      t'.used = t.used ∧ t'.size = t.size ∧ t'.numStaticEntries = t.numStaticEntries ∧
      t'.ofsTableTop = t.ofsTableTop + t.slotSpace handle := by
    intro hr
    exact ⟨slot, t, reserve_ready hr, hl, rfl, rfl, hr, rfl, rfl, rfl, by rw [slotSpace_ready hr]; rfl⟩
  cases hs with
  | static hle => exact .inr (hready ⟨.static hle, fun hgt => absurd hle (Nat.not_le_of_lt hgt)⟩)
  | found hgt hdyn hkey hsplit => exact .inr (hready ⟨.found hgt hdyn hkey hsplit, by simp⟩)
  | @missing pre post hgt hdyn hsplit =>
    have hspace : t.slotSpace handle = 8 := by
      refine if_pos ⟨hgt, fun d hd => ?_⟩
      rw [hdyn] at hd
      obtain hd | hd := mem_append.1 hd
      · exact (hsplit.below d hd).ne
      · exact (hsplit.above d hd).ne'
    rw [hspace]
    obtain hnone | ⟨slot', t', hres, hl', hslots, hof, hr⟩ :=
      reserve_spec hl hlt (.missing hgt hdyn hsplit)
    · refine .inl ⟨hnone, ?_⟩
      by_contra hroom
      unfold reserveTableEntry at hnone
      rw [if_pos ⟨rfl, hgt⟩, if_pos (by unfold allocCheck; simp; omega)] at hnone
      dsimp only at hnone
      split at hnone <;> cases hnone
    · refine .inr ⟨slot', t', hres, hl', hslots, hof, hr, ?_⟩
      -- the number of slots is what a found key would not change
      have hsearch : search (fun d : NVDynValue => d.handle % 2 ^ 16) t.dynEntries handle =
          .missing pre.length := by
        rw [search_congr (fun d hd => Nat.mod_eq_of_lt (hl.handles d hd).2) handle, hdyn]
        exact hsplit.search_missing (hdyn ▸ hl.sorted)
      have hcount : t.dynEntries.length + 1 < 2 ^ 16 := by
        have hsorted : SortedBy NVDynValue.handle (pre ++ (⟨handle, 0⟩ : NVDynValue) :: post) :=
          SplitsAt.sortedBy (x := (⟨handle, 0⟩ : NVDynValue)) hsplit (hdyn ▸ hl.sorted)
        have hall : ∀ d ∈ pre ++ (⟨handle, 0⟩ : NVDynValue) :: post,
            t.numStaticEntries + 1 ≤ d.handle ∧ d.handle < 2 ^ 16 := fun d hd => by
          obtain hd | hd := mem_append.1 hd
          · exact hl.handles d (hdyn ▸ mem_append_left _ hd)
          · obtain rfl | hd := mem_cons.1 hd
            · exact ⟨hgt, hlt⟩
            · exact hl.handles d (hdyn ▸ mem_append_right _ hd)
        have hlen := hsorted.length_le hall
        rw [hdyn]
        simp only [length_append, length_cons] at hlen ⊢
        omega
      unfold reserveTableEntry at hres
      rw [if_pos ⟨rfl, hgt⟩] at hres
      split at hres
      · simp only [hsearch, Nat.mod_eq_of_lt hcount] at hres
        cases hres
        refine ⟨rfl, rfl, rfl, ?_⟩
        unfold ofsTableTop numDynEntries numStaticEntries
        simp only [length_take, length_append, length_cons, length_drop]
        have hpre : pre.length ≤ t.dynEntries.length := by
          rw [hdyn, length_append]
          omega
        omega
      · cases hres

theorem allocEntry_room (hl : t.LayoutIn max) (hpos : 0 < handle) (hlt : handle < 2 ^ 16)
    (hs : t.SlotOf handle slot) (newEntry : Bool) {allocSize : Nat} {payload : NVPayload}
    (hsize : 0 < allocSize) (hbytes : payload.bytes ≤ allocSize) :
    ∃ ok t', t.allocEntry handle slot newEntry allocSize payload = some ⟨ok, newEntry, t'⟩ ∧
      t'.LayoutIn max ∧ t'.size = t.size ∧ (∀ h ≠ handle, t'.slotOfs h = t.slotOfs h) ∧
      (t'.entryOf = if ok then
          update t.entryOf handle (some ⟨false, nvTableBound allocSize, payload⟩)
        else t.entryOf) ∧
      (ok = false → t.size < t.ofsTableTop + t.used + (t.slotSpace handle + nvTableBound allocSize) ∧
        t'.used = t.used ∧ t'.ofsTableTop + t'.slotSpace handle = t.ofsTableTop + t.slotSpace handle) := by
  obtain ⟨hnone, hroom⟩ | ⟨slot1, t1, hres, hl1, hslots1, hof1, hr1, hused1, hsize1, -, htop1⟩ :=
    reserve_room hl hlt hs
  · refine ⟨false, t, ?_, hl, rfl, fun _ _ => rfl, rfl, fun _ => ⟨by omega, rfl, rfl⟩⟩
    unfold allocEntry
    rw [hnone]
  · have heq : t.allocEntry handle slot newEntry allocSize payload =
        t1.allocEntry handle slot1 newEntry allocSize payload := by
      unfold allocEntry
      rw [hres, reserve_ready hr1]
    have hspace1 := slotSpace_ready hr1
    rw [heq, ← hof1, ← hslots1]
    obtain ⟨hcheck, h⟩ | ⟨t', -, h, hl', hsame, -, hslots, hof⟩ :=
      allocEntry_ready hl1 hpos hr1 newEntry hsize hbytes
    · refine ⟨false, t1, h, hl1, hsize1, fun _ _ => rfl, rfl, fun _ => ⟨?_, hused1, by omega⟩⟩
      unfold allocCheck at hcheck
      simp only [decide_eq_false_iff_not, not_le] at hcheck
      omega
    · exact ⟨true, t', h, hl', hsame.size.trans hsize1, hslots, hof, by simp⟩

/-! ## Making direct -/

theorem getValueDepth_direct (hl : t.LayoutIn max) (he : t.entryOf handle = some e)
    {name value : List UInt8} (hp : e.payload = .vdirect name value) (depth : Nat) :
    t.getValueDepth (depth + 1) handle = some value := by
  obtain ⟨-, hofs, hat⟩ := entryOf_eq_some he
  obtain ⟨slot, hget, -⟩ := getEntry_spec hl handle
  rw [getValueDepth, hget]
  simp only [hofs, hat, bind_some, hp]

theorem resolveSlice_le (value : List UInt8) (ofs len : Nat) :
    (resolveSlice value ofs len).length ≤ value.length := by
  unfold resolveSlice window
  split
  · exact Nat.zero_le _
  · rw [length_drop, length_take]
    omega

variable {er : NVEntry}

theorem directSpaceOf_reference (hl : t.LayoutIn max) (hr : t.entryOf ref = some er)
    {rname value : List UInt8} (hpr : er.payload = .vdirect rname value) (he : t.entryOf handle = some e)
    {ofs len type : Nat} {name : List UInt8} (hp : e.payload = .vindirect ref ofs len type name) :
    t.resolveIndirect ref ofs len = some (resolveSlice value ofs len) ∧
      t.directSpaceOf ref handle = copySpace e.allocLen name (resolveSlice value ofs len) := by
  have hdepth : ∀ depth, t.getValueDepth (depth + 1) ref = some value :=
    getValueDepth_direct hl hr hpr
  obtain ⟨-, hofs, hat⟩ := entryOf_eq_some he
  obtain ⟨slot, hget, -⟩ := getEntry_spec hl handle
  have hvalue : t.getValue handle = some (resolveSlice value ofs len) := by
    rw [getValue, getValueDepth, hget]
    simp only [hofs, hat, bind_some, hp, hdepth, map_some]
  refine ⟨by rw [resolveIndirect, hdepth]; rfl, ?_⟩
  simp only [directSpaceOf, he, hp, if_true, hvalue, getD_some]

theorem directSpaceOf_congr (hl : t.LayoutIn max) (hl' : t'.LayoutIn max) (hr : t.entryOf ref = some er)
    (hdir : er.indirect = false) (href : t'.entryOf ref = t.entryOf ref)
    (he : t'.entryOf handle = t.entryOf handle) :
    t'.directSpaceOf ref handle = t.directSpaceOf ref handle := by
  obtain ⟨referenced, allocLen, payload⟩ := er
  cases payload with
  | vindirect => cases hdir
  | vdirect rname value =>
    cases hent : t.entryOf handle with
    | none => simp only [directSpaceOf, he, hent]
    | some e =>
      cases hp : e.payload with
      | vdirect => simp only [directSpaceOf, he, hent, hp]
      | vindirect r ofs len type name =>
        by_cases hrr : r = ref
        · subst hrr
          rw [(directSpaceOf_reference hl hr rfl hent hp).2,
            (directSpaceOf_reference hl' (href.trans hr) rfl (he.trans hent) hp).2]
        · simp only [directSpaceOf, he, hent, hp, if_neg hrr]

/-- The handle has an indirect entry. -/
def indirectAt (t : NVTable) (handle : Nat) : Bool :=
  match t.entryOf handle with
  | none => false
  | some e => e.indirect

structure Copied (names : Nat → List UInt8) (ref : Nat) (t t' : NVTable) : Prop where
  stands : t'.Stands names
  same : t.SameTables t'
  refEntry : t'.entryOf ref = t.entryOf ref
  refOfs : t'.slotOfs ref = t.slotOfs ref
  space : ∀ h, t'.directSpaceOf ref h ≤ t.directSpaceOf ref h
  direct : ∀ h, t.indirectAt h = false → t'.indirectAt h = false

theorem Copied.refl (hs : t.Stands names) : Copied names ref t t :=
  ⟨hs, .refl t, rfl, rfl, fun _ => Nat.le_refl _, fun _ h => h⟩

theorem Copied.trans {t1 t2 t3 : NVTable} (h1 : Copied names ref t1 t2) (h2 : Copied names ref t2 t3) :
    Copied names ref t1 t3 :=
  ⟨h2.stands, h1.same.trans h2.same, h2.refEntry.trans h1.refEntry, h2.refOfs.trans h1.refOfs,
    fun h => (h2.space h).trans (h1.space h), fun h hd => h2.direct h (h1.direct h hd)⟩

theorem makeDirect_room (depth : Nat) (hs : t.Stands names) (hr : t.entryOf ref = some er)
    (hdir : er.indirect = false) (hpos : 0 < handle) (he : t.entryOf handle = some e) :
    ∃ stopped t', makeDirect (fun t h n v => addValueDepth (depth + 1) t h n v false) ref t handle
        (t.slotOfs handle) = some (stopped, t') ∧ Copied names ref t t' ∧ (∀ h, KeepsAt t t' h) ∧
      t'.used + t'.directSpaceOf ref handle ≤ t.used + t.directSpaceOf ref handle ∧
      (stopped = true → t.size < t.ofsTableTop + t.used + t.directSpaceOf ref handle) ∧
      (stopped = false → t'.directSpaceOf ref handle = 0) := by
  obtain ⟨-, -, hat⟩ := entryOf_eq_some he
  have hskip : t.directSpaceOf ref handle = 0 → ∃ stopped t', some (false, t) = some (stopped, t') ∧
      Copied names ref t t' ∧ (∀ h, KeepsAt t t' h) ∧
      t'.used + t'.directSpaceOf ref handle ≤ t.used + t.directSpaceOf ref handle ∧
      (stopped = true → t.size < t.ofsTableTop + t.used + t.directSpaceOf ref handle) ∧
      (stopped = false → t'.directSpaceOf ref handle = 0) := fun hzero =>
    ⟨false, t, rfl, .refl hs, fun _ => .refl, Nat.le_refl _, by simp, fun _ => hzero⟩
  unfold makeDirect
  rw [hat, bind_some]
  cases hp : e.payload with
  | vdirect name value => exact hskip (by simp only [directSpaceOf, he, hp])
  | vindirect r ofs len type name =>
    by_cases hrr : r = ref
    swap
    · simp only [if_neg hrr]
      exact hskip (by simp only [directSpaceOf, he, hp, if_neg hrr])
    subst hrr
    have hi : e.indirect = true := by rw [NVEntry.indirect, hp]
    have hne : r ≠ handle := by
      rintro rfl
      rw [hr] at he
      cases he
      rw [hdir] at hi
      cases hi
    obtain ⟨rname, value, hpr⟩ : ∃ rname value, er.payload = .vdirect rname value := by
      obtain ⟨referenced, allocLen, payload⟩ := er
      cases payload with
      | vdirect rname value => exact ⟨rname, value, rfl⟩
      | vindirect => cases hdir
    obtain ⟨hresolve, hspace⟩ := directSpaceOf_reference hs.layout hr hpr he hp
    have hlen : (resolveSlice value ofs len).length ≤ nvTableMaxBytes := by
      have hvalue := hs.valueLen r er hr
      rw [hpr] at hvalue
      exact (resolveSlice_le value ofs len).trans hvalue
    simp only [if_true, hresolve, bind_some, hspace]
    obtain ⟨hfull, hadd⟩ | ⟨t', e', hadd, hl, hsame, hused, hslots, hof, hdir', hcell, hname⟩ :=
      addValue_over_indirect depth hs.layout hpos he hi name hlen
    · refine ⟨true, t, by rw [hadd]; rfl, .refl hs, fun _ => .refl, by rw [hspace], fun _ => ?_, by simp⟩
      unfold allocCheck at hfull
      simpa using hfull
    · have hstored : e'.payload.name.length ≤ (names handle).length := by
        have h1 := hs.nameLen handle e he
        rw [hp] at h1
        exact hname.trans h1
      have hshort : e'.payload.value.length ≤ nvTableMaxBytes := by
        unfold NVEntry.cell at hcell
        cases hpay : e'.payload with
        | vdirect n v =>
          rw [hpay] at hcell
          cases hcell
          exact hlen
        | vindirect => exact Nat.zero_le _
      have href : t'.entryOf r = t.entryOf r := by rw [hof, update_of_ne hne]
      have hzero : t'.directSpaceOf r handle = 0 := by
        unfold NVEntry.indirect at hdir'
        cases hpay : e'.payload with
        | vdirect => simp only [directSpaceOf, hof, update_self, hpay]
        | vindirect =>
          rw [hpay] at hdir'
          cases hdir'
      refine ⟨false, t', by rw [hadd]; rfl, ⟨hs.update hl hof hstored hshort, hsame, href, hslots r hne,
        ?_, ?_⟩, fun _ => .of_update_indirect he hi hof, by omega, by simp, fun _ => hzero⟩
      · intro h
        by_cases hh : h = handle
        · rw [hh, hzero]
          exact Nat.zero_le _
        · rw [directSpaceOf_congr hs.layout hl hr hdir href (by rw [hof, update_of_ne hh])]
      · intro h hd
        by_cases hh : h = handle
        · simp only [indirectAt, hof, hh, update_self, hdir']
        · simpa only [indirectAt, hof, update_of_ne hh] using hd

theorem sum_map_le {α : Type} {f g : α → Nat} {l : List α} {a : α} {n m : Nat} (ha : a ∈ l)
    (hle : ∀ x ∈ l, g x ≤ f x) (hat : n + g a ≤ m + f a) : n + (l.map g).sum ≤ m + (l.map f).sum := by
  induction l with
  | nil => cases ha
  | cons x l ih =>
    obtain ⟨hx, hl⟩ := forall_mem_cons.1 hle
    rw [map_cons, map_cons, sum_cons, sum_cons]
    obtain rfl | ha := mem_cons.1 ha
    · have := sum_le_sum hl
      omega
    · have := ih ha hl
      omega

/-- **The iteration** takes no more space than the copies need, and stops only for want of it. -/
theorem foreach_room (depth : Nat) (slots : List Slot) (hs : t.Stands names)
    (hr : t.entryOf ref = some er) (hdir : er.indirect = false) (hslots : ∀ slot ∈ slots, slot ∈ t.slots) :
    ∃ stopped t', foreachEntry
        (makeDirect (fun t h n v => addValueDepth (depth + 1) t h n v false) ref) slots t =
          some (stopped, t') ∧ Copied names ref t t' ∧ (∀ h, KeepsAt t t' h) ∧
      t'.used + t'.directSpaceAt ref t.slots ≤ t.used + t.directSpaceAt ref t.slots ∧
      (stopped = true → t.size < t.ofsTableTop + t.used + t.directSpaceAt ref t.slots) := by
  induction slots generalizing t with
  | nil => exact ⟨false, t, rfl, .refl hs, fun _ => .refl, Nat.le_refl _, by simp⟩
  | cons slot rest ih =>
    have hrest : ∀ slot ∈ rest, slot ∈ t.slots := fun s h => hslots s (mem_cons_of_mem _ h)
    have hmem := hslots slot mem_cons_self
    obtain ⟨hofs, hpos⟩ := slotAt_spec hs.layout hmem
    rcases hat : entryAtOfs (t.slotAt slot).2 with - | o
    · obtain ⟨stopped, t', hf, hrest⟩ := ih hs hr hrest
      exact ⟨stopped, t', by rw [foreachEntry_empty hat, hf], hrest⟩
    obtain ⟨rfl, hne⟩ := entryAtOfs_eq_some hat
    obtain ⟨e, he⟩ : ∃ e, t.entryOf (t.slotAt slot).1 = some e := by
      rw [hofs] at hne
      obtain ⟨e, he⟩ := isSome_iff_exists.1 (hs.layout.present _ hne)
      exact ⟨e, by rw [entryOf, entryAtOfs, if_neg hne, bind_some, he]⟩
    obtain ⟨stopped1, t1, hmake, hc1, hkeep1, hused1, hfull1, -⟩ :=
      makeDirect_room depth hs hr hdir hpos he
    rw [← hofs] at hmake
    have hall1 : t1.used + t1.directSpaceAt ref t.slots ≤ t.used + t.directSpaceAt ref t.slots := by
      unfold directSpaceAt
      refine sum_map_le hmem (fun s _ => ?_) ?_
      · rw [hc1.same.slotAt]
        exact hc1.space _
      · rw [hc1.same.slotAt]
        exact hused1
    cases stopped1 with
    | true =>
      refine ⟨true, t1, foreachEntry_stops hat hmake rest, hc1, hkeep1, hall1, fun _ => ?_⟩
      have hfull := hfull1 rfl
      have hone : t.directSpaceOf ref (t.slotAt slot).1 ≤ t.directSpaceAt ref t.slots := by
        unfold directSpaceAt
        exact single_le_sum (fun _ _ => Nat.zero_le _) _ (mem_map_of_mem hmem)
      omega
    | false =>
      have hr1 : t1.entryOf ref = some er := hc1.refEntry.trans hr
      obtain ⟨stopped, t', hf, hc, hkeep, hused, hfull⟩ :=
        ih hc1.stands hr1 (by rw [hc1.same.slots]; exact hrest)
      rw [hc1.same.slots] at hused hfull
      refine ⟨stopped, t', by rw [foreachEntry_continues hat hmake, hf], hc1.trans hc,
        fun h => (hkeep1 h).trans (hkeep h), by omega, ?_⟩
      intro hst
      have := hfull hst
      rw [hc1.same.size, hc1.same.ofsTableTop] at this
      omega

theorem foreach_room_all (depth : Nat) (hs : t.Stands names) (hr : t.entryOf ref = some e)
    (hdir : e.indirect = false) :
    ∃ stopped t', foreachEntry
        (makeDirect (fun t h n v => addValueDepth (depth + 1) t h n v false) ref) t.slots t =
          some (stopped, t') ∧ Copied names ref t t' ∧ (∀ h, KeepsAt t t' h) ∧
      t'.used + t'.directSpaceAt ref t'.slots ≤ t.used + t.directSpaceAt ref t.slots ∧
      (stopped = true → t.size < t.ofsTableTop + t.used + t.directSpaceAt ref t.slots) := by
  obtain ⟨stopped, t', hf, hc, hkeep, hused, hfull⟩ := foreach_room depth t.slots hs hr hdir fun _ h => h
  refine ⟨stopped, t', hf, hc, hkeep, ?_, hfull⟩
  rw [hc.same.slots]
  exact hused

/-! ## The calls -/

/-- The handle has a direct entry that is marked as referenced. -/
def marked (t : NVTable) (handle : Nat) : Bool :=
  match t.entryOf handle with
  | none => false
  | some e => !e.indirect && e.referenced

/-- The space for the values that a call has to make direct. -/
def directSpace (t : NVTable) (handle : Nat) : Nat :=
  if t.marked handle then t.directSpaceAt handle t.slots else 0

/-- The space for an entry: none if it fits in the block that the handle has. -/
def entrySpace (t : NVTable) (handle bytes : Nat) : Nat :=
  match t.entryOf handle with
  | none => t.slotSpace handle + nvTableBound bytes
  | some e => if e.allocLen ≥ bytes then 0 else nvTableBound bytes

/-- What `nv_table_add_value` needs. -/
def storeSpace (t : NVTable) (handle : Nat) (name value : List UInt8) : Nat :=
  t.directSpace handle +
    t.entrySpace handle (nvEntryDirectHdr + name.length + (value.take nvTableMaxBytes).length + 2)

/-- What `nv_table_add_value_indirect` needs for a reference. -/
def referenceSpace (t : NVTable) (handle : Nat) (name : List UInt8) : Nat :=
  t.directSpace handle + t.entrySpace handle (nvEntryIndirectHdr + name.length + 1)

/-- What a call for the handle that returns `r` leaves. Where it returns `FALSE` the room was too
small, and a table of the same need is left; without a mark only a slot can be new in it. -/
structure Served (names : Nat → List UInt8) (space : NVTable → Nat) (handle : Nat) (t : NVTable)
    (r : AddResult) : Prop where
  stands : r.table.Stands names
  size : r.table.size = t.size
  failed : r.ok = false → t.size < t.ofsTableTop + t.used + space t
  less : r.ok = false → r.table.ofsTableTop + r.table.used + space r.table ≤
    t.ofsTableTop + t.used + space t
  same : t.marked handle = false → r.ok = false → r.table.entryOf = t.entryOf ∧
    r.table.used = t.used ∧ r.table.ofsTableTop + r.table.slotSpace handle =
      t.ofsTableTop + t.slotSpace handle

theorem entrySpace_of_entry (he : t.entryOf handle = some e) (bytes : Nat) :
    t.entrySpace handle bytes = if e.allocLen ≥ bytes then 0 else nvTableBound bytes := by
  simp only [entrySpace, he]

theorem directSpace_of_entry (he : t.entryOf handle = some e) :
    t.directSpace handle =
      if (!e.indirect && e.referenced) = true then t.directSpaceAt handle t.slots else 0 := by
  simp only [directSpace, marked, he]

theorem overwrite_room {slot : Option Nat} {stored value : List UInt8} (hs : t.Stands names)
    (hpos : 0 < handle) (he : t.entryOf handle = some e) (hr : t.SlotReady handle slot)
    (hstored : stored.length ≤ (names handle).length) (hvalue : value.length ≤ nvTableMaxBytes) :
    ∃ r, (if e.allocLen ≥ value.length + nvEntryDirectHdr + (names handle).length + 2 then
        (t.overwrite (t.slotOfs handle) (names handle) value).map
          fun self => (⟨true, false, self⟩ : AddResult)
      else t.allocEntry handle slot false
        (nvEntryDirectHdr + (names handle).length + value.length + 2) (.vdirect stored value)) = some r ∧
      r.table.Stands names ∧ r.table.size = t.size ∧ (r.ok = false → r.table = t ∧
        t.size < t.ofsTableTop + t.used +
          t.entrySpace handle (nvEntryDirectHdr + (names handle).length + value.length + 2)) ∧
      Framed handle (some value) t r := by
  rw [entrySpace_of_entry he]
  by_cases hfits : e.allocLen ≥ value.length + nvEntryDirectHdr + (names handle).length + 2
  · rw [if_pos hfits]
    obtain ⟨-, -, hat⟩ := entryOf_eq_some he
    have hname : (if e.indirect then names handle else e.payload.name).length ≤
        (names handle).length := by
      split
      · exact Nat.le_refl _
      · exact hs.nameLen handle e he
    have hbytes : (NVPayload.vdirect (if e.indirect then names handle else e.payload.name)
        value).bytes ≤ e.allocLen := by
      show nvEntryDirectHdr + (if e.indirect then names handle else e.payload.name).length + 1 +
        value.length + 1 ≤ e.allocLen
      omega
    obtain ⟨t', hset, hl', hsame, -, -, hof⟩ := setPayload_spec hs.layout he hbytes
    refine ⟨⟨true, false, t'⟩, ?_, hs.update hl' hof hname hvalue, hsame.size, by simp,
      .of_update hof rfl⟩
    unfold overwrite
    rw [hat, bind_some, hset]
    rfl
  · rw [if_neg hfits]
    have hbytes : (NVPayload.vdirect stored value).bytes ≤
        nvEntryDirectHdr + (names handle).length + value.length + 2 := by
      show nvEntryDirectHdr + stored.length + 1 + value.length + 1 ≤ _
      omega
    obtain ⟨hcheck, hfail⟩ | ⟨t', -, hok, hl', hsame, -, -, hof⟩ :=
      allocEntry_ready hs.layout hpos hr false (by omega) hbytes
    · refine ⟨_, hfail, hs, rfl, fun _ => ⟨rfl, ?_⟩, .of_failed rfl⟩
      rw [if_neg (by omega)]
      unfold allocCheck at hcheck
      simpa using hcheck
    · exact ⟨_, hok, hs.update hl' hof hstored hvalue, hsame.size, by simp, .of_update hof rfl⟩

/-- **`nv_table_add_value`** returns `FALSE` only for want of room. -/
theorem addValue_room (hs : t.Stands names) (hpos : 0 < handle) (hlt : handle < 2 ^ 16)
    (value : List UInt8) (newEntry : Bool) :
    ∃ r, t.addValue handle (names handle) value newEntry = some r ∧
      Served names (storeSpace · handle (names handle) value) handle t r ∧
      (newEntry = true → Framed handle (some (value.take nvTableMaxBytes)) t r) := by
  obtain ⟨slot, hget, hslot⟩ := getEntry_spec hs.layout handle
  have hstored := storedName_le t handle (names handle)
  unfold addValue
  rw [addValueDepth, hget]
  have hshort : (value.take nvTableMaxBytes).length ≤ nvTableMaxBytes :=
    length_take_le _ _
  generalize hvalue : value.take nvTableMaxBytes = stored at hshort ⊢
  cases hent : t.entryOf handle with
  | none =>
    rw [entryOf_eq_none hs.layout hent, show entryAtOfs 0 = none from rfl]
    by_cases hempty : (!newEntry && stored.isEmpty) = true
    · simp only [hempty, if_true]
      exact ⟨_, rfl, ⟨hs, rfl, by simp, by simp, by simp⟩, fun hnew => by simp [hnew] at hempty⟩
    · simp only [hempty]
      have hbytes : (NVPayload.vdirect (t.storedName handle (names handle)) stored).bytes ≤
          nvEntryDirectHdr + (names handle).length + stored.length + 2 := by
        show nvEntryDirectHdr + (t.storedName handle (names handle)).length + 1 + stored.length + 1 ≤ _
        omega
      obtain ⟨ok, t', halloc, hl', hsize, -, hof, hfail⟩ :=
        allocEntry_room hs.layout hpos hlt hslot newEntry (by omega) hbytes
      have hspace : ∀ u : NVTable, u.entryOf handle = none → u.storeSpace handle (names handle) value =
          u.slotSpace handle +
            nvTableBound (nvEntryDirectHdr + (names handle).length + stored.length + 2) := by
        intro u hu
        simp [storeSpace, directSpace, marked, entrySpace, hu, hvalue]
      refine ⟨_, halloc, ⟨?_, hsize, ?_, ?_, ?_⟩, fun _ => ?_⟩
      · cases ok with
        | false => exact hs.of_entryOf hl' hof
        | true => exact hs.update hl' hof hstored hshort
      · intro hok
        rw [hspace t hent]
        exact (hfail hok).1
      · intro hok
        have hok : ok = false := hok
        subst hok
        obtain ⟨-, hused, htop⟩ := hfail rfl
        rw [hspace t hent, hspace t' (by rw [hof]; exact hent)]
        dsimp only
        omega
      · intro _ hok
        have hok : ok = false := hok
        subst hok
        exact ⟨hof, (hfail rfl).2⟩
      · cases ok with
        | false => exact .of_failed hof
        | true => exact .of_update hof rfl
  | some e =>
    obtain ⟨-, hofs, hat⟩ := entryOf_eq_some hent
    have hready := slotReady_of_entry hent hslot
    have hspace : t.storeSpace handle (names handle) value =
        t.directSpace handle +
          t.entrySpace handle (nvEntryDirectHdr + (names handle).length + stored.length + 2) := by
      rw [storeSpace, hvalue]
    rw [hofs]
    simp only [hat, bind_some]
    by_cases hmark : (!e.indirect && e.referenced) = true
    · rw [if_pos hmark]
      rw [directSpace_of_entry hent, if_pos hmark] at hspace
      have hdir : e.indirect = false := by
        rw [Bool.and_eq_true, Bool.not_eq_true'] at hmark
        exact hmark.1
      obtain ⟨stopped, t1, hf, hc, hkeep, hused, hfull⟩ := foreach_room_all 0 hs hent hdir
      have he1 : t1.entryOf handle = some e := hc.refEntry.trans hent
      have htop1 := hc.same.ofsTableTop
      have hspace1 : t1.storeSpace handle (names handle) value =
          t1.directSpaceAt handle t1.slots +
            t.entrySpace handle (nvEntryDirectHdr + (names handle).length + stored.length + 2) := by
        rw [storeSpace, hvalue, directSpace_of_entry he1, if_pos hmark, entrySpace_of_entry he1,
          entrySpace_of_entry hent]
      have hmarked : t.marked handle = true := by simp only [marked, hent, hmark]
      rw [hf, bind_some]
      cases stopped with
      | true =>
        refine ⟨_, rfl, ⟨hc.stands, hc.same.size, fun _ => ?_, fun _ => ?_, by simp [hmarked]⟩,
          fun _ => .after hkeep hc.refEntry (.of_failed rfl)⟩
        · have := hfull rfl
          omega
        · dsimp only
          omega
      | false =>
        obtain ⟨r, hr, hst, hsize, hfail, hframed⟩ := overwrite_room hc.stands hpos he1
          (hready.of_same hc.same) hstored hshort
        rw [hc.refOfs] at hr
        refine ⟨r, hr, ⟨hst, hsize.trans hc.same.size, fun hok => ?_, fun hok => ?_, by simp [hmarked]⟩,
          fun _ => .after hkeep hc.refEntry hframed⟩
        · obtain ⟨-, hlt⟩ := hfail hok
          rw [entrySpace_of_entry he1, ← entrySpace_of_entry hent, hc.same.size] at hlt
          omega
        · obtain ⟨htable, -⟩ := hfail hok
          rw [htable]
          omega
    · rw [if_neg hmark, bind_some]
      rw [directSpace_of_entry hent, if_neg hmark] at hspace
      obtain ⟨r, hr, hst, hsize, hfail, hframed⟩ := overwrite_room hs hpos hent hready hstored hshort
      refine ⟨r, hr, ⟨hst, hsize, fun hok => ?_, fun hok => ?_, fun _ hok => ?_⟩, fun _ => hframed⟩
      · obtain ⟨-, hlt⟩ := hfail hok
        omega
      · obtain ⟨htable, -⟩ := hfail hok
        rw [htable]
      · obtain ⟨htable, -⟩ := hfail hok
        rw [htable]
        exact ⟨rfl, rfl, rfl⟩

end NVTable

end SyslogNg.NameValue
