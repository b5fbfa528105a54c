import SyslogNg.Lib.SliceMap
import SyslogNg.NameValue.NVTable

/-!
# The layout of a table

`LayoutIn` is what every operation keeps of the memory of a table: the offset tables and the entry
area fit in `size`, the dynamic slots are sorted, every slot with an offset has a block of its own,
the blocks do not overlap, every payload fits in its block, and the table has one owner. The operations are then described
by what they do to `entryOf`, the entry of each handle.
-/

namespace SyslogNg.NameValue

open Lib List Function Option
open Option (bind_some)
open Function (update_of_ne update_self)

namespace NVTable

variable {max : Nat} {t t' : NVTable} {handle h : Nat} {slot : Option Nat}

/-- The offset of a handle's entry; zero if it has none. -/
def slotOfs (t : NVTable) (handle : Nat) : Nat :=
  if handle = 0 then 0
  else if handle ≤ t.numStaticEntries then (t.staticEntries[handle - 1]?).getD 0
  else ((lookupBy NVDynValue.handle t.dynEntries handle).map NVDynValue.ofs).getD 0

def entryOf (t : NVTable) (handle : Nat) : Option NVEntry :=
  (entryAtOfs (t.slotOfs handle)).bind t.entries

structure LayoutIn (max : Nat) (t : NVTable) : Prop where
  statics : t.numStaticEntries < 2 ^ 8
  sorted : SortedBy NVDynValue.handle t.dynEntries
  handles : ∀ d ∈ t.dynEntries, t.numStaticEntries < d.handle ∧ d.handle < 2 ^ 16
  room : t.ofsTableTop + t.used ≤ t.size
  size_le : t.size ≤ max
  present : ∀ h, t.slotOfs h ≠ 0 → (t.entries (t.slotOfs h)).isSome
  distinct : ∀ h h', t.slotOfs h ≠ 0 → t.slotOfs h = t.slotOfs h' → h = h'
  block : ∀ o e, t.entries o = some e →
    o ≤ t.used ∧ 0 < e.allocLen ∧ e.allocLen ≤ o ∧ e.payload.bytes ≤ e.allocLen
  apart : ∀ o o' e', (t.entries o).isSome → t.entries o' = some e' → o < o' →
    o + e'.allocLen ≤ o'
  owned : t.refCnt = 1 ∧ t.borrowed = false

abbrev Layout (t : NVTable) : Prop := t.LayoutIn nvTableMaxBytes

/-- The slot of a handle, as `get_entry` finds it. -/
inductive SlotOf (t : NVTable) (handle : Nat) : Option Nat → Prop where
  | static : handle ≤ t.numStaticEntries → SlotOf t handle none
  | found {pre post : List NVDynValue} {d : NVDynValue} : t.numStaticEntries < handle →
      t.dynEntries = pre ++ d :: post → d.handle = handle →
      SplitsAt NVDynValue.handle handle pre post → SlotOf t handle (some pre.length)
  | missing {pre post : List NVDynValue} : t.numStaticEntries < handle →
      t.dynEntries = pre ++ post → SplitsAt NVDynValue.handle handle pre post →
      SlotOf t handle none

def SlotReady (t : NVTable) (handle : Nat) (slot : Option Nat) : Prop :=
  t.SlotOf handle slot ∧ (t.numStaticEntries < handle → slot ≠ none)

theorem entryAtOfs_eq_some {ofs o : Nat} (h : entryAtOfs ofs = some o) : o = ofs ∧ ofs ≠ 0 := by
  unfold entryAtOfs at h
  split at h
  · cases h
  · next hne =>
    cases h
    exact ⟨rfl, hne⟩

theorem getEntry_spec (hl : t.LayoutIn max) (handle : Nat) :
    ∃ slot, t.getEntry handle = (entryAtOfs (t.slotOfs handle), slot) ∧ t.SlotOf handle slot := by
  unfold getEntry slotOfs
  by_cases h0 : handle = 0
  · rw [if_pos h0, if_pos h0]
    exact ⟨none, rfl, .static (h0 ▸ Nat.zero_le _)⟩
  rw [if_neg h0, if_neg h0]
  by_cases hs : handle ≤ t.numStaticEntries
  · rw [if_pos hs, if_pos hs]
    exact ⟨none, rfl, .static hs⟩
  rw [if_neg hs, if_neg hs]
  have hlt := Nat.lt_of_not_le hs
  unfold getEntrySlow
  rcases search_cases hl.sorted handle with ⟨pre, d, post, hres, hdyn, hkey, hsplit⟩ |
    ⟨pre, post, hres, hdyn, hsplit⟩
  · refine ⟨some pre.length, ?_, .found hlt hdyn hkey hsplit⟩
    have hat : t.dynEntries[pre.length]? = some d := by simp [hdyn]
    have hrow : lookupBy NVDynValue.handle t.dynEntries handle = some d := by
      rw [hdyn, SplitsAt.lookupBy (hkey ▸ hsplit), if_pos hkey]
    rw [hres, hrow]
    simp only [hat]
  · refine ⟨none, ?_, .missing hlt hdyn hsplit⟩
    have hrow : lookupBy NVDynValue.handle t.dynEntries handle = none := by
      rw [hdyn, hsplit.lookupBy_none]
    rw [hres, hrow]
    rfl

variable {e : NVEntry}

theorem entryOf_eq_some (he : t.entryOf handle = some e) :
    t.slotOfs handle ≠ 0 ∧ entryAtOfs (t.slotOfs handle) = some (t.slotOfs handle) ∧
      t.entries (t.slotOfs handle) = some e := by
  obtain ⟨o, ho, he⟩ := bind_eq_some_iff.1 he
  obtain ⟨rfl, hne⟩ := entryAtOfs_eq_some ho
  exact ⟨hne, ho, he⟩

theorem entryOf_eq_none (hl : t.LayoutIn max) (he : t.entryOf handle = none) : t.slotOfs handle = 0 := by
  by_contra hne
  obtain ⟨e, hsome⟩ := isSome_iff_exists.1 (hl.present handle hne)
  rw [entryOf, entryAtOfs, if_neg hne, bind_some, hsome] at he
  cases he

/-! ## What the writes do -/

/-- The header and the offset tables, but for the offsets. -/
structure SameTables (t t' : NVTable) : Prop where
  size : t'.size = t.size
  statics : t'.numStaticEntries = t.numStaticEntries
  handles : t'.dynEntries.map NVDynValue.handle = t.dynEntries.map NVDynValue.handle
  refCnt : t'.refCnt = t.refCnt
  borrowed : t'.borrowed = t.borrowed

theorem SameTables.refl (t : NVTable) : t.SameTables t := ⟨rfl, rfl, rfl, rfl, rfl⟩

theorem SameTables.trans {t1 t2 t3 : NVTable} (h1 : t1.SameTables t2) (h2 : t2.SameTables t3) :
    t1.SameTables t3 :=
  ⟨h2.size.trans h1.size, h2.statics.trans h1.statics, h2.handles.trans h1.handles,
    h2.refCnt.trans h1.refCnt, h2.borrowed.trans h1.borrowed⟩

theorem entryOf_write (hl : t.LayoutIn max) {e e' : NVEntry} (he : t.entryOf handle = some e)
    (hsize : t'.size = t.size) (hused : t'.used = t.used)
    (howner : t'.refCnt = t.refCnt ∧ t'.borrowed = t.borrowed)
    (hstatic : t'.staticEntries = t.staticEntries) (hdyn : t'.dynEntries = t.dynEntries)
    (hentries : t'.entries = update t.entries (t.slotOfs handle) (some e'))
    (halloc : e'.allocLen = e.allocLen) (hbytes : e'.payload.bytes ≤ e'.allocLen) :
    t'.LayoutIn max ∧ t'.entryOf = update t.entryOf handle (some e') := by
  obtain ⟨hne, -, hat⟩ := entryOf_eq_some he
  have hslot : t'.slotOfs = t.slotOfs := by
    funext h
    unfold slotOfs numStaticEntries
    rw [hstatic, hdyn]
  have hns : t'.numStaticEntries = t.numStaticEntries := by
    rw [numStaticEntries, hstatic]
    rfl
  have hsome : ∀ o, (t'.entries o).isSome = (t.entries o).isSome := by
    intro o
    rw [hentries]
    by_cases ho : o = t.slotOfs handle
    · rw [ho, update_self, hat]
      rfl
    · rw [update_of_ne ho]
  refine ⟨⟨hns ▸ hl.statics, hdyn ▸ hl.sorted, ?_, ?_, hsize ▸ hl.size_le, ?_, ?_, ?_, ?_,
    howner.1.trans hl.owned.1, howner.2.trans hl.owned.2⟩, ?_⟩
  · rw [hdyn, hns]
    exact hl.handles
  · have hroom := hl.room
    unfold ofsTableTop numDynEntries at hroom ⊢
    rw [hns, hdyn, hused, hsize]
    exact hroom
  · intro h
    rw [hslot, hsome]
    exact hl.present h
  · rw [hslot]
    exact hl.distinct
  · intro o x hx
    rw [hentries] at hx
    rw [hused]
    by_cases ho : o = t.slotOfs handle
    · rw [ho, update_self] at hx
      cases hx
      obtain ⟨h1, h2, h3, -⟩ := hl.block _ _ hat
      exact ⟨ho ▸ h1, halloc ▸ h2, ho ▸ halloc ▸ h3, hbytes⟩
    · rw [update_of_ne ho] at hx
      exact hl.block o x hx
  · intro o o' x hox hx hlt
    rw [hsome] at hox
    rw [hentries] at hx
    by_cases ho : o' = t.slotOfs handle
    · rw [ho, update_self] at hx
      cases hx
      rw [halloc]
      exact ho ▸ hl.apart o _ e hox hat (ho ▸ hlt)
    · rw [update_of_ne ho] at hx
      exact hl.apart o o' x hox hx hlt
  · funext h
    unfold entryOf
    rw [hslot]
    by_cases hh : h = handle
    · rw [hh, update_self, entryAtOfs, if_neg hne, bind_some, hentries, update_self]
    · rw [update_of_ne hh]
      rcases ho : entryAtOfs (t.slotOfs h) with - | o
      · rfl
      · obtain ⟨rfl, hno⟩ := entryAtOfs_eq_some ho
        have hother : t.slotOfs h ≠ t.slotOfs handle := fun hc => hh (hl.distinct h handle hno hc)
        rw [bind_some, bind_some, hentries, update_of_ne hother]

theorem entryOf_install (hl : t.LayoutIn max) (hsame : t.SameTables t')
    (hused : t'.used = t.used + e.allocLen) (hpos : 0 < e.allocLen)
    (hfits : t.ofsTableTop + t.used + e.allocLen ≤ t.size) (hbytes : e.payload.bytes ≤ e.allocLen)
    (hslots : ∀ h, t'.slotOfs h = if h = handle then t'.used else t.slotOfs h)
    (hentries : t'.entries = update t.entries t'.used (some e)) :
    t'.LayoutIn max ∧ t'.entryOf = update t.entryOf handle (some e) := by
  obtain ⟨hsize, hstatics, hdyns, hrefs, hborrowed⟩ := hsame
  have hold : ∀ {o x}, t.entries o = some x → o ≠ t'.used := by
    intro o x hx
    have := (hl.block o x hx).1
    omega
  have hslot_le : ∀ h, t.slotOfs h ≠ 0 → t.slotOfs h ≠ t'.used := by
    intro h hne
    obtain ⟨x, hx⟩ := isSome_iff_exists.1 (hl.present h hne)
    exact hold hx
  have hlen : t'.dynEntries.length = t.dynEntries.length := by
    have := congrArg List.length hdyns
    simpa using this
  refine ⟨⟨hstatics ▸ hl.statics, ?_, ?_, ?_, hsize ▸ hl.size_le, ?_, ?_, ?_, ?_,
    hrefs.trans hl.owned.1, hborrowed.trans hl.owned.2⟩, ?_⟩
  · have hs := hl.sorted
    unfold SortedBy at hs ⊢
    rw [← pairwise_map (R := (· < ·))] at hs ⊢
    rw [hdyns]
    exact hs
  · intro d hd
    have hmem : d.handle ∈ t.dynEntries.map NVDynValue.handle :=
      hdyns ▸ mem_map_of_mem hd
    obtain ⟨d', hd', heq⟩ := mem_map.1 hmem
    rw [hstatics, ← heq]
    exact hl.handles d' hd'
  · unfold ofsTableTop numDynEntries at hfits ⊢
    rw [hstatics, hlen]
    omega
  · intro h
    rw [hslots, hentries]
    by_cases hh : h = handle
    · rw [if_pos hh, update_self]
      exact fun _ => rfl
    · rw [if_neg hh]
      intro hne
      rw [update_of_ne (hslot_le h hne)]
      exact hl.present h hne
  · intro h h'
    rw [hslots, hslots]
    by_cases hh : h = handle
    · by_cases hh' : h' = handle
      · exact fun _ _ => hh.trans hh'.symm
      · rw [if_pos hh, if_neg hh']
        intro hne heq
        exact absurd heq.symm (hslot_le h' (heq ▸ hne))
    · by_cases hh' : h' = handle
      · rw [if_neg hh, if_pos hh']
        exact fun hne heq => absurd heq (hslot_le h hne)
      · rw [if_neg hh, if_neg hh']
        exact hl.distinct h h'
  · intro o x hx
    rw [hentries] at hx
    by_cases ho : o = t'.used
    · rw [ho, update_self] at hx
      cases hx
      exact ⟨Nat.le_of_eq ho, hpos, by omega, hbytes⟩
    · rw [update_of_ne ho] at hx
      obtain ⟨h1, h2⟩ := hl.block o x hx
      exact ⟨by omega, h2⟩
  · intro o o' x ho hx hlt
    rw [hentries] at ho hx
    by_cases ho' : o' = t'.used
    · rw [ho', update_self] at hx
      cases hx
      rw [update_of_ne (by omega)] at ho
      obtain ⟨y, hy⟩ := isSome_iff_exists.1 ho
      have := (hl.block o y hy).1
      omega
    · rw [update_of_ne ho'] at hx
      have hle := (hl.block o' x hx).1
      rw [update_of_ne (by omega)] at ho
      exact hl.apart o o' x ho hx hlt
  · funext h
    unfold entryOf
    rw [hslots]
    by_cases hh : h = handle
    · rw [if_pos hh, hh, update_self, entryAtOfs, if_neg (by omega), bind_some,
        hentries, update_self]
    · rw [if_neg hh, update_of_ne hh]
      rcases ho : entryAtOfs (t.slotOfs h) with - | o
      · rfl
      · obtain ⟨rfl, hne⟩ := entryAtOfs_eq_some ho
        rw [bind_some, bind_some, hentries, update_of_ne (hslot_le h hne)]

/-! ## Slots -/

theorem layout_of_slots (hl : t.LayoutIn max) (hsize : t'.size = t.size) (hused : t'.used = t.used)
    (howner : t'.refCnt = t.refCnt ∧ t'.borrowed = t.borrowed)
    (hstatic : t'.staticEntries = t.staticEntries) (hentries : t'.entries = t.entries)
    (hsorted : SortedBy NVDynValue.handle t'.dynEntries)
    (hhandles : ∀ d ∈ t'.dynEntries, t.numStaticEntries < d.handle ∧ d.handle < 2 ^ 16)
    (hroom : t'.ofsTableTop + t'.used ≤ t'.size) (hslots : ∀ h, t'.slotOfs h = t.slotOfs h) :
    t'.LayoutIn max := by
  have hns : t'.numStaticEntries = t.numStaticEntries := by
    rw [numStaticEntries, hstatic]
    rfl
  refine ⟨hns ▸ hl.statics, hsorted, hns ▸ hhandles, hroom, hsize ▸ hl.size_le, ?_, ?_, ?_, ?_,
    howner.1.trans hl.owned.1, howner.2.trans hl.owned.2⟩
  · intro h
    rw [hslots, hentries]
    exact hl.present h
  · intro h h'
    rw [hslots, hslots]
    exact hl.distinct h h'
  · rw [hentries, hused]
    exact hl.block
  · rw [hentries]
    exact hl.apart

theorem SameTables.ofsTableTop (h : t.SameTables t') : t'.ofsTableTop = t.ofsTableTop := by
  have hlen := congrArg List.length h.handles
  rw [length_map, length_map] at hlen
  unfold NVTable.ofsTableTop numDynEntries
  rw [h.statics, hlen]

theorem reserve_ready (h : t.SlotReady handle slot) : t.reserveTableEntry handle slot = some (slot, t) := by
  unfold reserveTableEntry
  rw [if_neg]
  rintro ⟨hnone, hlt⟩
  exact h.2 hlt hnone

theorem reserve_spec (hl : t.LayoutIn max) (hlt : handle < 2 ^ 16) (hs : t.SlotOf handle slot) :
    t.reserveTableEntry handle slot = none ∨
      ∃ slot' t', t.reserveTableEntry handle slot = some (slot', t') ∧ t'.LayoutIn max ∧
        t'.slotOfs = t.slotOfs ∧ t'.entryOf = t.entryOf ∧ t'.SlotReady handle slot' := by
  have hready : t.SlotReady handle slot →
      ∃ slot' t', t.reserveTableEntry handle slot = some (slot', t') ∧ t'.LayoutIn max ∧
        t'.slotOfs = t.slotOfs ∧ t'.entryOf = t.entryOf ∧ t'.SlotReady handle slot' :=
    fun hr => ⟨slot, t, reserve_ready hr, hl, rfl, rfl, hr⟩
  cases hs with
  | static hle => exact .inr (hready ⟨.static hle, fun hgt => absurd hle (Nat.not_le_of_lt hgt)⟩)
  | found hgt hdyn hkey hsplit =>
    exact .inr (hready ⟨.found hgt hdyn hkey hsplit, fun _ => by simp⟩)
  | @missing pre post hgt hdyn hsplit =>
    unfold reserveTableEntry
    rw [if_pos ⟨rfl, hgt⟩]
    by_cases hroom : t.allocCheck 8 = true
    swap
    · rw [if_neg hroom]
      exact .inl rfl
    right
    rw [if_pos hroom]
    have hsearch : search (fun d : NVDynValue => d.handle % 2 ^ 16) t.dynEntries handle =
        .missing pre.length := by
      have hcongr : search (fun d : NVDynValue => d.handle % 2 ^ 16) t.dynEntries handle =
          search NVDynValue.handle t.dynEntries handle :=
        search_congr (fun d hd => Nat.mod_eq_of_lt (hl.handles d hd).2) handle
      rw [hcongr, hdyn]
      exact hsplit.search_missing (hdyn ▸ hl.sorted)
    have hdyns : t.dynEntries.take pre.length ++ ⟨handle, 0⟩ :: t.dynEntries.drop pre.length =
        pre ++ (⟨handle, 0⟩ : NVDynValue) :: post := by
      rw [hdyn, take_left, drop_left]
    have hsorted : SortedBy NVDynValue.handle (pre ++ (⟨handle, 0⟩ : NVDynValue) :: post) :=
      SplitsAt.sortedBy (x := (⟨handle, 0⟩ : NVDynValue)) hsplit (hdyn ▸ hl.sorted)
    have hhandles : ∀ d ∈ pre ++ (⟨handle, 0⟩ : NVDynValue) :: post,
        t.numStaticEntries < d.handle ∧ d.handle < 2 ^ 16 := by
      intro d hd
      rcases mem_append.1 hd with hd | hd
      · exact hl.handles d (hdyn ▸ mem_append_left _ hd)
      · rcases mem_cons.1 hd with rfl | hd
        · exact ⟨hgt, hlt⟩
        · exact hl.handles d (hdyn ▸ mem_append_right _ hd)
    have hlen : (pre ++ (⟨handle, 0⟩ : NVDynValue) :: post).length = t.dynEntries.length + 1 := by
      rw [hdyn]
      simp
      omega
    have hcount : t.dynEntries.length + 1 < 2 ^ 16 := by
      have := hsorted.length_le fun d hd => (hhandles d hd)
      omega
    have htake : (pre ++ (⟨handle, 0⟩ : NVDynValue) :: post).take
        ((t.dynEntries.length + 1) % 2 ^ 16) = pre ++ (⟨handle, 0⟩ : NVDynValue) :: post := by
      rw [Nat.mod_eq_of_lt hcount, ← hlen, take_length]
    have hslots : ∀ h, slotOfs { t with
        dynEntries := pre ++ (⟨handle, 0⟩ : NVDynValue) :: post } h = t.slotOfs h := by
      intro h
      unfold slotOfs
      by_cases h0 : h = 0
      · rw [if_pos h0, if_pos h0]
      rw [if_neg h0, if_neg h0]
      by_cases hst : h ≤ t.numStaticEntries
      · rw [if_pos hst]
        exact if_pos hst
      rw [if_neg hst]
      refine (if_neg hst).trans ?_
      have hrow := SplitsAt.lookupBy (x := (⟨handle, 0⟩ : NVDynValue)) hsplit h
      simp only [hrow]
      by_cases hh : handle = h
      · rw [if_pos hh, hdyn, ← hh, hsplit.lookupBy_none]
        rfl
      · rw [if_neg hh, hdyn]
    simp only [hsearch, hdyns, htake]
    refine ⟨_, _, rfl, ?_, funext hslots, ?_, .found hgt rfl rfl hsplit, fun _ => by simp⟩
    · refine layout_of_slots hl rfl rfl ⟨rfl, rfl⟩ rfl rfl hsorted hhandles ?_ hslots
      unfold allocCheck at hroom
      simp only [decide_eq_true_eq] at hroom
      unfold ofsTableTop numDynEntries at hroom ⊢
      simp only [hlen]
      show 12 + 4 * t.numStaticEntries + 8 * (t.dynEntries.length + 1) + t.used ≤ t.size
      omega
    · funext h
      unfold entryOf
      rw [hslots]

theorem setTableEntry_spec (hpos : 0 < handle) (hr : t.SlotReady handle slot) (ofs : Nat) :
    ∃ t', t.setTableEntry handle ofs slot = some t' ∧ t.SameTables t' ∧ t'.used = t.used ∧
      t'.entries = t.entries ∧
      ∀ h, t'.slotOfs h = if h = handle then ofs else t.slotOfs h := by
  have h0 : handle ≠ 0 := Nat.pos_iff_ne_zero.1 hpos
  unfold setTableEntry
  rw [if_neg h0]
  obtain ⟨hs, hsome⟩ := hr
  cases hs with
  | static hle =>
    rw [if_pos hle]
    refine ⟨_, rfl, ⟨rfl, by simp [numStaticEntries], rfl, rfl, rfl⟩, rfl, rfl, ?_⟩
    intro h
    unfold numStaticEntries at hle
    unfold slotOfs numStaticEntries
    simp only [length_set]
    by_cases hh : h = handle
    · subst hh
      have hlt : h - 1 < t.staticEntries.length := by omega
      rw [if_neg h0, if_pos hle, if_pos rfl, getElem?_set_self hlt]
      rfl
    · rw [if_neg hh]
      by_cases hz : h = 0
      · rw [if_pos hz, if_pos hz]
      · rw [if_neg hz, if_neg hz, getElem?_set_ne (by omega)]
  | @found pre post d hgt hdyn hkey hsplit =>
    have hset : t.dynEntries.set pre.length ⟨handle, ofs⟩ =
        pre ++ (⟨handle, ofs⟩ : NVDynValue) :: post := by
      simp [hdyn]
    rw [if_neg (Nat.not_le_of_lt hgt), map_some, hset]
    refine ⟨_, rfl, ⟨rfl, rfl, by simp [hdyn, hkey], rfl, rfl⟩, rfl, rfl, ?_⟩
    intro h
    have hnew := SplitsAt.lookupBy (x := (⟨handle, ofs⟩ : NVDynValue)) hsplit h
    have hold := SplitsAt.lookupBy (x := d) (hkey ▸ hsplit) h
    unfold slotOfs
    simp only [hnew, hdyn, hold, hkey, numStaticEntries]
    by_cases hh : h = handle
    · have hgt : ¬ handle ≤ t.staticEntries.length := Nat.not_le_of_lt hgt
      simp only [hh, if_true, if_neg h0, if_neg hgt]
      rfl
    · rw [if_neg (show ¬ handle = h from fun hc => hh hc.symm), if_neg hh,
        if_neg (show ¬ handle = h from fun hc => hh hc.symm)]
  | missing hgt => exact absurd rfl (hsome hgt)

theorem le_nvTableBound (n : Nat) : n ≤ nvTableBound n := by
  unfold nvTableBound
  omega

theorem allocEntry_ready (hl : t.LayoutIn max) (hpos : 0 < handle) (hr : t.SlotReady handle slot)
    (newEntry : Bool) {allocSize : Nat} {payload : NVPayload} (hsize : 0 < allocSize)
    (hbytes : payload.bytes ≤ allocSize) :
    (t.allocCheck (nvTableBound allocSize) = false ∧
      t.allocEntry handle slot newEntry allocSize payload = some ⟨false, newEntry, t⟩) ∨
    ∃ t', t.allocCheck (nvTableBound allocSize) = true ∧
      t.allocEntry handle slot newEntry allocSize payload = some ⟨true, newEntry, t'⟩ ∧
      t'.LayoutIn max ∧ t.SameTables t' ∧ t'.used = t.used + nvTableBound allocSize ∧
      (∀ h ≠ handle, t'.slotOfs h = t.slotOfs h) ∧ t'.entryOf =
        update t.entryOf handle (some ⟨false, nvTableBound allocSize, payload⟩) := by
  have hbound := le_nvTableBound allocSize
  unfold allocEntry allocValue
  simp only [reserve_ready hr]
  cases hcheck : t.allocCheck (nvTableBound allocSize) with
  | false => exact .inl ⟨rfl, rfl⟩
  | true =>
    right
    simp only [if_true]
    have hfits : payload.bytes ≤ nvTableBound allocSize := by omega
    simp only [setPayload, update_self, bind_some, if_pos hfits, update_idem]
    have hready : SlotReady { t with
        used := t.used + nvTableBound allocSize
        entries := update t.entries (t.used + nvTableBound allocSize)
          (some ⟨false, nvTableBound allocSize, payload⟩) } handle slot := by
      obtain ⟨hs, hsome⟩ := hr
      refine ⟨?_, hsome⟩
      cases hs with
      | static hle => exact .static hle
      | found hgt hdyn hkey hsplit => exact .found hgt hdyn hkey hsplit
      | missing hgt hdyn hsplit => exact .missing hgt hdyn hsplit
    obtain ⟨t', hset, hsame, hused, hentries, hslots⟩ :=
      setTableEntry_spec hpos hready (t.used + nvTableBound allocSize)
    rw [hset]
    have hsame : t.SameTables t' :=
      ⟨hsame.size, hsame.statics, hsame.handles, hsame.refCnt, hsame.borrowed⟩
    have hused : t'.used = t.used + nvTableBound allocSize := hused
    have hroom : t.ofsTableTop + t.used + nvTableBound allocSize ≤ t.size := by
      unfold allocCheck at hcheck
      simpa using hcheck
    have hslots : ∀ h, t'.slotOfs h = if h = handle then t'.used else t.slotOfs h := by
      intro h
      rw [hused]
      exact hslots h
    obtain ⟨hl', hof⟩ := entryOf_install (e := ⟨false, nvTableBound allocSize, payload⟩) hl
      hsame hused (show 0 < nvTableBound allocSize by omega) hroom
      hfits hslots (by rw [hused]; exact hentries)
    exact ⟨t', trivial, rfl, hl', hsame, hused, fun h hne => by rw [hslots, if_neg hne], hof⟩

theorem allocEntry_spec (hl : t.LayoutIn max) (hpos : 0 < handle) (hlt : handle < 2 ^ 16)
    (hs : t.SlotOf handle slot) (newEntry : Bool) {allocSize : Nat} {payload : NVPayload}
    (hsize : 0 < allocSize) (hbytes : payload.bytes ≤ allocSize) :
    ∃ ok t', t.allocEntry handle slot newEntry allocSize payload = some ⟨ok, newEntry, t'⟩ ∧
      t'.LayoutIn max ∧ (∀ h ≠ handle, t'.slotOfs h = t.slotOfs h) ∧
      t'.entryOf = if ok then
          update t.entryOf handle (some ⟨false, nvTableBound allocSize, payload⟩)
        else t.entryOf := by
  rcases reserve_spec hl hlt hs with hnone | ⟨slot', t1, hres, hl1, hslots1, hof1, hr1⟩
  · refine ⟨false, t, ?_, hl, fun _ _ => rfl, rfl⟩
    unfold allocEntry
    rw [hnone]
  · have heq : t.allocEntry handle slot newEntry allocSize payload =
        t1.allocEntry handle slot' newEntry allocSize payload := by
      unfold allocEntry
      rw [hres, reserve_ready hr1]
    rw [heq, ← hof1, ← hslots1]
    rcases allocEntry_ready hl1 hpos hr1 newEntry hsize hbytes with ⟨-, h⟩ |
      ⟨t', -, h, hl', -, -, hslots, hof⟩
    · exact ⟨false, t1, h, hl1, fun _ _ => rfl, rfl⟩
    · exact ⟨true, t', h, hl', hslots, hof⟩

theorem setPayload_spec (hl : t.LayoutIn max) {e : NVEntry} (he : t.entryOf handle = some e)
    {payload : NVPayload} (hfits : payload.bytes ≤ e.allocLen) :
    ∃ t', t.setPayload (t.slotOfs handle) payload = some t' ∧ t'.LayoutIn max ∧ t.SameTables t' ∧
      t'.used = t.used ∧ t'.slotOfs = t.slotOfs ∧
      t'.entryOf = update t.entryOf handle (some { e with payload := payload }) := by
  obtain ⟨-, -, hat⟩ := entryOf_eq_some he
  unfold setPayload
  rw [hat, bind_some, if_pos hfits]
  obtain ⟨hl', hof⟩ := @entryOf_write max t
    { t with entries := update t.entries (t.slotOfs handle) (some { e with payload := payload }) }
    handle hl e { e with payload := payload } he rfl rfl ⟨rfl, rfl⟩ rfl rfl rfl rfl hfits
  exact ⟨_, rfl, hl', ⟨rfl, rfl, rfl, rfl, rfl⟩, rfl, rfl, hof⟩

theorem setReferenced_spec (hl : t.LayoutIn max) (he : t.entryOf handle = some e) :
    ∃ t', t.setReferenced (t.slotOfs handle) = some t' ∧ t'.LayoutIn max ∧ t.SameTables t' ∧
      t'.slotOfs = t.slotOfs ∧
      t'.entryOf = update t.entryOf handle (some { e with referenced := true }) := by
  obtain ⟨-, -, hat⟩ := entryOf_eq_some he
  unfold setReferenced
  rw [hat, map_some]
  obtain ⟨hl', hof⟩ := @entryOf_write max t
    { t with entries := update t.entries (t.slotOfs handle) (some { e with referenced := true }) }
    handle hl e { e with referenced := true } he rfl rfl ⟨rfl, rfl⟩ rfl rfl rfl rfl (hl.block _ _ hat).2.2.2
  exact ⟨_, rfl, hl', ⟨rfl, rfl, rfl, rfl, rfl⟩, rfl, hof⟩

theorem LayoutIn.value_le (hl : t.LayoutIn max) (he : t.entryOf handle = some e) :
    e.payload.bytes ≤ e.allocLen ∧ e.allocLen ≤ max := by
  obtain ⟨-, -, hat⟩ := entryOf_eq_some he
  obtain ⟨h1, -, h3, h4⟩ := hl.block _ _ hat
  have hroom := hl.room
  have hsize := hl.size_le
  exact ⟨h4, by omega⟩

theorem SlotReady.of_same (hr : t.SlotReady handle slot) (hsame : t.SameTables t') :
    t'.SlotReady handle slot := by
  obtain ⟨hs, hsome⟩ := hr
  rw [← hsame.statics] at hsome
  refine ⟨?_, hsome⟩
  cases hs with
  | static hle => exact .static (hsame.statics ▸ hle)
  | missing hgt => exact absurd rfl (hsome (hsame.statics ▸ hgt))
  | @found pre post d hgt hdyn hkey hsplit =>
    have hmap := hsame.handles
    rw [hdyn, map_append, map_cons] at hmap
    obtain ⟨pre', rest, hdyn', hpre, hrest⟩ := map_eq_append_iff.1 hmap
    obtain ⟨d', post', rfl, hd', hpost⟩ := map_eq_cons_iff.1 hrest
    have hlen : pre.length = pre'.length := by
      have := congrArg List.length hpre
      simpa using this.symm
    rw [hlen]
    refine .found (hsame.statics ▸ hgt) hdyn' (hd'.trans hkey) ⟨?_, ?_⟩
    · intro y hy
      obtain ⟨x, hx, heq⟩ := mem_map.1 (hpre ▸ mem_map_of_mem hy)
      exact heq ▸ hsplit.below x hx
    · intro y hy
      obtain ⟨x, hx, heq⟩ := mem_map.1 (hpost ▸ mem_map_of_mem hy)
      exact heq ▸ hsplit.above x hx

end NVTable

end SyslogNg.NameValue
