import SyslogNg.NameValue.Layout

/-!
# The values of a table

`cells` forgets the memory: each handle has bytes of its own or a slice of another handle's. The
references are in order (`RefsOk`) when every indirect entry refers to a direct one that is marked
as referenced; then the cells are flat, and `get_value` returns what they hold.
-/

namespace SyslogNg.NameValue

open Lib Function Option
open Function (update_of_ne update_self)

abbrev EntryMap := Nat → Option NVEntry

def NVEntry.cell (self : NVEntry) : Cell Nat UInt8 :=
  match self.payload with
  | .vdirect _ value => .own value
  | .vindirect ref ofs len _ _ => .slice ref ofs len

namespace EntryMap

variable {names : Nat → List UInt8} {m : EntryMap} {handle r : Nat} {e : NVEntry}

def cells (m : EntryMap) : SliceMap Nat UInt8 := fun h => (m h).map NVEntry.cell

def value (m : EntryMap) (handle : Nat) : List UInt8 := m.cells.value handle

/-- Stored names are no longer than the names of the handles; an indirect entry refers to a direct
one that is marked. -/
structure RefsOk (names : Nat → List UInt8) (m : EntryMap) : Prop where
  nameLen : ∀ h e, m h = some e → e.payload.name.length ≤ (names h).length
  refs : ∀ h e r ofs len type name, m h = some e → e.payload = .vindirect r ofs len type name →
    ofs + len < 2 ^ 32 ∧ ∃ e', m r = some e' ∧ e'.referenced = true ∧ e'.indirect = false

theorem cell_own_iff : (∃ v, e.cell = .own v) ↔ e.indirect = false := by
  unfold NVEntry.cell NVEntry.indirect
  cases e.payload <;> simp

theorem cell_slice_iff {ofs len : Nat} :
    e.cell = .slice r ofs len ↔ ∃ type name, e.payload = .vindirect r ofs len type name := by
  unfold NVEntry.cell
  cases e.payload <;> simp

theorem refers_iff : m.cells.Refers handle r ↔
    ∃ e ofs len type name, m handle = some e ∧ e.payload = .vindirect r ofs len type name := by
  constructor
  · rintro ⟨ofs, len, h⟩
    obtain ⟨e, he, hcell⟩ := map_eq_some_iff.1 h
    obtain ⟨type, name, hp⟩ := cell_slice_iff.1 hcell
    exact ⟨e, ofs, len, type, name, he, hp⟩
  · rintro ⟨e, ofs, len, type, name, he, hp⟩
    exact ⟨ofs, len, map_eq_some_iff.2 ⟨e, he, cell_slice_iff.2 ⟨type, name, hp⟩⟩⟩

theorem RefsOk.flat (h : m.RefsOk names) : m.cells.Flat := by
  intro k r hr
  obtain ⟨e, ofs, len, type, name, he, hp⟩ := refers_iff.1 hr
  obtain ⟨-, e', he', -, hdir⟩ := h.refs k e r ofs len type name he hp
  obtain ⟨v, hv⟩ := cell_own_iff.2 hdir
  exact ⟨v, map_eq_some_iff.2 ⟨e', he', hv⟩⟩

theorem RefsOk.not_refers (h : m.RefsOk names)
    (hm : ∀ e, m handle = some e → e.indirect = true ∨ e.referenced = false) (k : Nat) :
    ¬ m.cells.Refers k handle := by
  intro hr
  obtain ⟨e, ofs, len, type, name, he, hp⟩ := refers_iff.1 hr
  obtain ⟨-, e', he', href, hdir⟩ := h.refs k e handle ofs len type name he hp
  rcases hm e' he' with hi | hn
  · rw [hdir] at hi
    cases hi
  · rw [href] at hn
    cases hn

theorem cells_update (m : EntryMap) (handle : Nat) (e : NVEntry) :
    cells (update m handle (some e)) = update m.cells handle (some e.cell) := by
  funext h
  unfold cells
  by_cases hh : h = handle
  · rw [hh, update_self, update_self]
    rfl
  · rw [update_of_ne hh, update_of_ne hh]

theorem RefsOk.update_direct (h : m.RefsOk names) (hdir : e.indirect = false)
    (hname : e.payload.name.length ≤ (names handle).length)
    (hmark : e.referenced = true ∨ ∀ k, ¬ m.cells.Refers k handle) :
    RefsOk names (update m handle (some e)) := by
  refine ⟨?_, ?_⟩
  · intro k x hx
    by_cases hk : k = handle
    · rw [hk, update_self] at hx
      cases hx
      exact hk ▸ hname
    · rw [update_of_ne hk] at hx
      exact h.nameLen k x hx
  · intro k x r ofs len type name hx hp
    by_cases hk : k = handle
    · rw [hk, update_self] at hx
      cases hx
      rw [NVEntry.indirect, hp] at hdir
      cases hdir
    · rw [update_of_ne hk] at hx
      obtain ⟨hlen, e', he', href⟩ := h.refs k x r ofs len type name hx hp
      refine ⟨hlen, ?_⟩
      by_cases hr : r = handle
      · rcases hmark with hmark | hno
        · exact ⟨e, by rw [hr, update_self], hmark, hdir⟩
        · exact absurd (refers_iff.2 ⟨x, ofs, len, type, name, hx, hr ▸ hp⟩) (hno k)
      · exact ⟨e', by rw [update_of_ne hr, he'], href⟩

theorem RefsOk.update_indirect (h : m.RefsOk names) {ofs len type : Nat} {name : List UInt8}
    (hp : e.payload = .vindirect r ofs len type name) (hlen : ofs + len < 2 ^ 32)
    (hname : name.length ≤ (names handle).length) (hne : r ≠ handle) {er : NVEntry}
    (her : m r = some er) (href : er.referenced = true) (hdir : er.indirect = false)
    (hno : ∀ k, ¬ m.cells.Refers k handle) :
    RefsOk names (update m handle (some e)) := by
  refine ⟨?_, ?_⟩
  · intro k x hx
    by_cases hk : k = handle
    · rw [hk, update_self] at hx
      cases hx
      rw [hp, hk]
      exact hname
    · rw [update_of_ne hk] at hx
      exact h.nameLen k x hx
  · intro k x r' ofs' len' type' name' hx hp'
    by_cases hk : k = handle
    · rw [hk, update_self] at hx
      cases hx
      rw [hp] at hp'
      cases hp'
      exact ⟨hlen, er, by rw [update_of_ne hne, her], href, hdir⟩
    · rw [update_of_ne hk] at hx
      obtain ⟨hlen', e', he', href'⟩ := h.refs k x r' ofs' len' type' name' hx hp'
      refine ⟨hlen', e', ?_, href'⟩
      rw [update_of_ne, he']
      rintro rfl
      exact hno k (refers_iff.2 ⟨x, ofs', len', type', name', hx, hp'⟩)

theorem cells_mark (he : m handle = some e) :
    cells (update m handle (some { e with referenced := true })) = m.cells := by
  rw [cells_update]
  have hcell : m.cells handle = some e.cell := by
    unfold cells
    rw [he]
    rfl
  rw [show NVEntry.cell { e with referenced := true } = e.cell from rfl, ← hcell,
    update_eq_self]

theorem RefsOk.mark (h : m.RefsOk names) (he : m handle = some e) (hdir : e.indirect = false) :
    RefsOk names (update m handle (some { e with referenced := true })) :=
  h.update_direct hdir (h.nameLen handle e he) (.inl rfl)

end EntryMap

theorem resolveSlice_eq {ofs len : Nat} (h : ofs + len < 2 ^ 32) (v : List UInt8) :
    resolveSlice v ofs len = slice v ofs len := by
  unfold resolveSlice
  rw [Nat.mod_eq_of_lt h]
  split
  · next hlt => rw [slice_of_lt hlt]
  · unfold window slice
    rw [List.drop_take, List.take_eq_take_iff, List.length_drop]
    omega

namespace NVTable

variable {names : Nat → List UInt8} {t t' : NVTable} {handle : Nat} {e : NVEntry}

/-- What every operation keeps. -/
structure Sound (names : Nat → List UInt8) (t : NVTable) : Prop where
  layout : t.Layout
  refs : EntryMap.RefsOk names t.entryOf

theorem getValueDepth_eq (hs : t.Sound names) (depth handle : Nat) :
    t.getValueDepth (depth + 2) handle = some (EntryMap.value t.entryOf handle) := by
  have hown : ∀ {d h v}, EntryMap.cells t.entryOf h = some (.own v) →
      t.getValueDepth (d + 1) h = some v := by
    intro d h v hv
    obtain ⟨e, he, hcell⟩ := map_eq_some_iff.1 hv
    obtain ⟨-, hofs, hat⟩ := entryOf_eq_some he
    obtain ⟨slot, hget, -⟩ := getEntry_spec hs.layout h
    obtain ⟨referenced, allocLen, payload⟩ := e
    cases payload with
    | vindirect => cases hcell
    | vdirect name value =>
      cases hcell
      rw [getValueDepth, hget]
      simp only [hofs, hat, bind_some]
  rcases hc : EntryMap.cells t.entryOf handle with - | ⟨v⟩ | ⟨r, ofs, len⟩
  · have hnone := entryOf_eq_none hs.layout (map_eq_none_iff.1 hc)
    obtain ⟨slot, hget, -⟩ := getEntry_spec hs.layout handle
    rw [getValueDepth, hget, EntryMap.value, SliceMap.value_of_none hc, hnone]
    rfl
  · rw [hown hc, EntryMap.value, SliceMap.value_of_own hc]
  · obtain ⟨e, he, hcell⟩ := map_eq_some_iff.1 hc
    obtain ⟨type, name, hp⟩ := EntryMap.cell_slice_iff.1 hcell
    obtain ⟨-, hofs, hat⟩ := entryOf_eq_some he
    obtain ⟨slot, hget, -⟩ := getEntry_spec hs.layout handle
    obtain ⟨v, hv⟩ := hs.refs.flat handle r ⟨ofs, len, hc⟩
    have hlen := (hs.refs.refs handle e r ofs len type name he hp).1
    rw [getValueDepth, hget]
    simp only [hofs, hat, bind_some, hp, hown hv, map_some]
    rw [EntryMap.value, SliceMap.value_of_slice hc, SliceMap.ownValue_of_own hv, resolveSlice_eq hlen]

theorem getValue_eq (hs : t.Sound names) (handle : Nat) :
    t.getValue handle = some (EntryMap.value t.entryOf handle) :=
  getValueDepth_eq hs t.used handle

theorem resolveIndirect_eq (hs : t.Sound names) (he : t.entryOf handle = some e)
    {r ofs len type : Nat} {name : List UInt8} (hp : e.payload = .vindirect r ofs len type name) :
    t.resolveIndirect r ofs len = some (EntryMap.value t.entryOf handle) := by
  have hval := getValue_eq hs handle
  obtain ⟨-, hofs, hat⟩ := entryOf_eq_some he
  obtain ⟨slot, hget, -⟩ := getEntry_spec hs.layout handle
  rw [getValue, getValueDepth, hget] at hval
  rw [resolveIndirect]
  simpa only [hofs, hat, bind_some, hp] using hval

end NVTable

end SyslogNg.NameValue
