import SyslogNg.NameValue.Refinement
import SyslogNg.NameValue.ReferenceRoom

/-!
# Every table

`Reachable`: what the calls of the interface make, in any order, of a new table or of one in
borrowed space, with several owners or one, whether they succeed or not. `Kept` holds of all of
them, and with it the layout (`nv_table_layout`).
-/

namespace SyslogNg.NameValue

open Lib List Option Function

/-- `nv_table_init` with `alloc_length` bytes. -/
def nvTableInit (allocLength numStaticEntries : Nat) (borrowed : Bool) : NVTable where
  size := allocLength
  used := 0
  refCnt := 1
  borrowed := borrowed
  staticEntries := List.replicate (numStaticEntries % 2 ^ 8) 0
  dynEntries := []
  entries := fun _ => none

/-- `nv_table_init_borrowed`, with its assertions. -/
def nvTableInitBorrowed (spaceLen numStaticEntries : Nat) : Option NVTable :=
  let spaceLen := spaceLen / 4 * 4
  if spaceLen > numStaticEntries * 4 + 16 ∧ nvTableBound spaceLen ≤ nvTableMaxBytes then
    some (nvTableInit (nvTableBound spaceLen) numStaticEntries true)
  else none

namespace NVTable

/-- `nv_table_clear`, for a table that has no other owner. -/
def clear (self : NVTable) : Option NVTable :=
  if self.refCnt = 1 then
    some { self with
      used := 0
      dynEntries := []
      staticEntries := List.replicate self.numStaticEntries 0
      entries := fun _ => none }
  else none

/-- `nv_table_ref`; `ref_cnt` has seven bits. -/
def ref (self : NVTable) : NVTable := { self with refCnt := (self.refCnt + 1) % 2 ^ 7 }

/-- `nv_table_unref`; `none` when the table is freed. -/
def unref (self : NVTable) : Option NVTable :=
  let refCnt := (self.refCnt + (2 ^ 7 - 1)) % 2 ^ 7
  if refCnt = 0 ∧ !self.borrowed then none else some { self with refCnt := refCnt }

end NVTable

inductive NVCall where
  | addValue (handle : Nat) (value : List UInt8) (newEntry : Bool)
  | addValueIndirect (handle ref type ofs len : Nat) (newEntry : Bool)
  | realloc
  | clone (additionalSpace : Int)
  | clear
  | ref
  | unref

def nvCall (registry : NVRegistry) (t : NVTable) : NVCall → Option NVTable
  | .addValue handle value newEntry =>
    (t.addValue handle (registry.name handle) value newEntry).map AddResult.table
  | .addValueIndirect handle ref type ofs len newEntry =>
    (t.addValueIndirect handle (registry.name handle) ref type ofs len newEntry).map AddResult.table
  | .realloc => t.realloc.map Prod.snd
  | .clone additionalSpace => t.clone additionalSpace
  | .clear => t.clear
  | .ref => some t.ref
  | .unref => t.unref

/-- The handles are those of a registry, and the end of a slice is a `guint32`. -/
def NVCall.Ok : NVCall → Prop
  | .addValue handle _ _ => 0 < handle ∧ handle < 2 ^ 16
  | .addValueIndirect handle _ _ ofs len _ => 0 < handle ∧ handle < 2 ^ 16 ∧ ofs + len < 2 ^ 32
  | _ => True

namespace NVTable

inductive Reachable (registry : NVRegistry) : NVTable → Prop where
  | new (numStaticEntries numDynValues initLength : Nat) :
      Reachable registry (nvTableNew numStaticEntries numDynValues initLength)
  | borrowed {t : NVTable} (spaceLen numStaticEntries : Nat) :
      nvTableInitBorrowed spaceLen numStaticEntries = some t → Reachable registry t
  | call {t t' : NVTable} (c : NVCall) : Reachable registry t → c.Ok →
      nvCall registry t c = some t' → Reachable registry t'

/-! ## What every call keeps -/

structure Aligned (t : NVTable) : Prop where
  size : 4 ∣ t.size
  used : 4 ∣ t.used
  block : ∀ o e, t.entries o = some e → 4 ∣ o ∧ 4 ∣ e.allocLen

/-- The owners of a table do not matter for its layout. -/
structure Kept (registry : NVRegistry) (t : NVTable) : Prop where
  stands : (t.withOwner 1 false).Stands registry.name
  aligned : t.Aligned

variable {registry : NVRegistry} {t t' : NVTable}

theorem four_dvd_nvTableBound (n : Nat) : 4 ∣ nvTableBound n := Nat.dvd_mul_left 4 _

theorem Aligned.write (hw : Write t t') (ha : t.Aligned) : t'.Aligned := by
  cases hw with
  | statics => exact ⟨ha.size, ha.used, ha.block⟩
  | dyns => exact ⟨ha.size, ha.used, ha.block⟩
  | block n e halloc =>
    have hused : 4 ∣ t.used + nvTableBound n := Nat.dvd_add ha.used (four_dvd_nvTableBound n)
    refine ⟨ha.size, hused, fun o x hx => ?_⟩
    dsimp only at hx
    by_cases ho : o = t.used + nvTableBound n
    · rw [ho, update_self] at hx
      cases hx
      exact ⟨ho ▸ hused, halloc ▸ four_dvd_nvTableBound n⟩
    · rw [update_of_ne ho] at hx
      exact ha.block o x hx
  | entry o' e e' hat halloc =>
    refine ⟨ha.size, ha.used, fun o x hx => ?_⟩
    dsimp only at hx
    by_cases ho : o = o'
    · rw [ho, update_self] at hx
      cases hx
      exact ⟨ho ▸ (ha.block o' e hat).1, halloc ▸ (ha.block o' e hat).2⟩
    · rw [update_of_ne ho] at hx
      exact ha.block o x hx

theorem Aligned.writes (hw : Writes t t') (ha : t.Aligned) : t'.Aligned :=
  hw.invariant (fun _ _ hw ha => ha.write hw) ha

theorem empty_kept (hstatic : t.staticEntries = List.replicate t.numStaticEntries 0)
    (hdyn : t.dynEntries = []) (hentries : t.entries = fun _ => none) (hused : t.used = 0)
    (hcount : t.numStaticEntries < 2 ^ 8) (hroom : t.ofsTableTop ≤ t.size) (hsize : t.size ≤ 2 ^ 31 - 1)
    (h4 : 4 ∣ t.size) : t.Kept registry := by
  have hslot : ∀ h, t.slotOfs h = 0 := by
    intro h
    unfold slotOfs
    split
    · rfl
    split
    · rw [hstatic]
      rcases hat : (List.replicate t.numStaticEntries 0)[h - 1]? with - | o
      · rfl
      · exact (mem_replicate.1 (mem_of_getElem? hat)).2
    · rw [hdyn]
      rfl
  have hnone : ∀ h, t.entryOf h = none := fun h => by
    rw [entryOf, hslot]
    rfl
  have hroom' : t.ofsTableTop + t.used ≤ t.size := by omega
  refine ⟨⟨⟨hcount, ?_, ?_, hroom', hsize, ?_, ?_, ?_, ?_, rfl, rfl⟩, ?_, ?_⟩, h4, ?_, ?_⟩
  · show SortedBy NVDynValue.handle t.dynEntries
    rw [hdyn]
    exact .nil
  · show ∀ d ∈ t.dynEntries, _
    rw [hdyn]
    exact fun d hd => absurd hd not_mem_nil
  · exact fun h hne => absurd (hslot h) hne
  · exact fun h _ hne => absurd (hslot h) hne
  · show ∀ o e, t.entries o = some e → _
    rw [hentries]
    exact fun o e he => by cases he
  · show ∀ o o' e', _ → t.entries o' = some e' → _
    rw [hentries]
    exact fun o o' e' _ he => by cases he
  · exact fun h e he => by cases (hnone h).symm.trans he
  · exact fun h e he => by cases (hnone h).symm.trans he
  · rw [hused]
    exact Nat.dvd_zero 4
  · rw [hentries]
    exact fun o e he => by cases he

theorem Kept.resize (hk : t.Kept registry) {n : Nat} (hroom : t.ofsTableTop + t.used ≤ n)
    (hmax : n ≤ 2 ^ 31 - 1) (h4 : 4 ∣ n) (refCnt : Nat) (borrowed : Bool) :
    Kept registry { t with size := n, refCnt := refCnt, borrowed := borrowed } := by
  obtain ⟨⟨hl, hname, hvalue⟩, ha⟩ := hk
  exact ⟨⟨⟨hl.statics, hl.sorted, hl.handles, hroom, hmax, hl.present, hl.distinct, hl.block,
    hl.apart, rfl, rfl⟩, hname, hvalue⟩, h4, ha.used, ha.block⟩

variable {handle : Nat}

theorem Kept.addValue (hk : t.Kept registry) (hpos : 0 < handle) (hlt : handle < 2 ^ 16)
    (value : List UInt8) (newEntry : Bool) :
    ∃ r, t.addValue handle (registry.name handle) value newEntry = some r ∧ r.table.Kept registry ∧
      Served registry.name (storeSpace · handle (registry.name handle) value) handle
        (t.withOwner 1 false) (r.withOwner 1 false) := by
  obtain ⟨r', hr', hserved, -⟩ := addValue_room hk.stands hpos hlt value newEntry
  rw [addValue_withOwner] at hr'
  obtain ⟨r, hr, rfl⟩ := map_eq_some_iff.1 hr'
  exact ⟨r, hr, ⟨hserved.stands, hk.aligned.writes (addValueDepth_writes hr)⟩, hserved⟩

theorem Kept.referred (hk : t.Kept registry) {ref type ofs len : Nat} {newEntry : Bool} {r : AddResult}
    (hpos : 0 < handle) (hlt : handle < 2 ^ 16) (href : t.indirectAt ref = false)
    (hr : t.addValueIndirect handle (registry.name handle) ref type ofs len newEntry = some r) :
    Referred registry.name handle (t.withOwner 1 false) (r.withOwner 1 false) := by
  have hr' := (addValueIndirect_withOwner t 1 false handle (registry.name handle) ref type ofs len
    newEntry).trans (congrArg _ hr)
  have hl := hk.stands.layout
  rw [addValueIndirect_direct hl href] at hr'
  exact ((addReference_room hk.stands hpos hlt (target_present hl) ref type ofs len newEntry).2 _ hr').1

theorem Kept.addReference_isSome (hk : t.Kept registry) {ref : Nat} (hpos : 0 < handle)
    (hlt : handle < 2 ^ 16) (href : t.indirectAt ref = false) (hentry : (t.entryOf ref).isSome = true)
    (type ofs len : Nat) (newEntry : Bool) :
    (t.addValueIndirect handle (registry.name handle) ref type ofs len newEntry).isSome = true := by
  have hl := hk.stands.layout
  have hne : t.slotOfs ref ≠ 0 := fun h => by simp [entryOf, h, entryAtOfs] at hentry
  have howner := addValueIndirect_withOwner t 1 false handle (registry.name handle) ref type ofs len
    newEntry
  rw [← isSome_map, ← howner, addValueIndirect_direct hl href]
  refine (addReference_room hk.stands hpos hlt (target_present hl) ref type ofs len newEntry).1 ?_
  show (entryAtOfs (t.slotOfs ref)).isSome = true
  rw [entryAtOfs, if_neg hne]
  rfl

theorem Kept.addValueIndirect_copy (hk : t.Kept registry) {handle ref type ofs len : Nat}
    {newEntry : Bool} (href : t.indirectAt ref = true) (hlen : ofs + len < 2 ^ 32) :
    t.addValueIndirect handle (registry.name handle) ref type ofs len newEntry =
      (t.getValue ref).bind fun value =>
        t.addValue handle (registry.name handle) (resolveSlice value ofs len) newEntry := by
  obtain ⟨slot, hget, -⟩ := getEntry_spec hk.stands.layout ref
  have hget : t.getEntry ref = (entryAtOfs (t.slotOfs ref), slot) := hget
  exact NVTable.addValueIndirect_copy ⟨slot, hget⟩ href (registry.name handle) hlen newEntry

theorem Kept.addValueIndirect (hk : t.Kept registry) {ref type ofs len : Nat} {newEntry : Bool}
    {r : AddResult} (hpos : 0 < handle) (hlt : handle < 2 ^ 16) (hlen : ofs + len < 2 ^ 32)
    (hr : t.addValueIndirect handle (registry.name handle) ref type ofs len newEntry = some r) :
    r.table.Kept registry := by
  refine ⟨?_, hk.aligned.writes (addValueIndirect_writes hr)⟩
  cases href : t.indirectAt ref with
  | false => exact (hk.referred hpos hlt href hr).stands
  | true =>
    rw [hk.addValueIndirect_copy href hlen] at hr
    obtain ⟨value, -, hr⟩ := bind_eq_some_iff.1 hr
    obtain ⟨r2, hr2, hkept, -⟩ := hk.addValue hpos hlt (resolveSlice value ofs len) newEntry
    cases hr2.symm.trans hr
    exact hkept.stands

theorem Kept.call (hk : t.Kept registry) {c : NVCall} (hok : c.Ok) (hc : nvCall registry t c = some t') :
    t'.Kept registry := by
  have hroom : t.ofsTableTop + t.used ≤ t.size := hk.stands.layout.room
  have hmax : t.size ≤ 2 ^ 31 - 1 := hk.stands.layout.size_le
  have h4 := hk.aligned.size
  cases c with
  | addValue handle value newEntry =>
    obtain ⟨r, hr, hkept, -⟩ := hk.addValue hok.1 hok.2 value newEntry
    rw [nvCall, hr] at hc
    cases hc
    exact hkept
  | addValueIndirect handle ref type ofs len newEntry =>
    obtain ⟨r, hr, rfl⟩ := map_eq_some_iff.1 hc
    exact hk.addValueIndirect hok.1 hok.2.1 hok.2.2 hr
  | realloc =>
    obtain ⟨⟨ok, t1⟩, hr, rfl⟩ := map_eq_some_iff.1 hc
    unfold realloc at hr
    have hbytes : 4 ∣ nvTableMaxBytes ∧ nvTableMaxBytes ≤ 2 ^ 31 - 1 := by decide
    dsimp only at hr
    split at hr
    · cases hr
      exact hk
    split at hr
    · cases hr
    split at hr
    · cases hr
      exact hk.resize (by omega) (by omega) (by omega) t.refCnt t.borrowed
    split at hr
    · cases hr
      exact hk.resize hroom hmax h4 1 false
    · cases hr
  | clone additionalSpace =>
    unfold nvCall clone at hc
    dsimp only at hc
    split at hc
    · next hsize =>
      obtain ⟨h1, -, -, h2⟩ := hsize
      cases hc
      refine hk.resize (by omega) (by omega) ?_ 1 false
      have h4' : (4 : Int) ∣ t.cloneSize additionalSpace := by
        unfold cloneSize
        split <;> omega
      omega
    · cases hc
  | clear =>
    unfold nvCall clear at hc
    dsimp only at hc
    split at hc
    · cases hc
      have hlen : (List.replicate t.numStaticEntries 0).length = t.numStaticEntries :=
        length_replicate
      refine empty_kept ?_ rfl rfl rfl ?_ ?_ hmax h4
      · exact congrArg (List.replicate · 0) hlen.symm
      · exact hlen.trans_lt hk.stands.layout.statics
      · show 12 + 4 * (List.replicate t.numStaticEntries 0).length + 8 * 0 ≤ t.size
        unfold ofsTableTop at hroom
        omega
    · cases hc
  | ref =>
    cases hc
    exact hk.resize hroom hmax h4 _ t.borrowed
  | unref =>
    unfold nvCall unref at hc
    dsimp only at hc
    split at hc
    · cases hc
    · cases hc
      exact hk.resize hroom hmax h4 _ t.borrowed

theorem Reachable.kept (ht : t.Reachable registry) : t.Kept registry := by
  induction ht with
  | new numStaticEntries numDynValues initLength =>
    have hlen : (List.replicate (numStaticEntries % 2 ^ 8) 0).length = numStaticEntries % 2 ^ 8 :=
      length_replicate
    have hmax : nvTableGetAllocSize numStaticEntries numDynValues initLength ≤ 2 ^ 31 - 1 := by
      unfold nvTableGetAllocSize nvTableMaxBytes
      dsimp only
      split <;> omega
    refine empty_kept (congrArg (List.replicate · 0) hlen.symm) rfl rfl rfl ?_ ?_ hmax ?_
    · exact hlen.trans_lt (Nat.mod_lt _ (by decide))
    · show 12 + 4 * (List.replicate (numStaticEntries % 2 ^ 8) 0).length + 8 * 0 ≤
        nvTableGetAllocSize numStaticEntries numDynValues initLength
      rw [hlen]
      unfold nvTableGetAllocSize nvTableBound nvTableMaxBytes
      dsimp only
      split <;> omega
    · show 4 ∣ nvTableGetAllocSize numStaticEntries numDynValues initLength
      unfold nvTableGetAllocSize nvTableBound nvTableMaxBytes
      dsimp only
      split <;> omega
  | borrowed spaceLen numStaticEntries hinit =>
    have hlen : (List.replicate (numStaticEntries % 2 ^ 8) 0).length = numStaticEntries % 2 ^ 8 :=
      length_replicate
    unfold nvTableInitBorrowed at hinit
    dsimp only at hinit
    split at hinit
    · next hspace =>
      obtain ⟨hspace, hmax⟩ := hspace
      cases hinit
      unfold nvTableMaxBytes at hmax
      refine empty_kept (congrArg (List.replicate · 0) hlen.symm) rfl rfl rfl ?_ ?_ (by
        show nvTableBound _ ≤ _
        omega) (four_dvd_nvTableBound _)
      · exact hlen.trans_lt (Nat.mod_lt _ (by decide))
      · have hle := le_nvTableBound (spaceLen / 4 * 4)
        show 12 + 4 * (List.replicate (numStaticEntries % 2 ^ 8) 0).length + 8 * 0 ≤
          nvTableBound (spaceLen / 4 * 4)
        rw [hlen]
        omega
    · cases hinit
  | call c _ hok hc ih => exact ih.call hok hc

/-! ## The layout -/

end NVTable

end SyslogNg.NameValue
