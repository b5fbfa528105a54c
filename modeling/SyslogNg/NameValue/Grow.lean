import SyslogNg.NameValue.Calls

/-!
# Growing

`nv_table_realloc` doubles a table that has one owner and its own memory; the copy it makes of any
other table gets the memory and not the size (`nv_table_realloc_grows`). `nv_table_clone` adds the
space when there is enough of it, and none when there is not (`nv_table_clone_room`).
-/

namespace SyslogNg.NameValue

open Lib

namespace NVTable

variable {registry : NVRegistry} {t t' : NVTable}

/-- What `nv_table_realloc` leaves of the table it was called with, for its other owners; `none`
when that is freed, or moved. -/
def reallocOld (self : NVTable) : Option NVTable :=
  if min (2 * self.size) nvTableMaxBytes = self.size then some self
  else if self.refCnt = 1 ∧ !self.borrowed then none
  else self.unref

theorem getValueDepth_congr (hstatic : t'.staticEntries = t.staticEntries)
    (hdyn : t'.dynEntries = t.dynEntries) (hentries : t'.entries = t.entries) (depth handle : Nat) :
    t'.getValueDepth depth handle = t.getValueDepth depth handle := by
  have hget : ∀ handle, t'.getEntry handle = t.getEntry handle := fun handle => by
    unfold getEntry getEntrySlow numStaticEntries
    rw [hstatic, hdyn]
  induction depth generalizing handle with
  | zero => rfl
  | succ depth ih => simp only [getValueDepth, hget, hentries, ih]

theorem getValue_resize (t : NVTable) (n refCnt : Nat) (borrowed : Bool) (handle : Nat) :
    getValue { t with size := n, refCnt := refCnt, borrowed := borrowed } handle =
      t.getValue handle :=
  @getValueDepth_congr t { t with size := n, refCnt := refCnt, borrowed := borrowed } rfl rfl rfl
    (t.used + 2) handle

/-- What is asked of `nv_table_realloc`: it returns; with `TRUE` the new table is larger, has more
free space and the same values, and the old one is only short of an owner; `FALSE` is for a table
of the maximum size. -/
def Grows (t : NVTable) : Prop :=
  ∃ ok t', t.realloc = some (ok, t') ∧
    (ok = true → t'.size = min (2 * t.size) nvTableMaxBytes ∧ t.free < t'.free ∧
      (∀ handle, t'.getValue handle = t.getValue handle) ∧
      ∀ old, t.reallocOld = some old → old = { t with refCnt := old.refCnt }) ∧
    (ok = false → t.size = nvTableMaxBytes)

/-- **`nv_table_realloc`** grows a table of one owner in its own memory, and says that a table of
the maximum size cannot grow. Of every other table it makes a copy of the same size, or, beyond the
maximum, a smaller one. -/
theorem nv_table_realloc_grows (ht : t.Reachable registry) : t.Grows ↔
    t.size = nvTableMaxBytes ∨ t.size < nvTableMaxBytes ∧ t.refCnt = 1 ∧ t.borrowed = false := by
  have hroom : t.ofsTableTop + t.used ≤ t.size := ht.kept.stands.layout.room
  have htop : 12 ≤ t.ofsTableTop := by
    unfold ofsTableTop
    omega
  have hmax : 0 < nvTableMaxBytes := by decide
  constructor
  · rintro ⟨ok, t', hr, htrue, hfalse⟩
    unfold realloc at hr
    dsimp only at hr
    split at hr
    · cases hr
      exact .inl (hfalse rfl)
    next hne =>
    split at hr
    · cases hr
    next hle =>
    split at hr
    · next howner =>
      obtain ⟨href, hborrowed⟩ := howner
      exact .inr ⟨by omega, href, by simpa using hborrowed⟩
    split at hr
    · cases hr
      have hsize : t.size = min (2 * t.size) nvTableMaxBytes := (htrue rfl).1
      omega
    · cases hr
  · rintro (hsize | ⟨hlt, href, hborrowed⟩)
    · refine ⟨false, t, ?_, by simp, fun _ => hsize⟩
      unfold realloc
      exact if_pos (by omega)
    · have hgrown : t.realloc = some (true, { t with size := min (2 * t.size) nvTableMaxBytes }) := by
        unfold realloc
        dsimp only
        rw [if_neg (by omega), if_neg (by omega), if_pos ⟨href, by rw [hborrowed]; rfl⟩]
      refine ⟨true, _, hgrown, fun _ => ⟨rfl, ?_, getValue_resize t _ t.refCnt t.borrowed, ?_⟩, by simp⟩
      · show t.size - (t.ofsTableTop + t.used) <
          min (2 * t.size) nvTableMaxBytes - (t.ofsTableTop + t.used)
        omega
      · intro old hold
        unfold reallocOld at hold
        rw [if_neg (by omega), if_pos ⟨href, by rw [hborrowed]; rfl⟩] at hold
        cases hold

/-- A table of two owners: the copy is said to have grown, but has the size and the room that the
table had. -/
theorem nv_table_realloc_shared : ∃ t t' : NVTable, t.Reachable oneByteNames ∧
    t.realloc = some (true, t') ∧ t.size = 128 ∧ t'.size = 128 ∧ t'.free = t.free ∧ ¬ t.Grows := by
  have ht : (nvTableNew 3 0 0).ref.Reachable oneByteNames := .call .ref (.new 3 0 0) trivial rfl
  refine ⟨(nvTableNew 3 0 0).ref, _, ht, rfl, rfl, rfl, rfl, ?_⟩
  rintro ⟨ok, t', hr, htrue, -⟩
  cases hr
  have hsize : 128 = min (2 * 128) nvTableMaxBytes := (htrue rfl).1
  exact absurd hsize (by decide)

theorem nv_table_realloc_grows_new : (nvTableNew 3 0 0).Grows :=
  (nv_table_realloc_grows (@Reachable.new oneByteNames 3 0 0)).2 (.inr ⟨by decide, rfl, rfl⟩)

/-- What is asked of `nv_table_clone`; the original is only read. -/
def ClonesWithRoom (t : NVTable) (additionalSpace : Int) : Prop :=
  ∃ t', t.clone additionalSpace = some t' ∧ (∀ handle, t'.getValue handle = t.getValue handle) ∧
    additionalSpace ≤ t'.free

/-- **`nv_table_clone`** gives room that the table has itself, and no more: the test for room is
the wrong way round. -/
theorem nv_table_clone_room (ht : t.Reachable registry) {additionalSpace : Int}
    (hpos : 0 ≤ additionalSpace) (hlt : t.size + additionalSpace < 2 ^ 31) :
    t.ClonesWithRoom additionalSpace ↔ additionalSpace ≤ t.free ∧ t.headerSize ≤ t.size ∧
      t.size + (additionalSpace + 3) / 4 * 4 < 2 ^ 31 := by
  have hroom : t.ofsTableTop + t.used ≤ t.size := ht.kept.stands.layout.room
  have hfree : (t.free : Int) = t.size - t.used - t.ofsTableTop := by
    unfold free
    omega
  have hsize : t.cloneSize additionalSpace =
      if (t.free : Int) < additionalSpace then (t.size : Int)
      else t.size + (additionalSpace + 3) / 4 * 4 := by
    unfold cloneSize
    rw [hfree]
  unfold ClonesWithRoom clone
  dsimp only
  rw [hsize]
  by_cases hfull : (t.free : Int) < additionalSpace
  · rw [if_pos hfull]
    refine ⟨?_, fun h => by omega⟩
    rintro ⟨t', hc, -, hadd⟩
    split at hc
    · cases hc
      have hadd : additionalSpace ≤
          ((((t.size : Int).toNat) - (t.ofsTableTop + t.used) : Nat) : Int) := hadd
      omega
    · cases hc
  · rw [if_neg hfull]
    constructor
    · rintro ⟨t', hc, -, -⟩
      split at hc
      · next hfits => exact ⟨by omega, hfits.2.1, hfits.1⟩
      · cases hc
    · rintro ⟨hle, hheader, hmax⟩
      have hfits : t.headerSize ≤ t.size := hheader
      refine ⟨_, if_pos ⟨hmax, hheader, by omega, by omega⟩, getValue_resize t _ 1 false, ?_⟩
      show additionalSpace ≤
        ((((t.size : Int) + (additionalSpace + 3) / 4 * 4).toNat - (t.ofsTableTop + t.used) : Nat) : Int)
      omega

theorem nv_table_clone_room_small : (nvTableNew 3 0 0).ClonesWithRoom 8 :=
  (nv_table_clone_room (@Reachable.new oneByteNames 3 0 0) (by decide) (by decide)).2 (by decide)

/-- A request for more than is free is not met. -/
theorem nv_table_clone_full : (nvTableNew 3 0 0).Reachable oneByteNames ∧
    (nvTableNew 3 0 0).free = 104 ∧ ∃ t', (nvTableNew 3 0 0).clone 200 = some t' ∧
      t'.size = 128 ∧ t'.free = 104 :=
  ⟨.new 3 0 0, rfl, _, rfl, rfl, rfl⟩

end NVTable

end SyslogNg.NameValue
