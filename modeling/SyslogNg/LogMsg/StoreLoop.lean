import SyslogNg.LogMsg.Message
import SyslogNg.NameValue.Grow

/-!
# The loops that store a value

`log_msg_set_value` and `log_msg_set_value_indirect` call until the call succeeds or the table
cannot grow. A call that needs less than the maximum size is served in the end (`LoopCall.stores`);
but `nv_table_add_value_indirect` takes the end of its own iteration for a failure, and then no
growth helps (`store_fails_for_room`).
-/

namespace SyslogNg.NameValue

open Lib

namespace NVTable

variable {max : Nat} {registry : NVRegistry} {t t' : NVTable} {handle : Nat}

/-! ## What size and owners do not change -/

theorem directSpaceAt_resize (t : NVTable) (n refCnt : Nat) (borrowed : Bool) (ref : Nat)
    (slots : List Slot) :
    directSpaceAt { t with size := n, refCnt := refCnt, borrowed := borrowed } ref slots =
      t.directSpaceAt ref slots := by
  have hof : ∀ h, directSpaceOf { t with size := n, refCnt := refCnt, borrowed := borrowed } ref h =
      t.directSpaceOf ref h := by
    intro h
    unfold directSpaceOf
    rw [getValue_resize]
    rfl
  have hat : ∀ s, slotAt { t with size := n, refCnt := refCnt, borrowed := borrowed } s =
      t.slotAt s := fun s => by cases s <;> rfl
  unfold directSpaceAt
  simp only [hof, hat]

theorem directSpace_resize (t : NVTable) (n refCnt : Nat) (borrowed : Bool) (handle : Nat) :
    directSpace { t with size := n, refCnt := refCnt, borrowed := borrowed } handle =
      t.directSpace handle := by
  unfold directSpace
  rw [directSpaceAt_resize]
  rfl

theorem storeSpace_resize (t : NVTable) (n refCnt : Nat) (borrowed : Bool) (handle : Nat)
    (name value : List UInt8) :
    storeSpace { t with size := n, refCnt := refCnt, borrowed := borrowed } handle name value =
      t.storeSpace handle name value := by
  unfold storeSpace
  rw [directSpace_resize]
  rfl

theorem referenceSpace_resize (t : NVTable) (n refCnt : Nat) (borrowed : Bool) (handle : Nat)
    (name : List UInt8) :
    referenceSpace { t with size := n, refCnt := refCnt, borrowed := borrowed } handle name =
      t.referenceSpace handle name := by
  unfold referenceSpace
  rw [directSpace_resize]
  rfl

theorem getValueDepth_entryOf (hl : t.LayoutIn max) (hl' : t'.LayoutIn max) (hof : t'.entryOf = t.entryOf)
    (depth handle : Nat) : t'.getValueDepth depth handle = t.getValueDepth depth handle := by
  induction depth generalizing handle with
  | zero => rfl
  | succ depth ih =>
    obtain ⟨slot, hget, -⟩ := getEntry_spec hl handle
    obtain ⟨slot', hget', -⟩ := getEntry_spec hl' handle
    rw [getValueDepth, getValueDepth, hget, hget']
    cases he : t.entryOf handle with
    | none =>
      rw [entryOf_eq_none hl he, entryOf_eq_none hl' (by rw [hof, he])]
      rfl
    | some e =>
      obtain ⟨-, hofs, hat⟩ := entryOf_eq_some he
      obtain ⟨-, hofs', hat'⟩ := entryOf_eq_some (show t'.entryOf handle = some e by rw [hof, he])
      simp only [hofs, hofs', hat, hat', Option.bind_some, ih]

theorem Writes.used_le (h : Writes t t') : t.used ≤ t'.used := by
  refine h.invariant (P := fun u => t.used ≤ u.used) (fun u u' hw hle => ?_) (Nat.le_refl _)
  cases hw with
  | statics => exact hle
  | dyns => exact hle
  | block => exact hle.trans (Nat.le_add_right _ _)
  | entry => exact hle

theorem Writes.owner (h : Writes t t') : t'.refCnt = t.refCnt ∧ t'.borrowed = t.borrowed := by
  refine h.invariant (P := fun u => u.refCnt = t.refCnt ∧ u.borrowed = t.borrowed)
    (fun u u' hw howner => ?_) ⟨rfl, rfl⟩
  cases hw with
  | statics => exact howner
  | dyns => exact howner
  | block => exact howner
  | entry => exact howner

/-! ## Growing -/

/-- The table grows in its own memory. -/
def Owned (t : NVTable) : Prop := t.refCnt = 1 ∧ t.borrowed = false

theorem realloc_owned (ho : t.Owned) (hpos : 0 < t.size) (hlt : t.size < nvTableMaxBytes) :
    t.realloc = some (true, { t with size := min (2 * t.size) nvTableMaxBytes }) := by
  unfold realloc
  dsimp only
  rw [if_neg (by omega), if_neg (by omega), if_pos ⟨ho.1, by rw [ho.2]; rfl⟩]

theorem realloc_copy (ho : ¬ t.Owned) (hpos : 0 < t.size) (hlt : t.size < nvTableMaxBytes)
    (hheader : t.headerSize ≤ t.size) :
    t.realloc = some (true, { t with refCnt := 1, borrowed := false }) := by
  unfold realloc
  dsimp only
  rw [if_neg (by omega), if_neg (by omega), if_neg, if_pos hheader]
  rintro ⟨href, hborrowed⟩
  exact ho ⟨href, by simpa using hborrowed⟩

theorem realloc_eq {ok : Bool} (h : t.realloc = some (ok, t')) : ∃ n refCnt borrowed,
    t.size ≤ n ∧ t' = { t with size := n, refCnt := refCnt, borrowed := borrowed } := by
  unfold realloc at h
  dsimp only at h
  split at h
  · cases h
    exact ⟨t.size, t.refCnt, t.borrowed, Nat.le_refl _, rfl⟩
  split at h
  · cases h
  next hle =>
  split at h
  · cases h
    exact ⟨_, t.refCnt, t.borrowed, Nat.le_of_not_lt hle, rfl⟩
  split at h
  · cases h
    exact ⟨t.size, 1, false, Nat.le_refl _, rfl⟩
  · cases h

/-- The header of the table is not read past its end when the table is copied, also after a call
for the handle that failed. -/
def Copyable (t : NVTable) (handle : Nat) : Prop :=
  t.Owned ∨ 0 < t.used ∨ t.free ≠ 0 ∧ t.free ≠ t.slotSpace handle

theorem slotSpace_le (t : NVTable) (handle : Nat) : t.slotSpace handle = 0 ∨ t.slotSpace handle = 8 := by
  unfold slotSpace
  split
  · exact .inr rfl
  · exact .inl rfl

theorem marked_of_unused (hk : t.Kept registry) (hused : t.used = 0) : t.marked handle = false := by
  cases he : t.entryOf handle with
  | none => simp only [marked, he]
  | some e =>
    obtain ⟨-, -, hat⟩ := entryOf_eq_some he
    obtain ⟨hle, hpos, halloc, -⟩ := hk.stands.layout.block _ e hat
    have hle : t.slotOfs handle ≤ t.used := hle
    omega

end NVTable

end SyslogNg.NameValue

namespace SyslogNg.LogMsg

open NameValue NameValue.NVTable

/-- `addLoop`, with what its last call returned: `FALSE` where the loop is left with a `break`. -/
def retryLoop (add : NVTable → Option AddResult) : Nat → NVTable → Option AddResult
  | 0, _ => none
  | rounds + 1, table => (add table).bind fun r =>
    if r.ok then some r
    else r.table.realloc.bind fun (grown, table) =>
      if grown then retryLoop add rounds table else some { r with table := table }

variable {registry : NVRegistry} {t : NVTable} {handle : Nat} {add : NVTable → Option AddResult}
  {need : NVTable → Nat} {P : NVTable → Prop}

theorem addLoop_eq (add : NVTable → Option AddResult) (rounds : Nat) (t : NVTable) :
    addLoop add rounds t = (retryLoop add rounds t).map fun r => (r.table, r.newEntry) := by
  induction rounds generalizing t with
  | zero => rfl
  | succ rounds ih =>
    rw [addLoop, retryLoop]
    cases add t with
    | none => rfl
    | some r =>
      obtain ⟨ok, newEntry, t1⟩ := r
      cases ok with
      | true => rfl
      | false =>
        simp only [Option.bind_some, Bool.false_eq_true, if_false]
        cases t1.realloc with
        | none => rfl
        | some p =>
          obtain ⟨grown, t2⟩ := p
          cases grown with
          | true => exact ih t2
          | false => rfl

/-- A call that fails for want of room alone: what it needs is no more the next time, and depends
neither on the size nor on the owners of the table. -/
structure LoopCall (registry : NVRegistry) (handle : Nat) (add : NVTable → Option AddResult)
    (need : NVTable → Nat) (P : NVTable → Prop) : Prop where
  resize : ∀ (t : NVTable) n refCnt borrowed, P t →
    P { t with size := n, refCnt := refCnt, borrowed := borrowed } ∧
      need { t with size := n, refCnt := refCnt, borrowed := borrowed } = need t
  call : ∀ t, t.Kept registry → P t → ∃ r, add t = some r ∧ r.table.Kept registry ∧
    Writes t r.table ∧ (r.ok = false → P r.table ∧ r.table.size = t.size ∧ t.size < need t ∧
      need r.table ≤ need t ∧ (t.marked handle = false → r.table.used = t.used ∧
        r.table.ofsTableTop + r.table.slotSpace handle = t.ofsTableTop + t.slotSpace handle))

theorem size_pos (hk : t.Kept registry) : 0 < t.size := by
  have hroom : t.ofsTableTop + t.used ≤ t.size := hk.stands.layout.room
  unfold ofsTableTop at hroom
  omega

theorem LoopCall.stores_owned (hc : LoopCall registry handle add need P) {k rounds : Nat}
    (hrounds : k < rounds) (hk : t.Kept registry) (hP : P t) (ho : t.Owned)
    (hneed : need t ≤ nvTableMaxBytes) (hsize : nvTableMaxBytes ≤ t.size * 2 ^ k) :
    ∃ r, retryLoop add rounds t = some r ∧ r.ok = true := by
  induction k generalizing rounds t with
  | zero =>
    obtain ⟨r, hr, -, -, hfail⟩ := hc.call t hk hP
    obtain ⟨rounds, rfl⟩ := Nat.exists_eq_succ_of_ne_zero (Nat.ne_of_gt hrounds)
    cases hok : r.ok with
    | false =>
      obtain ⟨-, -, hlt, -⟩ := hfail hok
      omega
    | true => exact ⟨r, by rw [retryLoop, hr, Option.bind_some, if_pos hok], hok⟩
  | succ k ih =>
    obtain ⟨r, hr, hk1, hw, hfail⟩ := hc.call t hk hP
    obtain ⟨rounds, rfl⟩ := Nat.exists_eq_succ_of_ne_zero (show rounds ≠ 0 by omega)
    cases hok : r.ok with
    | true => exact ⟨r, by rw [retryLoop, hr, Option.bind_some, if_pos hok], hok⟩
    | false =>
      obtain ⟨hP1, hsize1, hlt, hneed1, -⟩ := hfail hok
      have ho1 : r.table.Owned := ⟨hw.owner.1.trans ho.1, hw.owner.2.trans ho.2⟩
      have hlt1 : r.table.size < nvTableMaxBytes := by omega
      have hroom1 : r.table.ofsTableTop + r.table.used ≤ r.table.size := hk1.stands.layout.room
      have hmax : nvTableMaxBytes = 2 ^ 28 := by decide
      have h4 := hk1.aligned.size
      obtain ⟨hP2, hneed2⟩ := hc.resize r.table (min (2 * r.table.size) nvTableMaxBytes)
        r.table.refCnt r.table.borrowed hP1
      obtain ⟨r', hr', hok'⟩ := ih (show k < rounds by omega)
        (hk1.resize (n := min (2 * r.table.size) nvTableMaxBytes) (by omega) (by omega) (by omega)
          r.table.refCnt r.table.borrowed) hP2 ho1 (by omega) (by
            show nvTableMaxBytes ≤ min (2 * r.table.size) nvTableMaxBytes * 2 ^ k
            rw [Nat.pow_succ, ← hsize1] at hsize
            have hpow := Nat.one_le_two_pow (n := k)
            rcases Nat.le_total (2 * r.table.size) nvTableMaxBytes with hle | hle
            · rw [Nat.min_eq_left hle]
              calc nvTableMaxBytes ≤ r.table.size * (2 ^ k * 2) := hsize
                _ = 2 * r.table.size * 2 ^ k := by ring
            · rw [Nat.min_eq_right hle]
              exact Nat.le_mul_of_pos_right _ hpow)
      refine ⟨r', ?_, hok'⟩
      rw [retryLoop, hr, Option.bind_some, if_neg (by rw [hok]; decide),
        realloc_owned ho1 (size_pos hk1) hlt1]
      exact hr'

/-- **The loop** ends with the value stored, if the call needs no more than the maximum size. -/
theorem LoopCall.stores (hc : LoopCall registry handle add need P) (hk : t.Kept registry) (hP : P t)
    (hcopy : t.Copyable handle) (hneed : need t ≤ nvTableMaxBytes) :
    ∃ r, retryLoop add 64 t = some r ∧ r.ok = true := by
  have hgrown : ∀ {t : NVTable}, t.Kept registry → nvTableMaxBytes ≤ t.size * 2 ^ 28 := by
    intro t hk
    have hpos := size_pos hk
    have hmax : nvTableMaxBytes = 2 ^ 28 := by decide
    omega
  by_cases ho : t.Owned
  · exact hc.stores_owned (k := 28) (by decide) hk hP ho hneed (hgrown hk)
  obtain ⟨r, hr, hk1, hw, hfail⟩ := hc.call t hk hP
  cases hok : r.ok with
  | true => exact ⟨r, by rw [retryLoop, hr, Option.bind_some, if_pos hok], hok⟩
  | false =>
    obtain ⟨hP1, hsize1, hlt, hneed1, hsame⟩ := hfail hok
    have ho1 : ¬ r.table.Owned := fun h => ho ⟨hw.owner.1.symm.trans h.1, hw.owner.2.symm.trans h.2⟩
    have hroom1 : r.table.ofsTableTop + r.table.used ≤ r.table.size := hk1.stands.layout.room
    -- the copy reads four bytes more than the offset tables
    have hheader : r.table.headerSize ≤ r.table.size := by
      have hhead : r.table.headerSize = r.table.ofsTableTop + 4 := by
        unfold headerSize ofsTableTop
        omega
      have h4 := hk1.aligned.used
      have hused := hw.used_le
      by_cases hpos : 0 < t.used
      · omega
      · obtain ⟨hused1, htop⟩ := hsame (marked_of_unused hk (by omega))
        obtain hfree | hfree | ⟨hfree, hslot⟩ := hcopy
        · exact absurd hfree ho
        · exact absurd hfree hpos
        · have h4' := hk1.aligned.size
          have hs := slotSpace_le t handle
          have hs1 := slotSpace_le r.table handle
          have htop4 : 4 ∣ t.ofsTableTop ∧ 4 ∣ r.table.ofsTableTop := by
            unfold ofsTableTop
            omega
          unfold free at hfree hslot
          omega
    obtain ⟨hP2, hneed2⟩ := hc.resize r.table r.table.size 1 false hP1
    have hk2 := hk1.resize (n := r.table.size) hroom1 hk1.stands.layout.size_le hk1.aligned.size 1 false
    obtain ⟨r', hr', hok'⟩ := hc.stores_owned (k := 28) (show 28 < 63 by decide) hk2 hP2
      ⟨rfl, rfl⟩ (by omega) (hgrown hk2)
    refine ⟨r', ?_, hok'⟩
    rw [retryLoop, hr, Option.bind_some, if_neg (by rw [hok]; decide),
      realloc_copy ho1 (size_pos hk1) (by omega) hheader]
    exact hr'

/-! ## The calls -/

theorem storeSpace_withOwner (t : NVTable) (handle : Nat) (name value : List UInt8) :
    (t.withOwner 1 false).storeSpace handle name value = t.storeSpace handle name value :=
  storeSpace_resize t t.size 1 false handle name value

theorem referenceSpace_withOwner (t : NVTable) (handle : Nat) (name : List UInt8) :
    (t.withOwner 1 false).referenceSpace handle name = t.referenceSpace handle name :=
  referenceSpace_resize t t.size 1 false handle name

theorem directSpace_withOwner (t : NVTable) (handle : Nat) :
    (t.withOwner 1 false).directSpace handle = t.directSpace handle :=
  directSpace_resize t t.size 1 false handle

theorem addValue_served (hk : t.Kept registry) (hpos : 0 < handle) (hlt : handle < 2 ^ 16)
    (value : List UInt8) (newEntry : Bool) :
    ∃ r, t.addValue handle (registry.name handle) value newEntry = some r ∧ r.table.Kept registry ∧
      (r.ok = false → r.table.size = t.size ∧
        t.size < t.ofsTableTop + t.used + t.storeSpace handle (registry.name handle) value ∧
        r.table.ofsTableTop + r.table.used + r.table.storeSpace handle (registry.name handle) value ≤
          t.ofsTableTop + t.used + t.storeSpace handle (registry.name handle) value ∧
        (t.marked handle = false → r.table.entryOf = t.entryOf ∧ r.table.used = t.used ∧
          r.table.ofsTableTop + r.table.slotSpace handle = t.ofsTableTop + t.slotSpace handle)) := by
  obtain ⟨r, hr, hkept, hserved⟩ := hk.addValue hpos hlt value newEntry
  refine ⟨r, hr, hkept, fun hok => ⟨hserved.size, ?_, ?_, fun hmark => hserved.same hmark hok⟩⟩
  · have h := hserved.failed hok
    rw [storeSpace_withOwner] at h
    exact h
  · have h := hserved.less hok
    rw [storeSpace_withOwner, show (r.withOwner 1 false).table = r.table.withOwner 1 false from rfl,
      storeSpace_withOwner] at h
    exact h

theorem addValue_call (registry : NVRegistry) (hpos : 0 < handle) (hlt : handle < 2 ^ 16)
    (value : List UInt8) :
    LoopCall registry handle (·.addValue handle (registry.name handle) value true)
      (fun t => t.ofsTableTop + t.used + t.storeSpace handle (registry.name handle) value)
      fun _ => True where
  resize t n refCnt borrowed _ := ⟨trivial, by rw [storeSpace_resize]; rfl⟩
  call t hk _ := by
    obtain ⟨r, hr, hkept, hfail⟩ := addValue_served hk hpos hlt value true
    refine ⟨r, hr, hkept, addValueDepth_writes hr, fun hok => ?_⟩
    obtain ⟨hsize, hfull, hless, hsame⟩ := hfail hok
    exact ⟨trivial, hsize, hfull, hless, fun hmark => (hsame hmark).2⟩

theorem reference_call (registry : NVRegistry) (hpos : 0 < handle) (hlt : handle < 2 ^ 16)
    (ref type : Nat) {ofs len : Nat} (hlen : ofs + len < 2 ^ 32) :
    LoopCall registry handle
      (·.addValueIndirect handle (registry.name handle) ref type ofs len true)
      (fun t => t.ofsTableTop + t.used + t.referenceSpace handle (registry.name handle))
      fun t => t.indirectAt ref = false ∧ (t.entryOf ref).isSome = true ∧ t.marked handle = false where
  resize t n refCnt borrowed hP := ⟨hP, by rw [referenceSpace_resize]; rfl⟩
  call t hk hP := by
    obtain ⟨href, hentry, hmark⟩ := hP
    obtain ⟨r, hr⟩ := Option.isSome_iff_exists.1
      (hk.addReference_isSome hpos hlt href hentry type ofs len true)
    have hreferred := hk.referred hpos hlt href hr
    refine ⟨r, hr, hk.addValueIndirect hpos hlt hlen hr, addValueIndirect_writes hr, fun hok => ?_⟩
    obtain ⟨hof, hrest⟩ := hreferred.same hmark hok
    have hof : r.table.entryOf = t.entryOf := hof
    have hfull := hreferred.failed hmark hok
    have hless := hreferred.less hmark hok
    rw [referenceSpace_withOwner] at hfull hless
    rw [show (r.withOwner 1 false).table = r.table.withOwner 1 false from rfl,
      referenceSpace_withOwner] at hless
    refine ⟨?_, hreferred.size, hfull, hless, fun _ => hrest⟩
    unfold indirectAt marked
    rw [hof]
    exact ⟨href, hentry, hmark⟩

theorem copy_call (registry : NVRegistry) (hpos : 0 < handle) (hlt : handle < 2 ^ 16)
    (ref type : Nat) {ofs len : Nat} (hlen : ofs + len < 2 ^ 32) (value : List UInt8) :
    LoopCall registry handle
      (·.addValueIndirect handle (registry.name handle) ref type ofs len true)
      (fun t => t.ofsTableTop + t.used +
        t.storeSpace handle (registry.name handle) (resolveSlice value ofs len))
      fun t => t.indirectAt ref = true ∧ t.getValue ref = some value ∧ t.marked handle = false where
  resize t n refCnt borrowed hP := by
    rw [storeSpace_resize, getValue_resize]
    exact ⟨hP, rfl⟩
  call t hk hP := by
    obtain ⟨href, hvalue, hmark⟩ := hP
    obtain ⟨r, hr, hkept, hfail⟩ := addValue_served hk hpos hlt (resolveSlice value ofs len) true
    refine ⟨r, ?_, hkept, addValueDepth_writes hr, fun hok => ?_⟩
    · rw [hk.addValueIndirect_copy href hlen, hvalue]
      exact hr
    obtain ⟨hsize, hfull, hless, hsame⟩ := hfail hok
    obtain ⟨hof, hused, htop⟩ := hsame hmark
    refine ⟨⟨?_, ?_, ?_⟩, hsize, hfull, hless, fun _ => ⟨hused, htop⟩⟩
    · unfold indirectAt
      rw [hof]
      exact href
    · rw [← hvalue, getValue, getValue, hused]
      rw [← getValueDepth_withOwner r.table 1 false, ← getValueDepth_withOwner t 1 false]
      exact getValueDepth_entryOf hk.stands.layout hkept.stands.layout hof _ _
    · unfold marked
      rw [hof]
      exact hmark

theorem marked_fails (hk : t.Kept registry) (hpos : 0 < handle) (hlt : handle < 2 ^ 16)
    {ref type ofs len : Nat} (hlen : ofs + len < 2 ^ 32) (href : t.indirectAt ref = false)
    (hmark : t.marked handle = true) (hroom : t.ofsTableTop + t.used + t.directSpace handle ≤ t.size)
    (rounds : Nat) {r : AddResult} (hr : retryLoop
      (·.addValueIndirect handle (registry.name handle) ref type ofs len true) rounds t = some r) :
    r.ok = false := by
  induction rounds generalizing t with
  | zero => cases hr
  | succ rounds ih =>
    obtain ⟨r1, hr1, hr⟩ := Option.bind_eq_some_iff.1 hr
    have hreferred := hk.referred hpos hlt href hr1
    have hk1 := hk.addValueIndirect hpos hlt hlen hr1
    obtain ⟨hok, hmark1, hdirect, hless⟩ := hreferred.marked hmark (by
      rw [directSpace_withOwner]
      exact hroom)
    have hok : r1.ok = false := hok
    have hmark1 : r1.table.marked handle = true := hmark1
    have href1 : r1.table.indirectAt ref = false := hdirect ref href
    have hsize1 : r1.table.size = t.size := hreferred.size
    rw [directSpace_withOwner, show (r1.withOwner 1 false).table = r1.table.withOwner 1 false from rfl,
      directSpace_withOwner] at hless
    have hroom1 : r1.table.ofsTableTop + r1.table.used + r1.table.directSpace handle ≤ t.size :=
      hless.trans hroom
    rw [if_neg (by rw [hok]; decide)] at hr
    obtain ⟨⟨grown, t2⟩, hrealloc, hr⟩ := Option.bind_eq_some_iff.1 hr
    have hk2 : t2.Kept registry :=
      hk1.call (c := .realloc) trivial (by rw [nvCall, hrealloc]; rfl)
    cases grown with
    | false =>
      cases hr
      exact hok
    | true =>
      obtain ⟨n, refCnt, borrowed, hle, rfl⟩ := realloc_eq hrealloc
      exact ih hk2 href1 hmark1 (by
        rw [directSpace_resize]
        show r1.table.ofsTableTop + r1.table.used + _ ≤ n
        omega) hr

/-- **A value is not stored only for want of room**, by `nv_table_add_value`, and by
`nv_table_add_value_indirect` but where it makes references to the handle direct for a target that
it then refers to. The loops of `log_msg_set_value` and `log_msg_set_value_indirect` store what fits
into a table of the maximum size; over a marked entry, when its references have room, the second
stores nothing. -/
theorem store_fails_for_room (ht : t.Reachable registry) (hpos : 0 < handle)
    (hlt : handle < 2 ^ 16) :
    (∀ value newEntry r, t.addValue handle (registry.name handle) value newEntry = some r →
      r.ok = false → t.free < t.storeSpace handle (registry.name handle) value) ∧
    (∀ ref type ofs len newEntry r, ofs + len < 2 ^ 32 →
      t.addValueIndirect handle (registry.name handle) ref type ofs len newEntry = some r →
      ((r.ok = false → t.free < t.indirectSpace handle (registry.name handle) ref ofs len) ↔
        ¬ (t.indirectAt ref = false ∧ t.marked handle = true ∧
          t.referenceSpace handle (registry.name handle) ≤ t.free))) ∧
    (t.Copyable handle → ∀ value, t.ofsTableTop + t.used +
        t.storeSpace handle (registry.name handle) value ≤ nvTableMaxBytes →
      ∃ r, retryLoop (·.addValue handle (registry.name handle) value true) 64 t = some r ∧
        r.ok = true) ∧
    ∀ ref type ofs len, ofs + len < 2 ^ 32 → (t.entryOf ref).isSome = true →
      (t.getValue ref).isSome = true →
      (t.Copyable handle → t.ofsTableTop + t.used +
          t.indirectSpace handle (registry.name handle) ref ofs len ≤ nvTableMaxBytes →
        t.marked handle = false →
        ∃ r, retryLoop (·.addValueIndirect handle (registry.name handle) ref type ofs len true) 64 t =
          some r ∧ r.ok = true) ∧
      (t.indirectAt ref = false → t.marked handle = true → t.directSpace handle ≤ t.free →
        ∀ rounds r, retryLoop
          (·.addValueIndirect handle (registry.name handle) ref type ofs len true) rounds t =
            some r → r.ok = false) := by
  have hk := ht.kept
  have hroom : t.ofsTableTop + t.used ≤ t.size := hk.stands.layout.room
  have hfree : t.free = t.size - (t.ofsTableTop + t.used) := rfl
  refine ⟨?_, ?_, ?_, ?_⟩
  · intro value newEntry r hr hok
    obtain ⟨r', hr', -, hfail⟩ := addValue_served hk hpos hlt value newEntry
    cases hr.symm.trans hr'
    have := (hfail hok).2.1
    omega
  · intro ref type ofs len newEntry r hlen hr
    cases href : t.indirectAt ref with
    | true =>
      rw [hk.addValueIndirect_copy href hlen] at hr
      obtain ⟨value, hvalue, hr⟩ := Option.bind_eq_some_iff.1 hr
      obtain ⟨r', hr', -, hfail⟩ := addValue_served hk hpos hlt (resolveSlice value ofs len) newEntry
      cases hr.symm.trans hr'
      refine ⟨fun _ h => by simp at h, fun _ hok => ?_⟩
      have := (hfail hok).2.1
      rw [indirectSpace, if_pos href, hvalue, Option.getD_some]
      omega
    | false =>
      have hreferred := hk.referred hpos hlt href hr
      have hspace : t.indirectSpace handle (registry.name handle) ref ofs len =
          t.referenceSpace handle (registry.name handle) := by
        rw [indirectSpace, if_neg (by rw [href]; decide)]
      rw [hspace]
      cases hmark : t.marked handle with
      | false =>
        refine ⟨fun _ h => by simp at h, fun _ hok => ?_⟩
        have hfull := hreferred.failed hmark hok
        rw [referenceSpace_withOwner] at hfull
        have hfull : t.size < t.ofsTableTop + t.used +
          t.referenceSpace handle (registry.name handle) := hfull
        omega
      | true =>
        constructor
        · rintro hclaim ⟨-, -, hle⟩
          have hdirect : t.directSpace handle ≤ t.referenceSpace handle (registry.name handle) :=
            Nat.le_add_right _ _
          obtain ⟨hok, -⟩ := hreferred.marked hmark (by
            rw [directSpace_withOwner]
            show t.ofsTableTop + t.used + t.directSpace handle ≤ t.size
            omega)
          have := hclaim hok
          omega
        · intro hnot _
          by_contra hle
          exact hnot ⟨rfl, rfl, by omega⟩
  · intro hcopy value hfits
    exact (addValue_call registry hpos hlt value).stores hk trivial hcopy hfits
  · intro ref type ofs len hlen hentry hvalue
    refine ⟨fun hcopy hfits hmark => ?_, fun href hmark hdirect rounds r hr =>
      marked_fails hk hpos hlt hlen href hmark (by omega) rounds hr⟩
    obtain ⟨value, hv⟩ := Option.isSome_iff_exists.1 hvalue
    cases href : t.indirectAt ref with
    | true =>
      rw [indirectSpace, if_pos href, hv, Option.getD_some] at hfits
      exact (copy_call registry hpos hlt ref type hlen value).stores hk ⟨href, hv, hmark⟩ hcopy hfits
    | false =>
      rw [indirectSpace, if_neg (by rw [href]; decide)] at hfits
      exact (reference_call registry hpos hlt ref type hlen).stores hk ⟨href, hentry, hmark⟩ hcopy hfits

theorem store_fails_for_room_grown : ∃ r,
    retryLoop (·.addValue 5 [110] (List.replicate 100 97) true) 64 (nvTableNew 3 0 0) = some r ∧
      r.ok = true :=
  (@store_fails_for_room oneByteNames _ 5 (.new 3 0 0) (by decide) (by decide)).2.2.1
    (.inl ⟨rfl, rfl⟩) (List.replicate 100 97) (by decide)

/-- Handle `4` refers to `1`; then `1` cannot be made a reference to `2`, although there is room, and
the loop grows the table to the maximum size for nothing. -/
theorem reference_fails_with_room : ∃ t r r', t.Reachable oneByteNames ∧
    t.addValueIndirect 1 [110] 2 0 0 1 true = some r ∧ r.ok = false ∧
    t.indirectSpace 1 [110] 2 0 1 ≤ t.free ∧
    retryLoop (·.addValueIndirect 1 [110] 2 0 0 1 true) 64 t = some r' ∧ r'.ok = false ∧
    r'.table.size = nvTableMaxBytes :=
  ⟨_, _, _, .call (.addValueIndirect 4 1 0 0 2 true) (.call (.addValue 2 [122] true)
    (.call (.addValue 1 [97, 98] true) (.new 3 0 0) ⟨by decide, by decide⟩ rfl)
      ⟨by decide, by decide⟩ rfl) ⟨by decide, by decide, by decide⟩ rfl,
    rfl, rfl, by decide, rfl, rfl, by decide⟩

end SyslogNg.LogMsg
