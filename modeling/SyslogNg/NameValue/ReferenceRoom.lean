import SyslogNg.NameValue.Room

/-!
# The room a reference needs

`nv_table_add_value_indirect` is stuck only for a target without an entry. Where it has to make
references direct it takes the end of that for a failure (`addReference_room`).
-/

namespace SyslogNg.NameValue

open Lib Function Option
open Option (bind_eq_some_iff bind_some map_some)

namespace NVTable

variable {max : Nat} {names : Nat → List UInt8} {t t' : NVTable} {handle ref : Nat} {e : NVEntry}
  {refOfs : Option Nat}

theorem cells_setReferenced {o : Nat} (hs : t.setReferenced o = some t') :
    EntryMap.cells t'.entryOf = EntryMap.cells t.entryOf := by
  obtain ⟨e, he, rfl⟩ := map_eq_some_iff.1 hs
  funext h
  show (((entryAtOfs (t.slotOfs h)).bind _).map NVEntry.cell) =
    ((entryAtOfs (t.slotOfs h)).bind t.entries).map NVEntry.cell
  cases entryAtOfs (t.slotOfs h) with
  | none => rfl
  | some o' =>
    simp only [bind_some]
    by_cases ho : o' = o
    · rw [ho, update_self, he]
      rfl
    · rw [update_of_ne ho]

/-- The call ends in `P`, or steps through the `NULL` pointer of its target. -/
def Ends (refOfs : Option Nat) (call : Option AddResult) (P : AddResult → Prop) : Prop :=
  (refOfs.isSome = true → call.isSome = true) ∧ ∀ r, call = some r → P r

theorem Ends.intro {call : Option AddResult} {P : AddResult → Prop} {r : AddResult}
    (hcall : call = some r) (h : P r) : Ends refOfs call P := by
  refine ⟨fun _ => by rw [hcall]; rfl, fun r' hr' => ?_⟩
  cases hcall.symm.trans hr'
  exact h

theorem Ends.stuck {P : AddResult → Prop} : Ends none none P := ⟨by simp, by simp⟩

theorem setReferenced_any (hs : t.Stands names) {o : Nat} (hat : t.entries o = some e) :
    ∃ t', t.setReferenced o = some t' ∧ t'.Stands names ∧ t.SameTables t' ∧ t'.used = t.used ∧
      t'.slotOfs = t.slotOfs ∧ ∀ h x, t.entryOf h = some x →
        ∃ mark, t'.entryOf h = some { x with referenced := mark } := by
  have hl := hs.layout
  have hentries : ∀ o', (update t.entries o (some { e with referenced := true }) o').isSome =
      (t.entries o').isSome := by
    intro o'
    by_cases ho : o' = o
    · rw [ho, update_self, hat]
      rfl
    · rw [update_of_ne ho]
  have hold : ∀ o' x, update t.entries o (some { e with referenced := true }) o' = some x →
      ∃ y, t.entries o' = some y ∧ x.allocLen = y.allocLen ∧ x.payload = y.payload := by
    intro o' x hx
    by_cases ho : o' = o
    · rw [ho, update_self] at hx
      cases hx
      exact ⟨e, ho ▸ hat, rfl, rfl⟩
    · rw [update_of_ne ho] at hx
      exact ⟨x, hx, rfl, rfl⟩
  refine ⟨{ t with entries := update t.entries o (some { e with referenced := true }) },
    by rw [setReferenced, hat]; rfl, ⟨⟨hl.statics, hl.sorted, hl.handles, hl.room, hl.size_le,
    ?_, hl.distinct, ?_, ?_, hl.owned⟩, ?_, ?_⟩, ⟨rfl, rfl, rfl, rfl, rfl⟩, rfl, rfl, ?_⟩
  · intro h hne
    exact (hentries _).trans (hl.present h hne)
  · intro o' x hx
    obtain ⟨y, hy, halloc, hpayload⟩ := hold o' x hx
    obtain ⟨h1, h2, h3, h4⟩ := hl.block o' y hy
    exact ⟨h1, halloc ▸ h2, halloc ▸ h3, hpayload ▸ halloc ▸ h4⟩
  · intro o1 o2 x ho1 hx hlt
    obtain ⟨y, hy, halloc, -⟩ := hold o2 x hx
    rw [halloc]
    exact hl.apart o1 o2 y ((hentries o1).symm.trans ho1) hy hlt
  · intro h x hx
    obtain ⟨o', ho', hx⟩ := bind_eq_some_iff.1 hx
    obtain ⟨y, hy, -, hpayload⟩ := hold o' x hx
    rw [hpayload]
    exact hs.nameLen h y (bind_eq_some_iff.2 ⟨o', ho', hy⟩)
  · intro h x hx
    obtain ⟨o', ho', hx⟩ := bind_eq_some_iff.1 hx
    obtain ⟨y, hy, -, hpayload⟩ := hold o' x hx
    rw [hpayload]
    exact hs.valueLen h y (bind_eq_some_iff.2 ⟨o', ho', hy⟩)
  · intro h x hx
    obtain ⟨o', ho', hx⟩ := bind_eq_some_iff.1 hx
    by_cases ho : o' = o
    · rw [ho, hat] at hx
      cases hx
      refine ⟨true, bind_eq_some_iff.2 ⟨o', ho', ?_⟩⟩
      rw [ho]
      exact update_self _ _ _
    · refine ⟨x.referenced, bind_eq_some_iff.2 ⟨o', ho', ?_⟩⟩
      exact (update_of_ne ho _ _).trans hx

variable {rofs rlen : Nat}

theorem indirect_bytes_le {type : Nat} {stored name : List UInt8} (h : stored.length ≤ name.length) :
    (NVPayload.vindirect ref rofs rlen type stored).bytes ≤ nvEntryIndirectHdr + name.length + 1 := by
  show 21 + stored.length + 1 ≤ 24 + name.length + 1
  omega

theorem freshReference_room {slot : Option Nat} {type : Nat} {stored : List UInt8} (hs : t.Stands names)
    (hpos : 0 < handle) (hlt : handle < 2 ^ 16) (hslot : t.SlotOf handle slot)
    (hstored : stored.length ≤ (names handle).length)
    (hat : ∀ o, refOfs = some o → (t.entries o).isSome = true) (newEntry : Bool) :
    Ends refOfs ((t.allocEntry handle slot newEntry (nvEntryIndirectHdr + (names handle).length + 1)
        (.vindirect ref rofs rlen type stored)).bind fun result =>
        if result.ok then (refOfs.bind result.table.setReferenced).map
          fun self => (⟨true, newEntry, self⟩ : AddResult) else some result) fun r =>
      r.table.Stands names ∧ r.table.size = t.size ∧ (r.ok = false →
        t.size < t.ofsTableTop + t.used + (t.slotSpace handle +
          nvTableBound (nvEntryIndirectHdr + (names handle).length + 1)) ∧
        r.table.entryOf = t.entryOf ∧ r.table.used = t.used ∧
        r.table.ofsTableTop + r.table.slotSpace handle = t.ofsTableTop + t.slotSpace handle) ∧
      Framed handle none t r := by
  obtain ⟨ok, t1, halloc, hl1, hsize1, -, hof, hfail⟩ :=
    allocEntry_room hs.layout hpos hlt hslot newEntry (by omega) (indirect_bytes_le hstored)
  rw [halloc, bind_some]
  cases ok with
  | false =>
    obtain ⟨hfull, hused, htop⟩ := hfail rfl
    exact .intro rfl ⟨hs.of_entryOf hl1 hof, hsize1, fun _ => ⟨hfull, hof, hused, htop⟩,
      .of_failed hof⟩
  | true =>
    have hs1 : t1.Stands names := hs.update hl1 hof hstored (Nat.zero_le _)
    simp only [if_true]
    cases refOfs with
    | none => exact .stuck
    | some o =>
      -- the block of the target is still there, also where the handle was its own target
      obtain ⟨y, hy⟩ := isSome_iff_exists.1
        ((allocEntry_writes halloc).keeps_block (hat o rfl))
      obtain ⟨t2, hset, hs2, hsame, -⟩ := setReferenced_any hs1 hy
      rw [bind_some, hset]
      exact .intro rfl ⟨hs2, hsame.size.trans hsize1, by simp, fun h hne => (KeepsAt.of_update hof hne).trans
        (.of_cell (congrFun (cells_setReferenced hset) h)), by simp, by simp⟩

theorem overwriteReference_room {slot : Option Nat} {rofs rlen type : Nat} {stored : List UInt8}
    (hs : t.Stands names) (hpos : 0 < handle) (hlt : handle < 2 ^ 16) (he : t.entryOf handle = some e)
    (hslot : t.SlotOf handle slot) (hstored : stored.length ≤ (names handle).length)
    (hat : ∀ o, refOfs = some o → (t.entries o).isSome = true) :
    Ends refOfs (if e.allocLen ≥ nvEntryIndirectHdr + (names handle).length + 1 then
        (refOfs.bind t.setReferenced).bind fun self =>
          (self.entries (t.slotOfs handle)).bind fun e =>
            (self.setPayload (t.slotOfs handle) (.vindirect ref rofs rlen type
              (if e.indirect then e.payload.name else self.storedName handle (names handle)))).map
                fun self => (⟨true, false, self⟩ : AddResult)
      else (t.allocEntry handle slot false (nvEntryIndirectHdr + (names handle).length + 1)
        (.vindirect ref rofs rlen type stored)).bind fun result =>
        if result.ok then (refOfs.bind result.table.setReferenced).map
          fun self => (⟨true, false, self⟩ : AddResult) else some result) fun r =>
      r.table.Stands names ∧ r.table.size = t.size ∧ (r.ok = false → r.table = t ∧
        t.size < t.ofsTableTop + t.used +
          t.entrySpace handle (nvEntryIndirectHdr + (names handle).length + 1)) ∧
      Framed handle none t r := by
  rw [entrySpace_of_entry he]
  by_cases hfits : e.allocLen ≥ nvEntryIndirectHdr + (names handle).length + 1
  · rw [if_pos hfits]
    cases refOfs with
    | none => exact .stuck
    | some o =>
      obtain ⟨x, hx⟩ := isSome_iff_exists.1 (hat o rfl)
      obtain ⟨t1, hset, hs1, hsame1, -, hslots1, hkeep⟩ := setReferenced_any hs hx
      obtain ⟨mark, he1⟩ := hkeep handle e he
      obtain ⟨-, -, hat1⟩ := entryOf_eq_some he1
      rw [hslots1] at hat1
      have hname : (if e.indirect then e.payload.name
          else t1.storedName handle (names handle)).length ≤ (names handle).length := by
        split
        · exact hs.nameLen handle e he
        · exact storedName_le t1 handle (names handle)
      obtain ⟨t2, hset2, hl2, hsame2, -, -, hof2⟩ := @setPayload_spec _ t1 handle hs1.layout _ he1
        (.vindirect ref rofs rlen type (if e.indirect then e.payload.name
          else t1.storedName handle (names handle))) ((indirect_bytes_le hname).trans hfits)
      rw [hslots1] at hset2
      refine @Ends.intro _ _ _ ⟨true, false, t2⟩ ?_
        ⟨hs1.update hl2 hof2 hname (Nat.zero_le _), hsame2.size.trans hsame1.size, by simp,
          fun h hne => (KeepsAt.of_cell (congrFun (cells_setReferenced hset) h)).trans
            (.of_update hof2 hne), by simp, by simp⟩
      simp only [bind_some, hset, hat1]
      exact congrArg (Option.map fun self => (⟨true, false, self⟩ : AddResult)) hset2
  · rw [if_neg hfits, if_neg (by omega)]
    obtain ⟨hcheck, hfail⟩ | ⟨t1, -, hok, -⟩ := allocEntry_ready hs.layout hpos
      (slotReady_of_entry he hslot) false (by omega) (indirect_bytes_le hstored)
    · rw [hfail]
      refine .intro rfl ⟨hs, rfl, fun _ => ⟨rfl, ?_⟩, .of_failed rfl⟩
      unfold allocCheck at hcheck
      simpa using hcheck
    · obtain ⟨hsome, hends⟩ := freshReference_room hs hpos hlt hslot hstored hat false
      refine ⟨hsome, fun r hr => ?_⟩
      obtain ⟨hst, hsize, -, hframed⟩ := hends r hr
      refine ⟨hst, hsize, fun hfailed => ?_, hframed⟩
      rw [hok] at hr
      obtain ⟨t2, -, hr⟩ := map_eq_some_iff.1 hr
      cases hr
      cases hfailed

/-- What `add_value_indirect` returns for a target that is not indirect. -/
structure Referred (names : Nat → List UInt8) (handle : Nat) (t : NVTable) (r : AddResult) : Prop where
  stands : r.table.Stands names
  size : r.table.size = t.size
  failed : t.marked handle = false → r.ok = false →
    t.size < t.ofsTableTop + t.used + t.referenceSpace handle (names handle)
  less : t.marked handle = false → r.ok = false → r.table.ofsTableTop + r.table.used +
    r.table.referenceSpace handle (names handle) ≤
      t.ofsTableTop + t.used + t.referenceSpace handle (names handle)
  same : t.marked handle = false → r.ok = false → r.table.entryOf = t.entryOf ∧
    r.table.used = t.used ∧ r.table.ofsTableTop + r.table.slotSpace handle =
      t.ofsTableTop + t.slotSpace handle
  marked : t.marked handle = true →
    t.ofsTableTop + t.used + t.directSpace handle ≤ t.size → r.ok = false ∧
      r.table.marked handle = true ∧ (∀ h, t.indirectAt h = false → r.table.indirectAt h = false) ∧
      r.table.ofsTableTop + r.table.used + r.table.directSpace handle ≤
        t.ofsTableTop + t.used + t.directSpace handle

/-- **A reference** to a direct entry is stored if there is room, but over an entry that is not
marked only. -/
theorem addReference_room (hs : t.Stands names) (hpos : 0 < handle) (hlt : handle < 2 ^ 16)
    (hat : ∀ o, refOfs = some o → (t.entries o).isSome = true) (ref type rofs rlen : Nat)
    (newEntry : Bool) :
    Ends refOfs (t.addReference handle (names handle) ref refOfs type rofs rlen newEntry)
      fun r => Referred names handle t r ∧ Framed handle none t r := by
  obtain ⟨slot, hget, hslot⟩ := getEntry_spec hs.layout handle
  have hstored := storedName_le t handle (names handle)
  unfold addReference
  dsimp only
  rw [hget]
  cases hent : t.entryOf handle with
  | none =>
    have hmark : t.marked handle = false := by simp only [marked, hent]
    have hspace : ∀ u : NVTable, u.entryOf handle = none →
        u.referenceSpace handle (names handle) = u.slotSpace handle +
          nvTableBound (nvEntryIndirectHdr + (names handle).length + 1) := by
      intro u hu
      simp [referenceSpace, directSpace, marked, entrySpace, hu]
    rw [entryOf_eq_none hs.layout hent, show entryAtOfs 0 = none from rfl]
    by_cases hempty : (!newEntry && (decide (rlen = 0) || refOfs.isNone)) = true
    · simp only [hempty, if_true]
      exact .intro rfl ⟨⟨hs, rfl, by simp, by simp, by simp, by simp [hmark]⟩,
        fun _ _ => .refl, by simp, by simp⟩
    · simp only [hempty]
      obtain ⟨hsome, hends⟩ := freshReference_room hs hpos hlt hslot hstored hat newEntry
      refine ⟨hsome, fun r hr => ?_⟩
      obtain ⟨hst, hsize, hfail, hframed⟩ := hends r hr
      refine ⟨⟨hst, hsize, fun _ hok => ?_, fun _ hok => ?_, fun _ hok => (hfail hok).2, by simp [hmark]⟩,
        hframed⟩
      · rw [hspace t hent]
        exact (hfail hok).1
      · obtain ⟨-, hof, hused, htop⟩ := hfail hok
        rw [hspace t hent, hspace r.table (by rw [hof, hent])]
        omega
  | some e =>
    obtain ⟨-, hofs, hat'⟩ := entryOf_eq_some hent
    have hready := slotReady_of_entry hent hslot
    have hmarked : t.marked handle = (!e.indirect && e.referenced) := by simp only [marked, hent]
    rw [hofs]
    simp only [hat', bind_some]
    by_cases hmark : (!e.indirect && e.referenced) = true
    · rw [if_pos hmark]
      have hdir : e.indirect = false := by
        rw [Bool.and_eq_true, Bool.not_eq_true'] at hmark
        exact hmark.1
      obtain ⟨stopped, t1, hf, hc, hkeep, hused, hfull⟩ := foreach_room_all 0 hs hent hdir
      have he1 : t1.entryOf handle = some e := hc.refEntry.trans hent
      have hspace : t.directSpace handle = t.directSpaceAt handle t.slots := by
        rw [directSpace_of_entry hent, if_pos hmark]
      rw [hf, map_some, bind_some]
      cases stopped with
      | false =>
        refine .intro rfl ⟨⟨hc.stands, hc.same.size, by simp [hmarked, hmark], by simp [hmarked, hmark],
          by simp [hmarked, hmark], fun _ _ => ⟨rfl, by simp only [marked, he1, hmark], hc.direct, ?_⟩⟩,
          .after hkeep hc.refEntry (.of_failed rfl)⟩
        have htop := hc.same.ofsTableTop
        rw [hspace, directSpace_of_entry he1, if_pos hmark]
        dsimp only
        omega
      | true =>
        have hwrites : Writes t t1 := foreachEntry_writes
          (fun _ _ _ _ _ hr => makeDirect_writes (fun _ _ _ _ _ hr => addValueDepth_writes hr) hr) hf
        obtain ⟨hsome, hends⟩ := @overwriteReference_room names t1 handle ref e refOfs slot rofs rlen
          type _ hc.stands hpos hlt he1 (hready.of_same hc.same).1 hstored
          (fun o ho => hwrites.keeps_block (hat o ho))
        rw [hc.refOfs] at hsome hends
        refine ⟨hsome, fun r hr => ?_⟩
        obtain ⟨hst, hsize, -, hframed⟩ := hends r hr
        refine ⟨⟨hst, hsize.trans hc.same.size, by simp [hmarked, hmark], by simp [hmarked, hmark],
          by simp [hmarked, hmark], fun _ hroom => ?_⟩, .after hkeep hc.refEntry hframed⟩
        have := hfull rfl
        omega
    · rw [if_neg hmark, bind_some]
      have hspace : t.referenceSpace handle (names handle) =
          t.entrySpace handle (nvEntryIndirectHdr + (names handle).length + 1) := by
        rw [referenceSpace, directSpace_of_entry hent, if_neg hmark, Nat.zero_add]
      obtain ⟨hsome, hends⟩ := @overwriteReference_room names t handle ref e refOfs slot rofs rlen
        type _ hs hpos hlt hent hslot hstored hat
      refine ⟨hsome, fun r hr => ?_⟩
      obtain ⟨hst, hsize, hfail, hframed⟩ := hends r hr
      refine ⟨⟨hst, hsize, fun _ hok => ?_, fun _ hok => ?_, fun _ hok => ?_,
        fun hc => absurd (hmarked.symm.trans hc) hmark⟩, hframed⟩
      · rw [hspace]
        exact (hfail hok).2
      · rw [(hfail hok).1]
      · rw [(hfail hok).1]
        exact ⟨rfl, rfl, rfl⟩

/-! ## The whole call -/

/-- What `nv_table_add_value_indirect` needs. -/
def indirectSpace (t : NVTable) (handle : Nat) (name : List UInt8) (ref rofs rlen : Nat) : Nat :=
  if t.indirectAt ref then
    t.storeSpace handle name (resolveSlice ((t.getValue ref).getD []) rofs rlen)
  else t.referenceSpace handle name

theorem copied_eq (hlen : rofs + rlen < 2 ^ 32) (value : List UInt8) {p : Nat × Nat}
    (hp : p = if rofs > value.length then (0, 0)
      else (rofs, min ((rofs + rlen) % 2 ^ 32) value.length - rofs)) :
    window value p.1 (p.1 + p.2) = resolveSlice value rofs rlen := by
  unfold resolveSlice
  rw [Nat.mod_eq_of_lt hlen] at hp ⊢
  split at hp
  · next hgt =>
    rw [if_pos hgt, hp]
    simp [window]
  · next hle =>
    rw [if_neg hle, hp]
    congr 1
    dsimp only
    omega

theorem target_present (hl : t.LayoutIn max) (o : Nat) (ho : entryAtOfs (t.slotOfs ref) = some o) :
    (t.entries o).isSome = true := by
  obtain ⟨rfl, hne⟩ := entryAtOfs_eq_some ho
  exact hl.present ref hne

theorem addValueIndirect_direct (hl : t.LayoutIn max) (href : t.indirectAt ref = false)
    (name : List UInt8) (type rofs rlen : Nat) (newEntry : Bool) :
    t.addValueIndirect handle name ref type rofs rlen newEntry =
      t.addReference handle name ref (entryAtOfs (t.slotOfs ref)) type rofs rlen newEntry := by
  obtain ⟨slot, hget, -⟩ := getEntry_spec hl ref
  unfold addValueIndirect
  simp only [hget]
  cases hent : t.entryOf ref with
  | none =>
    rw [entryOf_eq_none hl hent]
    rfl
  | some e =>
    obtain ⟨-, hofs, hat⟩ := entryOf_eq_some hent
    rw [indirectAt, hent] at href
    rw [hofs, map_some, hat]
    obtain ⟨referenced, allocLen, payload⟩ := e
    cases payload with
    | vdirect => rfl
    | vindirect => cases href

theorem addValueIndirect_copy (hget : ∃ slot, t.getEntry ref = (entryAtOfs (t.slotOfs ref), slot))
    (href : t.indirectAt ref = true) (name : List UInt8) {type : Nat} (hlen : rofs + rlen < 2 ^ 32)
    (newEntry : Bool) :
    t.addValueIndirect handle name ref type rofs rlen newEntry = (t.getValue ref).bind fun value =>
        t.addValue handle name (resolveSlice value rofs rlen) newEntry := by
  obtain ⟨slot, hget⟩ := hget
  unfold addValueIndirect
  simp only [hget]
  cases hent : t.entryOf ref with
  | none =>
    rw [indirectAt, hent] at href
    cases href
  | some e =>
    obtain ⟨-, hofs, hat⟩ := entryOf_eq_some hent
    rw [indirectAt, hent] at href
    obtain ⟨referenced, allocLen, payload⟩ := e
    cases payload with
    | vdirect => cases href
    | vindirect r o l type' name' =>
      rw [getValue, getValueDepth, hget]
      simp only [hofs, hat, map_some, bind_some, resolveIndirect]
      exact congrArg _ (funext fun value => by rw [copied_eq hlen value rfl])

end NVTable

end SyslogNg.NameValue
