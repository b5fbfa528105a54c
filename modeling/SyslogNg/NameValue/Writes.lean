import Mathlib.Logic.Relation
import SyslogNg.NameValue.AddValue

/-!
# What a call writes

`nv_table_add_value` and `nv_table_add_value_indirect` change the offset tables, take fresh blocks
and write over entries, and nothing else (`Writes`). They look at neither `ref_cnt` nor `borrowed`,
so what holds of a table with one owner holds of any (`withOwner`).
-/

namespace SyslogNg.NameValue

open Lib Function
open Option (bind_eq_some_iff bind_some map_eq_some_iff map_some)

namespace NVTable

/-- A change of the memory of a table. -/
inductive Write (t : NVTable) : NVTable → Prop where
  | statics (staticEntries : List Nat) : staticEntries.length = t.numStaticEntries →
      Write t { t with staticEntries := staticEntries }
  | dyns (dynEntries : List NVDynValue) : Write t { t with dynEntries := dynEntries }
  | block (n : Nat) (e : NVEntry) : e.allocLen = nvTableBound n → Write t { t with
      used := t.used + nvTableBound n
      entries := update t.entries (t.used + nvTableBound n) (some e) }
  | entry (o : Nat) (e e' : NVEntry) : t.entries o = some e → e'.allocLen = e.allocLen →
      Write t { t with entries := update t.entries o (some e') }

abbrev Writes : NVTable → NVTable → Prop := Relation.ReflTransGen Write

section

variable {t t' : NVTable} {handle ofs : Nat} {slot : Option Nat} {r : AddResult}

theorem Writes.invariant {P : NVTable → Prop} (hP : ∀ t t', Write t t' → P t → P t') (h : Writes t t')
    (ht : P t) : P t' := by
  induction h with
  | refl => exact ht
  | tail _ hw ih => exact hP _ _ hw ih

theorem Writes.keeps_block (h : Writes t t') {o : Nat} (hat : (t.entries o).isSome = true) :
    (t'.entries o).isSome = true := by
  refine h.invariant (P := fun u => (u.entries o).isSome = true) (fun u u' hw hsome => ?_) hat
  cases hw with
  | statics => exact hsome
  | dyns => exact hsome
  | block m e' =>
    by_cases ho : o = u.used + nvTableBound m
    · simp [ho]
    · exact (congrArg Option.isSome (update_of_ne ho _ _)).trans hsome
  | entry o' e e' =>
    by_cases ho : o = o'
    · simp [ho]
    · exact (congrArg Option.isSome (update_of_ne ho _ _)).trans hsome

theorem Writes.numStaticEntries (h : Writes t t') : t'.numStaticEntries = t.numStaticEntries := by
  refine h.invariant (P := fun u => u.numStaticEntries = t.numStaticEntries)
    (fun u u' hw hsame => ?_) rfl
  cases hw with
  | statics _ hlen => exact hlen.trans hsame
  | dyns => exact hsame
  | block => exact hsame
  | entry => exact hsame

theorem reserveTableEntry_writes {slot' : Option Nat}
    (h : t.reserveTableEntry handle slot = some (slot', t')) : Writes t t' := by
  unfold reserveTableEntry at h
  split at h
  · split at h
    · dsimp only at h
      split at h
      · cases h
        exact .single (.dyns _)
      · cases h
        exact .single (.dyns _)
    · cases h
  · cases h
    exact .refl

theorem allocValue_writes {n : Nat} (h : t.allocValue n = some (ofs, t')) : Writes t t' := by
  unfold allocValue at h
  dsimp only at h
  split at h
  · cases h
    exact .single (.block n _ rfl)
  · cases h

theorem setTableEntry_writes (h : t.setTableEntry handle ofs slot = some t') : Writes t t' := by
  unfold setTableEntry at h
  split at h
  · cases h
  split at h
  · cases h
    exact .single (.statics _ (List.length_set ..))
  · obtain ⟨m, -, h⟩ := map_eq_some_iff.1 h
    cases h
    exact .single (.dyns _)

theorem setPayload_writes {payload : NVPayload} (h : t.setPayload ofs payload = some t') : Writes t t' := by
  obtain ⟨e, he, h⟩ := bind_eq_some_iff.1 h
  split at h
  · cases h
    exact .single (.entry ofs e { e with payload := payload } he rfl)
  · cases h

theorem setReferenced_writes (h : t.setReferenced ofs = some t') : Writes t t' := by
  obtain ⟨e, he, h⟩ := map_eq_some_iff.1 h
  cases h
  exact .single (.entry ofs e { e with referenced := true } he rfl)

variable {newEntry : Bool}

theorem allocEntry_writes {allocSize : Nat} {payload : NVPayload}
    (h : t.allocEntry handle slot newEntry allocSize payload = some r) : Writes t r.table := by
  unfold allocEntry at h
  split at h
  · cases h
    exact .refl
  next slot' t1 hreserve =>
  split at h
  · cases h
    exact reserveTableEntry_writes hreserve
  next o t2 halloc =>
  obtain ⟨t3, hset, h⟩ := bind_eq_some_iff.1 h
  obtain ⟨t4, hentry, h⟩ := map_eq_some_iff.1 h
  cases h
  exact (((reserveTableEntry_writes hreserve).trans (allocValue_writes halloc)).trans
    (setPayload_writes hset)).trans (setTableEntry_writes hentry)

theorem overwrite_writes {name value : List UInt8} (h : t.overwrite ofs name value = some t') :
    Writes t t' := by
  obtain ⟨e, -, h⟩ := bind_eq_some_iff.1 h
  exact setPayload_writes h

theorem foreachEntry_writes {func : NVTable → Nat → Nat → Option (Bool × NVTable)}
    (hfunc : ∀ t h o b t', func t h o = some (b, t') → Writes t t') {slots : List Slot} {b : Bool}
    (h : foreachEntry func slots t = some (b, t')) : Writes t t' := by
  induction slots generalizing t with
  | nil =>
    cases h
    exact .refl
  | cons slot rest ih =>
    rw [foreachEntry] at h
    dsimp only at h
    split at h
    · exact ih h
    next o ho =>
    obtain ⟨⟨stop, t1⟩, hf, h⟩ := bind_eq_some_iff.1 h
    cases stop with
    | true =>
      cases h
      exact hfunc _ _ _ _ _ hf
    | false => exact (hfunc _ _ _ _ _ hf).trans (ih h)

theorem makeDirect_writes {add : NVTable → Nat → List UInt8 → List UInt8 → Option AddResult}
    (hadd : ∀ t h n v r, add t h n v = some r → Writes t r.table) {ref : Nat} {b : Bool}
    (h : makeDirect add ref t handle ofs = some (b, t')) : Writes t t' := by
  obtain ⟨e, -, h⟩ := bind_eq_some_iff.1 h
  split at h
  · cases h
    exact .refl
  split at h
  · obtain ⟨value, -, h⟩ := bind_eq_some_iff.1 h
    obtain ⟨r, hr, h⟩ := map_eq_some_iff.1 h
    cases h
    exact hadd _ _ _ _ _ hr
  · cases h
    exact .refl

theorem addValueDepth_writes {depth : Nat} {name value : List UInt8}
    (h : addValueDepth depth t handle name value newEntry = some r) : Writes t r.table := by
  induction depth generalizing t handle name value newEntry r with
  | zero => cases h
  | succ depth ih =>
    rw [addValueDepth] at h
    split at h
    · split at h
      · cases h
        exact .refl
      · exact allocEntry_writes h
    next o slot hget =>
    obtain ⟨e, -, h⟩ := bind_eq_some_iff.1 h
    obtain ⟨⟨stopped, t1⟩, hdirect, h⟩ := bind_eq_some_iff.1 h
    have ht1 : Writes t t1 := by
      split at hdirect
      · exact foreachEntry_writes (fun _ _ _ _ _ hf => makeDirect_writes (fun _ _ _ _ _ hr => ih hr) hf)
          hdirect
      · cases hdirect
        exact .refl
    cases stopped with
    | true =>
      cases h
      exact ht1
    | false =>
      dsimp only at h
      split at h
      · obtain ⟨t2, hover, h⟩ := map_eq_some_iff.1 h
        cases h
        exact ht1.trans (overwrite_writes hover)
      · exact ht1.trans (allocEntry_writes h)

theorem addReference_writes {name : List UInt8} {ref type rofs rlen : Nat} {refOfs : Option Nat}
    (h : t.addReference handle name ref refOfs type rofs rlen newEntry = some r) : Writes t r.table := by
  have hrefer : ∀ {t t' : NVTable}, refOfs.bind t.setReferenced = some t' → Writes t t' := by
    intro t t' hr
    obtain ⟨o, -, hr⟩ := bind_eq_some_iff.1 hr
    exact setReferenced_writes hr
  have hfresh : ∀ {t : NVTable} {slot : Option Nat} {newEntry : Bool} {size : Nat}
      {payload : NVPayload}, ((t.allocEntry handle slot newEntry size payload).bind fun result =>
        if result.ok then (refOfs.bind result.table.setReferenced).map
          fun self => (⟨true, newEntry, self⟩ : AddResult) else some result) = some r →
      Writes t r.table := by
    intro t slot newEntry size payload hr
    obtain ⟨result, halloc, hr⟩ := bind_eq_some_iff.1 hr
    split at hr
    · obtain ⟨t2, href, hr⟩ := map_eq_some_iff.1 hr
      cases hr
      exact (allocEntry_writes halloc).trans (hrefer href)
    · cases hr
      exact allocEntry_writes halloc
  unfold addReference at h
  dsimp only at h
  split at h
  · split at h
    · cases h
      exact .refl
    · exact hfresh h
  obtain ⟨e, -, h⟩ := bind_eq_some_iff.1 h
  obtain ⟨⟨failed, t1⟩, hdirect, h⟩ := bind_eq_some_iff.1 h
  have ht1 : Writes t t1 := by
    split at hdirect
    · obtain ⟨⟨stopped, t2⟩, hforeach, hdirect⟩ := map_eq_some_iff.1 hdirect
      cases hdirect
      exact foreachEntry_writes
        (fun _ _ _ _ _ hf => makeDirect_writes (fun _ _ _ _ _ hr => addValueDepth_writes hr) hf) hforeach
    · cases hdirect
      exact .refl
  cases failed with
  | true =>
    cases h
    exact ht1
  | false =>
    dsimp only at h
    split at h
    · obtain ⟨t2, href, h⟩ := bind_eq_some_iff.1 h
      obtain ⟨e2, -, h⟩ := bind_eq_some_iff.1 h
      obtain ⟨t3, hset, h⟩ := map_eq_some_iff.1 h
      cases h
      exact (ht1.trans (hrefer href)).trans (setPayload_writes hset)
    · exact ht1.trans (hfresh h)

theorem addValueIndirect_writes {name : List UInt8} {ref type rofs rlen : Nat}
    (h : t.addValueIndirect handle name ref type rofs rlen newEntry = some r) : Writes t r.table := by
  unfold addValueIndirect at h
  dsimp only at h
  split at h
  · cases h
  · obtain ⟨value, -, h⟩ := bind_eq_some_iff.1 h
    exact addValueDepth_writes h
  · exact addReference_writes h

end

/-! ## Owners -/

def withOwner (t : NVTable) (refCnt : Nat) (borrowed : Bool) : NVTable :=
  { t with refCnt := refCnt, borrowed := borrowed }

end NVTable

def AddResult.withOwner (r : AddResult) (refCnt : Nat) (borrowed : Bool) : AddResult :=
  { r with table := r.table.withOwner refCnt borrowed }

namespace NVTable

section

variable (t : NVTable) (n : Nat) (b : Bool) (handle ofs : Nat) (slot : Option Nat)

theorem getValueDepth_withOwner (depth : Nat) :
    (t.withOwner n b).getValueDepth depth handle = t.getValueDepth depth handle := by
  induction depth generalizing handle with
  | zero => rfl
  | succ depth ih =>
    simp only [getValueDepth, ih]
    rfl

theorem resolveIndirect_withOwner (ref rofs rlen : Nat) :
    (t.withOwner n b).resolveIndirect ref rofs rlen = t.resolveIndirect ref rofs rlen := by
  unfold resolveIndirect
  rw [getValueDepth_withOwner]
  rfl

theorem reserveTableEntry_withOwner :
    (t.withOwner n b).reserveTableEntry handle slot =
    (t.reserveTableEntry handle slot).map fun p => (p.1, p.2.withOwner n b) := by
  unfold reserveTableEntry
  by_cases hnew : slot = none ∧ handle > t.numStaticEntries
  · rw [if_pos hnew]
    refine (if_pos hnew).trans ?_
    by_cases hroom : t.allocCheck 8 = true
    · rw [if_pos hroom]
      refine (if_pos hroom).trans ?_
      have hdyn : (t.withOwner n b).dynEntries = t.dynEntries := rfl
      simp only [hdyn]
      cases search (fun d : NVDynValue => d.handle % 2 ^ 16) t.dynEntries handle <;> rfl
    · rw [if_neg hroom]
      exact if_neg hroom
  · rw [if_neg hnew]
    exact if_neg hnew

theorem allocValue_withOwner (size : Nat) :
    (t.withOwner n b).allocValue size = (t.allocValue size).map fun p => (p.1, p.2.withOwner n b) := by
  unfold allocValue
  by_cases hroom : t.allocCheck (nvTableBound size) = true
  · exact (if_pos hroom).trans (by rw [if_pos hroom]; rfl)
  · exact (if_neg hroom).trans (by rw [if_neg hroom]; rfl)

theorem setTableEntry_withOwner :
    (t.withOwner n b).setTableEntry handle ofs slot =
    (t.setTableEntry handle ofs slot).map (withOwner · n b) := by
  unfold setTableEntry
  split
  · rfl
  by_cases hstatic : handle ≤ t.numStaticEntries
  · exact (if_pos hstatic).trans (by rw [if_pos hstatic]; rfl)
  · refine (if_neg hstatic).trans ?_
    rw [if_neg hstatic]
    cases slot <;> rfl

theorem setPayload_withOwner (payload : NVPayload) :
    (t.withOwner n b).setPayload ofs payload = (t.setPayload ofs payload).map (withOwner · n b) := by
  unfold setPayload
  show (t.entries ofs).bind _ = _
  cases t.entries ofs with
  | none => rfl
  | some e =>
    simp only [bind_some]
    split <;> rfl

theorem setReferenced_withOwner :
    (t.withOwner n b).setReferenced ofs = (t.setReferenced ofs).map (withOwner · n b) := by
  unfold setReferenced
  show (t.entries ofs).map _ = _
  cases t.entries ofs <;> rfl

theorem allocEntry_withOwner (newEntry : Bool) (allocSize : Nat) (payload : NVPayload) :
    (t.withOwner n b).allocEntry handle slot newEntry allocSize payload =
      (t.allocEntry handle slot newEntry allocSize payload).map (AddResult.withOwner · n b) := by
  unfold allocEntry
  rw [reserveTableEntry_withOwner]
  cases t.reserveTableEntry handle slot with
  | none => rfl
  | some p =>
    obtain ⟨slot', t1⟩ := p
    simp only [map_some, allocValue_withOwner]
    cases t1.allocValue allocSize with
    | none => rfl
    | some p =>
      obtain ⟨o, t2⟩ := p
      simp only [map_some, setPayload_withOwner]
      cases t2.setPayload o payload with
      | none => rfl
      | some t3 =>
        simp only [map_some, bind_some, setTableEntry_withOwner]
        cases t3.setTableEntry handle o slot' <;> rfl

theorem overwrite_withOwner (name value : List UInt8) :
    (t.withOwner n b).overwrite ofs name value = (t.overwrite ofs name value).map (withOwner · n b) := by
  unfold overwrite
  show (t.entries ofs).bind _ = _
  cases t.entries ofs with
  | none => rfl
  | some e => exact setPayload_withOwner t n b ofs _

theorem foreachEntry_withOwner {func : NVTable → Nat → Nat → Option (Bool × NVTable)}
    (hfunc : ∀ t h o, func (t.withOwner n b) h o = (func t h o).map fun p => (p.1, p.2.withOwner n b))
    (slots : List Slot) :
    foreachEntry func slots (t.withOwner n b) =
      (foreachEntry func slots t).map fun p => (p.1, p.2.withOwner n b) := by
  induction slots generalizing t with
  | nil => rfl
  | cons slot rest ih =>
    have hat : (t.withOwner n b).slotAt slot = t.slotAt slot := by cases slot <;> rfl
    simp only [foreachEntry, hat]
    cases entryAtOfs (t.slotAt slot).2 with
    | none => exact ih t
    | some o =>
      simp only [hfunc]
      cases func t (t.slotAt slot).1 o with
      | none => rfl
      | some p =>
        obtain ⟨stop, t1⟩ := p
        cases stop with
        | true => rfl
        | false => exact ih t1

theorem makeDirect_withOwner {add : NVTable → Nat → List UInt8 → List UInt8 → Option AddResult}
    (hadd : ∀ t h m v, add (t.withOwner n b) h m v = (add t h m v).map (AddResult.withOwner · n b))
    (ref : Nat) :
    makeDirect add ref (t.withOwner n b) handle ofs =
      (makeDirect add ref t handle ofs).map fun p => (p.1, p.2.withOwner n b) := by
  unfold makeDirect
  show (t.entries ofs).bind _ = _
  cases t.entries ofs with
  | none => rfl
  | some e =>
    simp only [bind_some, resolveIndirect_withOwner, hadd]
    cases e.payload with
    | vdirect => rfl
    | vindirect r rofs rlen type name =>
      simp only
      split
      · cases t.resolveIndirect r rofs rlen with
        | none => rfl
        | some value =>
          simp only [bind_some]
          cases add t handle name value <;> rfl
      · rfl

/-- The owners of a table do not matter to a call. -/
def OwnerFree (n : Nat) (b : Bool) (call : NVTable → Option AddResult) : Prop :=
  ∀ t, call (t.withOwner n b) = (call t).map (AddResult.withOwner · n b)

theorem addValueDepth_withOwner (depth : Nat) (name value : List UInt8) (newEntry : Bool) :
    addValueDepth depth (t.withOwner n b) handle name value newEntry =
      (addValueDepth depth t handle name value newEntry).map (AddResult.withOwner · n b) := by
  induction depth generalizing t handle name value newEntry with
  | zero => rfl
  | succ depth ih =>
    have hget : (t.withOwner n b).getEntry handle = t.getEntry handle := rfl
    have hname : (t.withOwner n b).storedName handle name = t.storedName handle name := rfl
    have hslots : (t.withOwner n b).slots = t.slots := rfl
    have hentries : (t.withOwner n b).entries = t.entries := rfl
    have hfunc : ∀ (t : NVTable) (h o : Nat),
        makeDirect (fun t h m v => addValueDepth depth t h m v false) handle (t.withOwner n b) h o =
        (makeDirect (fun t h m v => addValueDepth depth t h m v false) handle t h o).map
          fun p => (p.1, p.2.withOwner n b) :=
      fun t h o => makeDirect_withOwner t n b h o (fun t h m v => ih t h m v false) handle
    simp only [addValueDepth, hget, hname, hslots, hentries]
    obtain ⟨found, slot⟩ := t.getEntry handle
    cases found with
    | none =>
      simp only
      split
      · rfl
      · exact allocEntry_withOwner t n b handle slot _ _ _
    | some o =>
      simp only
      cases t.entries o with
      | none => rfl
      | some e =>
        have hlast : OwnerFree n b fun t1 =>
            if e.allocLen ≥ (value.take nvTableMaxBytes).length + nvEntryDirectHdr + name.length + 2 then
              (t1.overwrite o name (value.take nvTableMaxBytes)).map
                fun self => (⟨true, false, self⟩ : AddResult)
            else t1.allocEntry handle slot false
              (nvEntryDirectHdr + name.length + (value.take nvTableMaxBytes).length + 2)
              (.vdirect (t.storedName handle name) (value.take nvTableMaxBytes)) := by
          intro t1
          dsimp only
          split
          · rw [overwrite_withOwner]
            cases t1.overwrite o name (value.take nvTableMaxBytes) <;> rfl
          · exact allocEntry_withOwner t1 n b handle slot _ _ _
        simp only [bind_some]
        by_cases hmark : (!e.indirect && e.referenced) = true
        · simp only [hmark, if_true, foreachEntry_withOwner t n b hfunc]
          cases foreachEntry (makeDirect (fun t h m v => addValueDepth depth t h m v false) handle)
              t.slots t with
          | none => rfl
          | some p =>
            obtain ⟨stopped, t1⟩ := p
            cases stopped with
            | true => rfl
            | false => exact hlast t1
        · simp only [hmark]
          exact hlast t

theorem bind_setReferenced_withOwner (refOfs : Option Nat) :
    refOfs.bind (t.withOwner n b).setReferenced = (refOfs.bind t.setReferenced).map (withOwner · n b) := by
  cases refOfs with
  | none => rfl
  | some o => exact setReferenced_withOwner t n b o

theorem addReference_withOwner (name : List UInt8) (ref : Nat) (refOfs : Option Nat)
    (type rofs rlen : Nat) (newEntry : Bool) :
    (t.withOwner n b).addReference handle name ref refOfs type rofs rlen newEntry =
      (t.addReference handle name ref refOfs type rofs rlen newEntry).map (AddResult.withOwner · n b) := by
  have hget : (t.withOwner n b).getEntry handle = t.getEntry handle := rfl
  have hslots : (t.withOwner n b).slots = t.slots := rfl
  have hname : ∀ t : NVTable, (t.withOwner n b).storedName handle name = t.storedName handle name :=
    fun _ => rfl
  have hentries : ∀ t : NVTable, (t.withOwner n b).entries = t.entries := fun _ => rfl
  -- the reference in a fresh block, and the mark of its target
  have hfresh : ∀ (slot : Option Nat) (newEntry : Bool) (size : Nat) (payload : NVPayload),
      OwnerFree n b fun t => (t.allocEntry handle slot newEntry size payload).bind fun result =>
        if result.ok then (refOfs.bind result.table.setReferenced).map
          fun self => (⟨true, newEntry, self⟩ : AddResult) else some result := by
    intro slot newEntry size payload t
    dsimp only
    rw [allocEntry_withOwner]
    cases t.allocEntry handle slot newEntry size payload with
    | none => rfl
    | some r =>
      obtain ⟨ok, newEntry', t1⟩ := r
      cases ok with
      | false => rfl
      | true =>
        simp only [map_some, bind_some, AddResult.withOwner, if_true, bind_setReferenced_withOwner]
        cases refOfs.bind t1.setReferenced <;> rfl
  have hlast : ∀ (o : Nat) (e : NVEntry) (slot : Option Nat) (payload : NVPayload),
      OwnerFree n b fun t => if e.allocLen ≥ nvEntryIndirectHdr + name.length + 1 then
        (refOfs.bind t.setReferenced).bind fun self => (self.entries o).bind fun e =>
          (self.setPayload o (.vindirect ref rofs rlen type
            (if e.indirect then e.payload.name else self.storedName handle name))).map
              fun self => (⟨true, false, self⟩ : AddResult)
      else (t.allocEntry handle slot false (nvEntryIndirectHdr + name.length + 1)
        payload).bind fun result =>
        if result.ok then (refOfs.bind result.table.setReferenced).map
          fun self => (⟨true, false, self⟩ : AddResult) else some result := by
    intro o e slot payload t
    dsimp only
    split
    · rw [bind_setReferenced_withOwner]
      cases refOfs.bind t.setReferenced with
      | none => rfl
      | some t1 =>
        simp only [map_some, bind_some, hentries, hname]
        cases t1.entries o with
        | none => rfl
        | some e1 =>
          simp only [bind_some, setPayload_withOwner]
          cases t1.setPayload o _ <;> rfl
    · exact hfresh slot false _ _ t
  unfold addReference
  simp only [hget, hslots, hname, hentries]
  obtain ⟨found, slot⟩ := t.getEntry handle
  cases found with
  | none =>
    simp only
    split
    · rfl
    · exact hfresh slot newEntry _ _ t
  | some o =>
    simp only
    cases t.entries o with
    | none => rfl
    | some e =>
      simp only [bind_some]
      by_cases hmark : (!e.indirect && e.referenced) = true
      · have hfunc : ∀ (t : NVTable) (h o : Nat),
            makeDirect (fun t h m v => addValueDepth 1 t h m v false) handle (t.withOwner n b) h o =
            (makeDirect (fun t h m v => addValueDepth 1 t h m v false) handle t h o).map
              fun p => (p.1, p.2.withOwner n b) := fun t h o =>
          makeDirect_withOwner t n b h o (fun t h m v => addValueDepth_withOwner t n b h 1 m v false)
            handle
        simp only [hmark, if_true, foreachEntry_withOwner t n b hfunc]
        cases foreachEntry (makeDirect (fun t h m v => addValueDepth 1 t h m v false) handle)
            t.slots t with
        | none => rfl
        | some p =>
          obtain ⟨stopped, t1⟩ := p
          cases stopped with
          | true => exact hlast o e slot _ t1
          | false => rfl
      · simp only [hmark]
        exact hlast o e slot _ t

theorem addValue_withOwner (name value : List UInt8) (newEntry : Bool) :
    (t.withOwner n b).addValue handle name value newEntry =
      (t.addValue handle name value newEntry).map (AddResult.withOwner · n b) :=
  addValueDepth_withOwner t n b handle 2 name value newEntry

theorem addValueIndirect_withOwner (name : List UInt8) (ref type rofs rlen : Nat) (newEntry : Bool) :
    (t.withOwner n b).addValueIndirect handle name ref type rofs rlen newEntry =
      (t.addValueIndirect handle name ref type rofs rlen newEntry).map (AddResult.withOwner · n b) := by
  have hget : (t.withOwner n b).getEntry ref = t.getEntry ref := rfl
  have hentries : (t.withOwner n b).entries = t.entries := rfl
  unfold addValueIndirect
  simp only [hget, hentries]
  cases (t.getEntry ref).1.map t.entries with
  | none => exact addReference_withOwner t n b handle name ref _ type rofs rlen newEntry
  | some found =>
    cases found with
    | none => rfl
    | some e =>
      obtain ⟨referenced, allocLen, payload⟩ := e
      cases payload with
      | vdirect => exact addReference_withOwner t n b handle name ref _ type rofs rlen newEntry
      | vindirect r ofs len type' name' =>
        simp only [resolveIndirect_withOwner]
        cases t.resolveIndirect r ofs len with
        | none => rfl
        | some value => exact addValue_withOwner t n b handle name _ newEntry

end

end NVTable

end SyslogNg.NameValue
