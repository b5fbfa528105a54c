import SyslogNg.Lib.NameTable
import SyslogNg.Lib.Run

/-!
# Handles and tag ids (`lib/nvtable.c`, `lib/tags.c`)

Names are C strings. Both registries are name tables; handles count from 1, tag ids from 0.
-/

namespace SyslogNg.LogMsg

open List Lib
open Finset hiding range

abbrev HandleRegistry := NameTable (List UInt8)

def HandleRegistry.allocHandle (self : HandleRegistry) (name : List UInt8) : HandleRegistry × Nat :=
  if h : self.place name ≠ 0 then (self, self.place name)
  else if name.length = 0 ∨ name.length > 255 ∨ self.names.length ≥ 65535 then (self, 0)
  else (self.add name (not_not.mp h), self.names.length + 1)

def logTagsMax (sizeofLong : Nat) : Nat := if sizeofLong = 4 then 8192 else 16384

/-- `log_tags_list`, of which `num` entries are used, with `log_tags_hash`. -/
structure TagRegistry where
  table : NameTable (List UInt8)
  listSize : Nat

def logTagsInit : TagRegistry := ⟨.empty, 4⟩

/-- `log_tags_get_by_name`; `none` if it stores behind the list. -/
def TagRegistry.getByName (sizeofLong : Nat) (self : TagRegistry) (name : List UInt8) : Option (TagRegistry × Nat) :=
  if h : self.table.place name ≠ 0 then some (self, self.table.place name - 1)
  else if self.table.names.length < logTagsMax sizeofLong - 1 then
    let id := self.table.names.length
    let listSize := if id = self.listSize then self.listSize * 2 else self.listSize
    if id < listSize then some (⟨self.table.add name (not_not.mp h), listSize⟩, id) else none
  else some (self, 0)

/-- `log_tags_get_by_id`. -/
def TagRegistry.getById (self : TagRegistry) (id : Nat) : Option (List UInt8) := self.table.names[id]?

inductive NameCall where
  | allocHandle (name : List UInt8)
  | getHandle (name : List UInt8)
  | tag (name : List UInt8)

/-- The registries, with the handles and the tag ids they have given. -/
structure NameWorld where
  registry : HandleRegistry
  tags : TagRegistry
  handles : List (List UInt8 × Nat)
  ids : List (List UInt8 × Nat)

def namesInit : NameWorld := ⟨.empty, logTagsInit, [], []⟩

def nameStep (sizeofLong : Nat) (w : NameWorld) : NameCall → Option NameWorld
  | .allocHandle name =>
    let (registry, handle) := w.registry.allocHandle name
    some { w with registry, handles := (name, handle) :: w.handles }
  | .getHandle name => some { w with handles := (name, w.registry.place name) :: w.handles }
  | .tag name => (w.tags.getByName sizeofLong name).map fun (tags, id) =>
      { w with tags, ids := (name, id) :: w.ids }

/-- Both registries are one to one; every tag id is a valid one. -/
def NamesApart (w : NameWorld) : Prop :=
  OneToOne (· ≠ 0) (fun handle => w.registry.names[handle - 1]?) w.handles ∧
    OneToOne (fun _ => True) w.tags.getById w.ids

def NameCall.tag? : NameCall → Option (List UInt8)
  | .tag name => some name
  | _ => none

/-- The names of tags that are asked for. -/
def tagNames (calls : List NameCall) : Finset (List UInt8) := (calls.filterMap NameCall.tag?).toFinset

variable {sizeofLong : Nat} {w : NameWorld} {calls : List NameCall}

theorem HandleRegistry.allocHandle_spec (self : HandleRegistry) (name : List UInt8) :
    NameTable.Keeps self (self.allocHandle name).1 ∧ ((self.allocHandle name).2 ≠ 0 →
      NameTable.place (self.allocHandle name).1 name = (self.allocHandle name).2) := by
  unfold allocHandle
  split
  · exact ⟨fun _ _ => rfl, fun _ => rfl⟩
  · next h =>
    split
    · exact ⟨fun _ _ => rfl, fun h => absurd rfl h⟩
    · exact ⟨NameTable.add_keeps (not_not.mp h), fun _ => NameTable.place_add (not_not.mp h)⟩

structure TagRegistry.Fits (sizeofLong : Nat) (self : TagRegistry) : Prop where
  room : self.table.names.length ≤ self.listSize
  grows : 0 < self.listSize
  used : self.table.names.length ≤ logTagsMax sizeofLong - 1

theorem TagRegistry.Fits.getByName {self : TagRegistry} (hf : self.Fits sizeofLong) (name : List UInt8) :
    ∃ self' id, self.getByName sizeofLong name = some (self', id) ∧ self'.Fits sizeofLong ∧
      self.table.Keeps self'.table ∧ self'.table.names ⊆ name :: self.table.names ∧
      (self'.table.place name = id + 1 ∨
        name ∉ self.table.names ∧ self.table.names.length = logTagsMax sizeofLong - 1) := by
  obtain ⟨hroom, hgrows, hused⟩ := hf
  unfold TagRegistry.getByName
  by_cases h : self.table.place name = 0
  · rw [dif_neg (not_not.mpr h)]
    split
    · have hlt : self.table.names.length <
          if self.table.names.length = self.listSize then self.listSize * 2 else self.listSize := by
        split <;> omega
      refine ⟨_, _, if_pos hlt, ⟨?_, by dsimp only; omega, ?_⟩, NameTable.add_keeps h, ?_,
        .inl (NameTable.place_add h)⟩
      · simpa [NameTable.add] using hlt
      · simp only [NameTable.add, length_append, length_singleton]
        omega
      · simp [NameTable.add]
    · exact ⟨_, _, rfl, ⟨hroom, hgrows, hused⟩, fun _ _ => rfl, subset_cons_self _ _,
        .inr ⟨NameTable.place_eq_zero_iff.mp h, by omega⟩⟩
  · rw [dif_pos h]
    exact ⟨_, _, rfl, ⟨hroom, hgrows, hused⟩, fun _ _ => rfl, subset_cons_self _ _, .inl (by omega)⟩

/-- What holds after some calls; the ids are places as long as there was one for every name. -/
structure NameInv (sizeofLong : Nat) (calls : List NameCall) (w : NameWorld) : Prop where
  handles : ∀ x ∈ w.handles, x.2 ≠ 0 → w.registry.place x.1 = x.2
  fits : w.tags.Fits sizeofLong
  asked : w.tags.table.names.toFinset ⊆ tagNames calls
  answered : ∀ name ∈ tagNames calls, ∃ id, (name, id) ∈ w.ids
  ids : (tagNames calls).card ≤ logTagsMax sizeofLong - 1 → ∀ x ∈ w.ids, w.tags.table.place x.1 = x.2 + 1

theorem nameStep_inv (hi : NameInv sizeofLong calls w) (call : NameCall) :
    ∃ w', nameStep sizeofLong w call = some w' ∧ NameInv sizeofLong (calls ++ [call]) w' := by
  cases call with
  | allocHandle name =>
    obtain ⟨hkeeps, hplace⟩ := w.registry.allocHandle_spec name
    have htags : tagNames (calls ++ [.allocHandle name]) = tagNames calls := by
      simp [tagNames, filterMap_cons, NameCall.tag?]
    refine ⟨_, rfl, ?_, hi.fits, htags ▸ hi.asked, htags ▸ hi.answered, htags ▸ hi.ids⟩
    rintro x (_ | ⟨_, hx⟩) hne
    · exact hplace hne
    · have hold := hi.handles x hx hne
      exact (hkeeps _ (hold ▸ hne)).trans hold
  | getHandle name =>
    have htags : tagNames (calls ++ [.getHandle name]) = tagNames calls := by
      simp [tagNames, filterMap_cons, NameCall.tag?]
    refine ⟨_, rfl, ?_, hi.fits, htags ▸ hi.asked, htags ▸ hi.answered, htags ▸ hi.ids⟩
    rintro x (_ | ⟨_, hx⟩) hne
    · rfl
    · exact hi.handles x hx hne
  | tag name =>
    obtain ⟨tags, id, hget, hfits, hkeeps, hsub, hplace⟩ := hi.fits.getByName name
    have htags : tagNames (calls ++ [.tag name]) = insert name (tagNames calls) := by
      ext other
      simp [tagNames, NameCall.tag?, or_comm]
    refine ⟨{ w with tags, ids := (name, id) :: w.ids }, by rw [nameStep, hget, Option.map_some],
      hi.handles, hfits, ?_, ?_, ?_⟩
    · intro other hother
      rw [htags, mem_insert]
      refine (mem_cons.mp (hsub (mem_toFinset.mp hother))).imp_right fun h => hi.asked (mem_toFinset.mpr h)
    · intro other hother
      rcases mem_insert.mp (htags ▸ hother) with rfl | hold
      · exact ⟨id, mem_cons_self ..⟩
      · exact (hi.answered other hold).imp fun _ => mem_cons_of_mem _
    · intro hcard
      have hcard' := (card_le_card (subset_insert name (tagNames calls))).trans (htags ▸ hcard)
      rintro x (_ | ⟨_, hx⟩)
      · refine hplace.resolve_right fun ⟨hnew, hfull⟩ => ?_
        -- the table is full with other names that are asked for
        have hmore := card_le_card (insert_subset_insert name hi.asked)
        rw [card_insert_of_notMem (mem_toFinset.not.mpr hnew), toFinset_card_of_nodup w.tags.table.nodup,
          hfull, ← htags] at hmore
        omega
      · have hold := hi.ids hcard' x hx
        exact (hkeeps _ (by omega)).trans hold

theorem names_run (sizeofLong : Nat) (calls : List NameCall) :
    ∃ w, exec (nameStep sizeofLong) namesInit calls = some w ∧ NameInv sizeofLong calls w := by
  induction calls using reverseRecOn with
  | nil =>
    exact ⟨_, rfl, nofun, ⟨Nat.zero_le _, by decide, Nat.zero_le _⟩, empty_subset _,
      fun _ hname => absurd hname (notMem_empty _), fun _ => nofun⟩
  | append_singleton calls call ih =>
    obtain ⟨w, hrun, hi⟩ := ih
    obtain ⟨w', hstep, hi'⟩ := nameStep_inv hi call
    exact ⟨w', by rw [exec_append, hrun, Option.bind_some, exec, hstep]; rfl, hi'⟩

theorem NameInv.card_le (hi : NameInv sizeofLong calls w) (h : NamesApart w) :
    (tagNames calls).card ≤ logTagsMax sizeofLong - 1 := by
  refine (card_le_card (t := w.tags.table.names.toFinset) fun name hname => ?_).trans
    ((toFinset_card_le _).trans (TagRegistry.Fits.used hi.fits))
  obtain ⟨id, hid⟩ := hi.answered name hname
  exact mem_toFinset.mpr (mem_of_getElem? (h.2.2 _ hid trivial))

/-- Names and ids correspond exactly if there are not more names of tags than ids. -/
theorem names_and_ids_iff (sizeofLong : Nat) (calls : List NameCall) :
    (∃ w, exec (nameStep sizeofLong) namesInit calls = some w ∧ NamesApart w) ↔
      (tagNames calls).card ≤ logTagsMax sizeofLong - 1 := by
  obtain ⟨w, hrun, hi⟩ := names_run sizeofLong calls
  constructor
  · rintro ⟨w', hrun', h⟩
    obtain rfl := Option.some.inj (hrun.symm.trans hrun')
    exact hi.card_le h
  · intro hcard
    exact ⟨w, hrun, oneToOne_of_places 0 fun x hx hne => ⟨hi.handles x hx hne, hne⟩,
      oneToOne_of_places 1 fun x hx _ => ⟨hi.ids hcard x hx, Nat.succ_ne_zero _⟩⟩

theorem names_and_ids_run_out :
    ¬ ∃ w, exec (nameStep 8) namesInit ((range 16384).map fun n => .tag (replicate n 97)) = some w ∧
      NamesApart w := by
  rintro ⟨w', hrun', h⟩
  obtain ⟨w, hrun, hi⟩ := names_run 8 ((range 16384).map fun n => .tag (replicate n 97))
  obtain rfl := Option.some.inj (hrun.symm.trans hrun')
  have hcard := hi.card_le h
  have hinj : Function.Injective fun n => replicate n (97 : UInt8) := fun a b h => by
    simpa using congrArg length h
  rw [tagNames, filterMap_map, show NameCall.tag? ∘ (fun n => .tag (replicate n 97)) =
    some ∘ fun n => replicate n (97 : UInt8) from rfl, filterMap_eq_map,
    toFinset_card_of_nodup (nodup_range.map hinj), length_map, length_range] at hcard
  exact absurd hcard (by decide)

end SyslogNg.LogMsg
