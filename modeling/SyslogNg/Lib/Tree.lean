import Mathlib.Order.Defs.Unbundled
import Mathlib.Data.List.Nodup
import Mathlib.Data.List.Perm.Basic
import Mathlib.Data.List.Induction

/-!
# Ordered trees

A balanced tree of keys and values, by the list of its entries in the order of a traversal. Inserting a key
that is there replaces its value.
-/

namespace SyslogNg.Lib

open List Option

section

variable {K V : Type} (before : K → K → Prop) [DecidableRel before] [DecidableEq K]

def insertEntry (key : K) (value : V) : List (K × V) → List (K × V)
  | [] => [(key, value)]
  | entry :: entries =>
    if before key entry.1 then (key, value) :: entry :: entries
    else if key = entry.1 then (entry.1, value) :: entries
    else entry :: insertEntry key value entries

variable {before}

theorem mem_insertEntry {key : K} {value : V} {entries : List (K × V)} {entry : K × V}
    (h : entry ∈ insertEntry before key value entries) : entry = (key, value) ∨ entry ∈ entries := by
  induction entries with
  | nil => exact .inl (mem_singleton.mp h)
  | cons e entries ih =>
    unfold insertEntry at h
    split at h
    · exact (mem_cons.mp h).imp id id
    · split at h
      · rename_i heq
        rcases mem_cons.mp h with h | h
        · exact .inl (h.trans (by rw [heq]))
        · exact .inr (mem_cons_of_mem e h)
      · rcases mem_cons.mp h with h | h
        · exact .inr (h ▸ mem_cons_self)
        · exact (ih h).imp id (mem_cons_of_mem e)

theorem insertEntry_ordered [IsStrictTotalOrder K before] (key : K) (value : V) {entries : List (K × V)}
    (h : entries.Pairwise fun a b => before a.1 b.1) :
    (insertEntry before key value entries).Pairwise fun a b => before a.1 b.1 := by
  induction entries with
  | nil => exact pairwise_singleton _ _
  | cons e entries ih =>
    obtain ⟨hhead, htail⟩ := pairwise_cons.mp h
    unfold insertEntry
    split
    · rename_i hbefore
      refine pairwise_cons.mpr ⟨fun entry hentry => ?_, h⟩
      rcases mem_cons.mp hentry with rfl | hentry
      · exact hbefore
      · exact trans_of before hbefore (hhead entry hentry)
    · rename_i hbefore
      split
      · exact pairwise_cons.mpr ⟨hhead, htail⟩
      · rename_i hne
        refine pairwise_cons.mpr ⟨fun entry hentry => ?_, ih htail⟩
        rcases mem_insertEntry hentry with rfl | hentry
        · exact ((trichotomous_of before key e.1).resolve_left hbefore).resolve_left hne
        · exact hhead entry hentry

end

/-- A `GTree`; the field says that it is searched in the order of its comparison function. -/
structure GTree (K V : Type) (before : K → K → Prop) where
  entries : List (K × V)
  ordered : entries.Pairwise fun a b => before a.1 b.1

namespace GTree

variable {K V : Type} {before : K → K → Prop}

def empty : GTree K V before := ⟨[], List.Pairwise.nil⟩

variable [DecidableEq K]

def lookup (tree : GTree K V before) (key : K) : Option V := (tree.entries.find? (·.1 = key)).map (·.2)

@[simp] theorem lookup_empty (key : K) : (empty : GTree K V before).lookup key = none := rfl

variable [DecidableRel before] [IsStrictTotalOrder K before]

/-- `g_tree_insert`. -/
def insert (tree : GTree K V before) (key : K) (value : V) : GTree K V before :=
  ⟨insertEntry before key value tree.entries, insertEntry_ordered key value tree.ordered⟩

variable (tree : GTree K V before)

theorem keys_nodup : (tree.entries.map (·.1)).Nodup :=
  pairwise_map.mpr (tree.ordered.imp fun {a b} h (heq : a.1 = b.1) => irrefl_of before b.1 (heq ▸ h))

theorem find_insertEntry_self (key : K) (value : V) (entries : List (K × V)) :
    ((insertEntry before key value entries).find? (·.1 = key)).map (·.2) = some value := by
  induction entries with
  | nil => simp [insertEntry]
  | cons e entries ih =>
    unfold insertEntry
    split
    · simp
    · split
      · rename_i heq
        simp [heq]
      · rename_i hne
        rw [find?_cons_of_neg (by simpa using Ne.symm hne)]
        exact ih

theorem find_insertEntry_ne {key other : K} (h : other ≠ key) (value : V) (entries : List (K × V)) :
    (insertEntry before key value entries).find? (·.1 = other) = entries.find? (·.1 = other) := by
  induction entries with
  | nil => simp [insertEntry, Ne.symm h]
  | cons e entries ih =>
    unfold insertEntry
    split
    · rw [find?_cons_of_neg (by simpa using Ne.symm h)]
    · split
      · rename_i heq
        have hne : ¬e.1 = other := fun h' => h (h'.symm.trans heq.symm)
        rw [find?_cons_of_neg (by simpa using hne), find?_cons_of_neg (by simpa using hne)]
      · by_cases he : e.1 = other
        · rw [find?_cons_of_pos (by simpa using he), find?_cons_of_pos (by simpa using he)]
        · rw [find?_cons_of_neg (by simpa using he), find?_cons_of_neg (by simpa using he), ih]

theorem lookup_insert (key other : K) (value : V) :
    (tree.insert key value).lookup other = if other = key then some value else tree.lookup other := by
  by_cases h : other = key
  · rw [if_pos h, h]
    exact find_insertEntry_self key value tree.entries
  · rw [if_neg h]
    exact congrArg (Option.map _) (find_insertEntry_ne h value tree.entries)

theorem mem_entries_iff {key : K} {value : V} :
    (key, value) ∈ tree.entries ↔ tree.lookup key = some value := by
  constructor
  · intro h
    have hsome : (tree.entries.find? (·.1 = key)).isSome := find?_isSome.mpr ⟨_, h, by simp⟩
    obtain ⟨entry, hfind⟩ := isSome_iff_exists.mp hsome
    have hkey : entry.1 = key := by simpa using find?_some hfind
    have hmem := mem_of_find?_eq_some hfind
    have heq : entry = (key, value) :=
      inj_on_of_nodup_map (keys_nodup tree) hmem h hkey
    unfold lookup
    rw [hfind, heq]
    rfl
  · intro h
    obtain ⟨entry, hfind, hvalue⟩ := map_eq_some_iff.mp h
    have hkey : entry.1 = key := by simpa using find?_some hfind
    have hmem := mem_of_find?_eq_some hfind
    rwa [← hkey, ← hvalue]

def insertAll (tree : GTree K V before) (pairs : List (K × V)) : GTree K V before :=
  pairs.foldl (fun tree pair => tree.insert pair.1 pair.2) tree

theorem insertAll_append (pairs rest : List (K × V)) :
    tree.insertAll (pairs ++ rest) = (tree.insertAll pairs).insertAll rest := foldl_append

theorem lookup_insertAll (pairs : List (K × V)) (key : K) :
    (tree.insertAll pairs).lookup key = ((pairs.reverse.find? (·.1 = key)).map (·.2)).or (tree.lookup key) := by
  induction pairs using List.reverseRecOn with
  | nil => rfl
  | append_singleton pairs pair ih =>
    rw [insertAll_append]
    show ((tree.insertAll pairs).insert pair.1 pair.2).lookup key = _
    rw [lookup_insert, reverse_append, reverse_singleton, singleton_append]
    by_cases h : key = pair.1
    · rw [if_pos h, find?_cons_of_pos (by simpa using h.symm)]
      rfl
    · rw [if_neg h, find?_cons_of_neg (by simpa using Ne.symm h), ih]

variable {pairs : List (K × V)}

theorem insertAll_perm (hnodup : (pairs.map (·.1)).Nodup) :
    ((empty : GTree K V before).insertAll pairs).entries.Perm pairs := by
  have hpairs : pairs.Nodup := hnodup.of_map
  refine (perm_ext_iff_of_nodup (keys_nodup _).of_map hpairs).mpr fun ⟨key, value⟩ => ?_
  rw [mem_entries_iff, lookup_insertAll, lookup_empty, or_none]
  constructor
  · intro h
    obtain ⟨entry, hfind, hvalue⟩ := map_eq_some_iff.mp h
    have hkey : entry.1 = key := by simpa using find?_some hfind
    have hmem := mem_reverse.mp (mem_of_find?_eq_some hfind)
    rwa [← hkey, ← hvalue]
  · intro h
    have hsome : (pairs.reverse.find? (·.1 = key)).isSome :=
      find?_isSome.mpr ⟨_, mem_reverse.mpr h, by simp⟩
    obtain ⟨entry, hfind⟩ := isSome_iff_exists.mp hsome
    have hkey : entry.1 = key := by simpa using find?_some hfind
    have hmem := mem_reverse.mp (mem_of_find?_eq_some hfind)
    have heq : entry = (key, value) := inj_on_of_nodup_map hnodup hmem h hkey
    rw [hfind, heq]
    rfl

theorem mem_insertAll_iff {key : K} {value : V} :
    (key, value) ∈ ((empty : GTree K V before).insertAll pairs).entries ↔
      ∃ front back, pairs = front ++ (key, value) :: back ∧ ∀ pair ∈ back, pair.1 ≠ key := by
  rw [mem_entries_iff, lookup_insertAll, lookup_empty, or_none]
  constructor
  · intro h
    obtain ⟨entry, hfind, hvalue⟩ := map_eq_some_iff.mp h
    obtain ⟨hkey, behind, front, hsplit, hbehind⟩ := find?_eq_some_iff_append.mp hfind
    have hentry : entry = (key, value) := Prod.ext (by simpa using hkey) hvalue
    refine ⟨front.reverse, behind.reverse, ?_, fun pair hpair => ?_⟩
    · rw [← reverse_reverse pairs, hsplit, hentry]
      simp
    · simpa using hbehind pair (mem_reverse.mp hpair)
  · rintro ⟨front, back, rfl, hback⟩
    have hfind : (front ++ (key, value) :: back).reverse.find? (·.1 = key) = some (key, value) := by
      rw [reverse_append, reverse_cons, append_assoc, find?_append,
        find?_eq_none.mpr fun pair hpair => by simpa using hback pair (mem_reverse.mp hpair)]
      simp
    rw [hfind]
    rfl

theorem key_mem_insertAll_iff {key : K} :
    (∃ entry ∈ ((empty : GTree K V before).insertAll pairs).entries, entry.1 = key) ↔
      ∃ pair ∈ pairs, pair.1 = key := by
  constructor
  · rintro ⟨⟨key, value⟩, hentry, rfl⟩
    obtain ⟨front, back, hpairs, -⟩ := mem_insertAll_iff.mp hentry
    exact ⟨(key, value), by rw [hpairs]; simp, rfl⟩
  · rintro ⟨pair, hpair, rfl⟩
    have hsome : (pairs.reverse.find? (·.1 = pair.1)).isSome :=
      find?_isSome.mpr ⟨_, mem_reverse.mpr hpair, by simp⟩
    obtain ⟨entry, hfind⟩ := isSome_iff_exists.mp hsome
    refine ⟨(pair.1, entry.2), mem_entries_iff _ |>.mpr ?_, rfl⟩
    rw [lookup_insertAll, hfind]
    rfl

omit [DecidableEq K] [DecidableRel before] [IsStrictTotalOrder K before] in
/-- `g_hash_table_foreach_remove`, for what is kept. -/
def filter (tree : GTree K V before) (keep : K × V → Bool) : GTree K V before :=
  ⟨tree.entries.filter keep, tree.ordered.filter _⟩

theorem lookup_filter (keep : K × V → Bool) (key : K) :
    (tree.filter keep).lookup key = (tree.lookup key).filter fun value => keep (key, value) := by
  refine ext fun value => ?_
  rw [← mem_entries_iff, filter_eq_some_iff, ← mem_entries_iff]
  exact mem_filter

/-- One more of a key. -/
def tally (tree : GTree K Nat before) (key : K) : GTree K Nat before :=
  tree.insert key ((tree.lookup key).getD 0 + 1)

theorem lookup_tally (tree : GTree K Nat before) (key other : K) :
    (tree.tally key).lookup other =
      if other = key then some ((tree.lookup key).getD 0 + 1) else tree.lookup other :=
  lookup_insert tree key other _

theorem lookup_tallies [BEq K] [LawfulBEq K] (keys : List K) (key : K) :
    (keys.foldl tally (empty : GTree K Nat before)).lookup key =
      if keys.count key = 0 then none else some (keys.count key) := by
  induction keys using List.reverseRecOn with
  | nil => rfl
  | append_singleton keys k ih =>
    rw [foldl_append, foldl_cons, foldl_nil, count_append, lookup_tally]
    by_cases h : key = k
    · subst h
      have hone : List.count key [key] = 1 := by simp
      rw [if_pos rfl, ih, hone, if_neg (Nat.succ_ne_zero _)]
      split
      · rename_i hzero
        rw [hzero]
        rfl
      · rfl
    · have hnone : List.count key [k] = 0 := count_eq_zero.mpr (by simpa using h)
      rw [if_neg h, ih, hnone, Nat.add_zero]

end GTree

end SyslogNg.Lib
