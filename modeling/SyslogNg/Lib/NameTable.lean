import Mathlib.Tactic

/-!
# Tables of names

An array of names, and a map to the places in it, counted from 1; names that are not in the table have the
place 0.
-/

namespace SyslogNg.Lib

open List Function

variable {α : Type}

structure NameTable (α : Type) where
  names : List α
  place : α → Nat
  sound : ∀ name i, place name = i + 1 ↔ names[i]? = some name

namespace NameTable

variable {t : NameTable α} {name : α}

def empty : NameTable α := ⟨[], fun _ => 0, by simp⟩

theorem place_eq_zero_iff : t.place name = 0 ↔ name ∉ t.names := by
  rw [mem_iff_getElem?, ← not_iff_not, not_not]
  constructor
  · intro h
    obtain ⟨i, hi⟩ := Nat.exists_eq_succ_of_ne_zero h
    exact ⟨i, (t.sound name i).mp hi⟩
  · rintro ⟨i, hi⟩
    rw [(t.sound name i).mpr hi]
    exact Nat.succ_ne_zero i

theorem nodup (t : NameTable α) : t.names.Nodup := by
  refine nodup_iff_getElem?_ne_getElem?.mpr fun i j hij hj h => ?_
  rw [getElem?_eq_getElem hj] at h
  have hi' := (t.sound _ i).mpr h
  have hj' := (t.sound _ j).mpr (getElem?_eq_getElem hj)
  omega

variable [DecidableEq α]

/-- A new name gets the place behind the others. -/
def add (t : NameTable α) (name : α) (hnew : t.place name = 0) : NameTable α where
  names := t.names ++ [name]
  place := update t.place name (t.names.length + 1)
  sound other i := by
    have hmem := place_eq_zero_iff.mp hnew
    by_cases h : other = name
    · subst h
      rw [update_self, getElem?_append]
      split
      · next hi => exact iff_of_false (by omega) fun h => hmem (mem_of_getElem? h)
      · next hi =>
        rw [getElem?_singleton]
        split <;> simp <;> omega
    · rw [update_of_ne h, t.sound, getElem?_append]
      split
      · rfl
      · next hi =>
        rw [getElem?_eq_none (not_lt.mp hi), getElem?_singleton]
        split <;> simp [Ne.symm h]

/-- No name has lost its place. -/
def Keeps (t t' : NameTable α) : Prop := ∀ name, t.place name ≠ 0 → t'.place name = t.place name

theorem add_keeps (hnew : t.place name = 0) : t.Keeps (t.add name hnew) := by
  intro other hother
  refine update_of_ne ?_ _ _
  rintro rfl
  exact hother hnew

theorem place_add (hnew : t.place name = 0) : (t.add name hnew).place name = t.names.length + 1 :=
  update_self ..

end NameTable

/-- Names and the valid ids they were given correspond one to one, and an id leads back to its name. -/
def OneToOne (valid : Nat → Prop) (nameOf : Nat → Option α) (given : List (α × Nat)) : Prop :=
  (∀ x ∈ given, ∀ y ∈ given, valid x.2 → valid y.2 → (x.2 = y.2 ↔ x.1 = y.1)) ∧
    ∀ x ∈ given, valid x.2 → nameOf x.2 = some x.1

theorem oneToOne_of_places {t : NameTable α} {valid : Nat → Prop} {given : List (α × Nat)} (ofs : Nat)
    (hplaces : ∀ x ∈ given, valid x.2 → t.place x.1 = x.2 + ofs ∧ x.2 + ofs ≠ 0) :
    OneToOne valid (fun id => t.names[id + ofs - 1]?) given := by
  have hname (x : α × Nat) (hx : x ∈ given) (hv : valid x.2) : t.names[x.2 + ofs - 1]? = some x.1 := by
    obtain ⟨hp, hne⟩ := hplaces x hx hv
    exact (t.sound _ _).mp (by omega)
  refine ⟨fun x hx y hy hvx hvy => ⟨fun h => ?_, fun h => ?_⟩, hname⟩
  · have hx' := hname x hx hvx
    rw [h, hname y hy hvy] at hx'
    exact (Option.some.inj hx').symm
  · have hx' := (hplaces x hx hvx).1
    rw [h, (hplaces y hy hvy).1] at hx'
    omega

end SyslogNg.Lib
