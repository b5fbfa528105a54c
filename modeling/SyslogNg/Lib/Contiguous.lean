import Mathlib.Tactic

/-!
# Contiguous lists

In a contiguous list equal elements stand together. `contiguous_insert` says where an element may
be put so that they still do.
-/

namespace SyslogNg.Lib

open List

variable {α : Type}

/-- An element is followed by an equal one, or does not occur again. -/
def Contiguous : List α → Prop
  | [] => True
  | a :: l => (l.head? = some a ∨ a ∉ l) ∧ Contiguous l

instance decidableContiguous [DecidableEq α] : DecidablePred (Contiguous : List α → Prop)
  | [] => isTrue trivial
  | a :: l =>
    have : Decidable (Contiguous l) := decidableContiguous l
    inferInstanceAs (Decidable ((l.head? = some a ∨ a ∉ l) ∧ Contiguous l))

section

variable {u v : List α} {a x : α}

theorem contiguous_append : Contiguous (u ++ v) ↔
    Contiguous u ∧ Contiguous v ∧ ∀ a ∈ u, a ∈ v → u.getLast? = some a ∧ v.head? = some a := by
  induction u with
  | nil => simp [Contiguous]
  | cons b u ih =>
    rw [cons_append, Contiguous, ih, Contiguous]
    cases u with
    | nil => simp [Contiguous, or_iff_not_imp_right]; tauto
    | cons c u =>
      have hlast : (b :: c :: u).getLast? = (c :: u).getLast? := getLast?_cons_cons
      simp only [hlast, cons_append, head?_cons]
      constructor
      · rintro ⟨hb, hu, hv, hcross⟩
        refine ⟨⟨hb.imp_right fun hb hmem => hb (mem_append_left v hmem), hu⟩, hv, fun a ha hav => ?_⟩
        rcases mem_cons.1 ha with rfl | ha
        · refine hcross a (hb.elim (fun hc => ?_) fun hnot => ?_) hav
          · rw [Option.some.inj hc]
            exact mem_cons_self
          · exact absurd (mem_append_right (c :: u) hav) hnot
        · exact hcross a ha hav
      · rintro ⟨⟨hb, hu⟩, hv, hcross⟩
        refine ⟨?_, hu, hv, fun a ha => hcross a (mem_cons_of_mem b ha)⟩
        refine or_iff_not_imp_left.2 fun hne (hmem : b ∈ (c :: u) ++ v) => ?_
        have hnot := hb.resolve_left hne
        rcases mem_append.1 hmem with hmem | hmem
        · exact hnot hmem
        · -- the element would be the last of the first list
          exact hnot (mem_of_getLast? (hcross b mem_cons_self hmem).1)

/-- **Where an element may be put**: next to the equal ones, and not between two that are equal to
each other and not to it. -/
theorem contiguous_insert (h : Contiguous (u ++ v)) : Contiguous (u ++ x :: v) ↔
    (x ∈ u → u.getLast? = some x) ∧ (x ∈ v → v.head? = some x) ∧
      ∀ a, u.getLast? = some a → v.head? = some a → a = x := by
  obtain ⟨hu, hv, hcross⟩ := contiguous_append.1 h
  rw [contiguous_append, Contiguous, head?_cons]
  constructor
  · rintro ⟨-, ⟨hx, -⟩, hcross'⟩
    refine ⟨fun hmem => (hcross' x hmem mem_cons_self).1, fun hmem => hx.resolve_right (not_not.2 hmem),
      fun a hlast hhead => ?_⟩
    have := (hcross' a (mem_of_getLast? hlast) (mem_cons_of_mem x (mem_of_head? hhead))).2
    exact (Option.some.inj this).symm
  · rintro ⟨hxu, hxv, hmid⟩
    refine ⟨hu, ⟨or_iff_not_imp_right.2 fun hmem => hxv (not_not.1 hmem), hv⟩, fun a hau ha => ?_⟩
    rcases mem_cons.1 ha with rfl | hav
    · exact ⟨hxu hau, rfl⟩
    · obtain ⟨hlast, hhead⟩ := hcross a hau hav
      exact ⟨hlast, congrArg some (hmid a hlast hhead).symm⟩

theorem contiguous_concat (h : Contiguous u) :
    Contiguous (u ++ [x]) ↔ (x ∈ u → u.getLast? = some x) := by
  have hinsert := contiguous_insert (x := x) ((append_nil u).symm ▸ h)
  rw [hinsert]
  simp

end

end SyslogNg.Lib
