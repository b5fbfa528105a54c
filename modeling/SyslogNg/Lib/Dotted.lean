import Mathlib.Order.Defs.Unbundled
import Mathlib.Data.UInt
import Mathlib.Data.List.Infix

/-!
# Names with separators

A name is split into components at a separator. The texts in front of a separator are those that the proper
prefixes of its components make; in the lexicographic order the names that go on from a text are next to each
other.
-/

namespace SyslogNg.Lib

open List

section

variable {α : Type} [BEq α] [LawfulBEq α] {sep : α}

/-- The components with separators between them. -/
def joinParts (sep : α) (parts : List (List α)) : List α := [sep].intercalate parts

theorem joinParts_singleton (part : List α) : joinParts sep [part] = part := intercalate_singleton

theorem joinParts_append {parts rest : List (List α)} (hparts : parts ≠ []) (hrest : rest ≠ []) :
    joinParts sep (parts ++ rest) = joinParts sep parts ++ sep :: joinParts sep rest := by
  induction parts with
  | nil => exact absurd rfl hparts
  | cons part parts ih =>
    cases parts with
    | nil =>
      rw [singleton_append, joinParts_singleton]
      show [sep].intercalate (part :: rest) = _
      rw [intercalate_cons_of_ne_nil hrest, append_assoc]
      rfl
    | cons next parts =>
      have ih := ih (cons_ne_nil next parts)
      show [sep].intercalate (part :: (next :: parts ++ rest)) = [sep].intercalate (part :: next :: parts) ++ _
      rw [intercalate_cons_of_ne_nil (by simp), intercalate_cons_of_ne_nil (cons_ne_nil _ _),
        append_assoc _ ([sep].intercalate (next :: parts))]
      exact congrArg (part ++ [sep] ++ ·) ih

theorem joinParts_splitOn (name : List α) : joinParts sep (name.splitOn sep) = name :=
  intercalate_splitOn sep

theorem not_mem_of_mem_splitOn {name part : List α} (h : part ∈ name.splitOn sep) : sep ∉ part := by
  induction name generalizing part with
  | nil =>
    have hpart : part = [] := by simpa using h
    rw [hpart]
    exact not_mem_nil
  | cons c name ih =>
    rw [splitOn_cons_eq_if_modifyHead] at h
    split at h
    · rcases mem_cons.mp h with rfl | h
      · exact not_mem_nil
      · exact ih h
    · rename_i hc
      cases hsplit : name.splitOn sep with
      | nil => exact absurd hsplit (splitOn_ne_nil sep name)
      | cons first parts =>
        rw [hsplit] at h ih
        rcases mem_cons.mp h with rfl | h
        · intro hmem
          rcases mem_cons.mp hmem with rfl | hmem
          · exact hc (beq_self_eq_true _)
          · exact ih mem_cons_self hmem
        · exact ih (mem_cons_of_mem first h)

theorem eq_joinParts_append {name : List α} {parts rest : List (List α)} (hparts : parts ≠ []) (hrest : rest ≠ [])
    (h : name.splitOn sep = parts ++ rest) : name = joinParts sep parts ++ sep :: joinParts sep rest := by
  rw [← joinParts_append hparts hrest, ← h, joinParts_splitOn]

theorem splitOn_joinParts {name : List α} {parts : List (List α)} (hne : parts ≠ [])
    (h : parts <+: name.splitOn sep) : (joinParts sep parts).splitOn sep = parts :=
  splitOn_intercalate sep (fun _ hpart => not_mem_of_mem_splitOn (h.mem hpart)) hne

end

section

variable {p a b m : List UInt8}

instance bytes_strictTotalOrder : IsStrictTotalOrder (List UInt8) (· < ·) where
  trichotomous _ _ h h' := List.le_antisymm (List.not_lt.mp h') (List.not_lt.mp h)
  irrefl := List.lt_irrefl
  trans _ _ _ := List.lt_trans

theorem append_lt_append_iff : p ++ a < p ++ b ↔ a < b := by
  induction p with
  | nil => exact Iff.rfl
  | cons c p ih =>
    rw [cons_append, cons_append, cons_lt_cons_iff, ih]
    exact ⟨fun h => h.elim (fun hc => absurd hc (UInt8.lt_irrefl c)) And.right, fun h => .inr ⟨rfl, h⟩⟩

theorem prefix_of_between (hlow : p ++ a < m) (hhigh : m < p ++ b) : p <+: m := by
  induction p generalizing m with
  | nil => exact nil_prefix
  | cons c p ih =>
    cases m with
    | nil => exact absurd hlow (not_lt_nil _)
    | cons d m =>
      rw [cons_append, cons_lt_cons_iff] at hlow hhigh
      have heq : c = d := by
        rcases hlow with hlt | ⟨heq, -⟩
        · rcases hhigh with hlt' | ⟨heq, -⟩
          · exact absurd (UInt8.lt_trans hlt hlt') (UInt8.lt_irrefl c)
          · exact heq.symm
        · exact heq
      subst heq
      have hlow : p ++ a < m := hlow.elim (fun h => absurd h (UInt8.lt_irrefl c)) And.right
      have hhigh : m < p ++ b := hhigh.elim (fun h => absurd h (UInt8.lt_irrefl c)) And.right
      exact cons_prefix_cons.mpr ⟨rfl, ih hlow hhigh⟩

end

end SyslogNg.Lib
