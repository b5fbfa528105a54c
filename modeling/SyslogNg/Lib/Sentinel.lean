import Mathlib.Tactic

/-!
# Scanning a memory that ends in a sentinel

A scanner reads one cell after another and decides at each whether it goes on. The memory is a
list of the cells that may be read; `none` is a scanner that runs off its end. A scanner that
always stops at the sentinel never does, and it stops at the sentinel or before it.
-/

namespace SyslogNg.Lib

open List Option

variable {α σ : Type}

/-- What a scanner does at a cell: it goes on behind it, stops at it, or gives up. -/
inductive Turn (σ : Type) where
  | goOn (state : σ)
  | stop (state : σ)
  | reject
  deriving DecidableEq

/-- How a scan ends: given up, or stopped in a state after so many cells. -/
abbrev ScanEnd (σ : Type) := Option (σ × Nat)

def scan (turn : σ → α → Turn σ) (state : σ) : List α → Option (ScanEnd σ)
  | [] => none
  | cell :: mem =>
    match turn state cell with
    | .goOn state' => (scan turn state' mem).map fun e => e.map fun r => (r.1, r.2 + 1)
    | .stop state' => some (some (state', 0))
    | .reject => some none

/-- How many cells a loop skips that goes on while `p` holds. -/
def skipWhile (p : α → Bool) : List α → Option Nat
  | [] => none
  | cell :: mem => if p cell then (skipWhile p mem).map (· + 1) else some 0

/-! ## Scanners -/

variable {state : σ} {turn : σ → α → Turn σ} {mem : List α}

theorem scan_goOn {state' : σ} {cell : α}
    (h : turn state cell = .goOn state') :
    scan turn state (cell :: mem) = (scan turn state' mem).map fun e => e.map fun r => (r.1, r.2 + 1) := by
  rw [scan, h]

theorem scan_stop {state' : σ} {cell : α}
    (h : turn state cell = .stop state') : scan turn state (cell :: mem) = some (some (state', 0)) := by
  rw [scan, h]

theorem scan_reject {cell : α} (h : turn state cell = .reject) :
    scan turn state (cell :: mem) = some none := by
  rw [scan, h]

theorem scan_lt {state' : σ} {n : Nat}
    (h : scan turn state mem = some (some (state', n))) : n < mem.length := by
  induction mem generalizing state n with
  | nil => cases h
  | cons cell mem ih =>
    cases ht : turn state cell with
    | reject => rw [scan_reject ht] at h; cases h
    | stop next =>
      rw [scan_stop ht] at h
      cases h
      simp
    | goOn next =>
      rw [scan_goOn ht] at h
      simp only [map_eq_some_iff] at h
      obtain ⟨e, he, hr⟩ := h
      obtain ⟨r, rfl, hr⟩ := hr
      cases hr
      have := ih he
      simp only [length_cons]
      omega

theorem scan_isSome {z : α} (hz : ∀ s s', turn s z ≠ .goOn s') (state : σ)
    (hmem : z ∈ mem) : (scan turn state mem).isSome := by
  induction mem generalizing state with
  | nil => cases hmem
  | cons cell mem ih =>
    cases ht : turn state cell with
    | reject => rw [scan_reject ht]; rfl
    | stop next => rw [scan_stop ht]; rfl
    | goOn next =>
      rw [scan_goOn ht, isSome_map]
      refine ih next ((mem_cons.mp hmem).resolve_left ?_)
      rintro rfl
      exact hz _ _ ht

/-- A scanner goes on behind each of these cells. -/
inductive Runs (turn : σ → α → Turn σ) : σ → List α → σ → Prop
  | nil (s : σ) : Runs turn s [] s
  | cons {s s' s'' : σ} {cell : α} {cells : List α} (h : turn s cell = .goOn s')
      (hs : Runs turn s' cells s'') : Runs turn s (cell :: cells) s''

theorem Runs.append {s s' s'' : σ} {xs ys : List α} (hx : Runs turn s xs s')
    (hy : Runs turn s' ys s'') : Runs turn s (xs ++ ys) s'' := by
  induction hx with
  | nil s => exact hy
  | cons h _ ih => exact .cons h (ih hy)

theorem Runs.of_append {s s'' : σ} {xs ys : List α}
    (h : Runs turn s (xs ++ ys) s'') : ∃ s', Runs turn s xs s' ∧ Runs turn s' ys s'' := by
  induction xs generalizing s with
  | nil => exact ⟨s, .nil s, h⟩
  | cons x xs ih =>
    cases h with
    | cons hturn hs =>
      obtain ⟨s', hx, hy⟩ := ih hs
      exact ⟨s', .cons hturn hx, hy⟩

theorem Runs.of_snoc {s s'' : σ} {cells : List α} {cell : α}
    (h : Runs turn s (cells ++ [cell]) s'') : ∃ s', Runs turn s cells s' ∧ turn s' cell = .goOn s'' := by
  obtain ⟨s', hs, hcell⟩ := h.of_append
  cases hcell with
  | cons hturn hnil =>
    cases hnil
    exact ⟨s', hs, hturn⟩

theorem scan_eq_some_iff {s s'' : σ} {n : Nat} :
    scan turn s mem = some (some (s'', n)) ↔
      ∃ cells s' cell rest, mem = cells ++ cell :: rest ∧ cells.length = n ∧
        Runs turn s cells s' ∧ turn s' cell = .stop s'' := by
  constructor
  · intro h
    induction mem generalizing s n with
    | nil => cases h
    | cons cell mem ih =>
      cases ht : turn s cell with
      | reject => rw [scan_reject ht] at h; cases h
      | stop next =>
        rw [scan_stop ht] at h
        cases h
        exact ⟨[], s, cell, mem, rfl, rfl, .nil s, ht⟩
      | goOn next =>
        rw [scan_goOn ht] at h
        simp only [map_eq_some_iff] at h
        obtain ⟨e, he, r, rfl, hr⟩ := h
        cases hr
        obtain ⟨cells, s', last, rest, rfl, hlen, hruns, hstop⟩ := ih he
        exact ⟨cell :: cells, s', last, rest, rfl, by rw [length_cons, hlen], .cons ht hruns,
          hstop⟩
  · rintro ⟨cells, s', cell, rest, rfl, rfl, hruns, hstop⟩
    induction hruns with
    | nil s => exact scan_stop hstop
    | cons h _ ih =>
      rw [cons_append, scan_goOn h, ih hstop]
      rfl

/-! ## Skipping -/

variable {p : α → Bool}

theorem skipWhile_eq_some {n : Nat} (h : skipWhile p mem = some n) :
    n = (mem.takeWhile p).length ∧ n < mem.length := by
  induction mem generalizing n with
  | nil => cases h
  | cons cell mem ih =>
    rw [skipWhile] at h
    split at h
    case isTrue hp =>
      obtain ⟨k, hk, rfl⟩ := map_eq_some_iff.mp h
      obtain ⟨rfl, hlt⟩ := ih hk
      rw [takeWhile_cons_of_pos hp]
      exact ⟨rfl, Nat.succ_lt_succ hlt⟩
    case isFalse hp =>
      cases h
      rw [takeWhile_cons_of_neg hp]
      exact ⟨rfl, Nat.succ_pos _⟩

theorem skipWhile_isSome : (skipWhile p mem).isSome ↔ ∃ cell ∈ mem, p cell = false := by
  induction mem with
  | nil => simp [skipWhile]
  | cons cell mem ih =>
    rw [skipWhile]
    split
    case isTrue hp => simp [ih, hp]
    case isFalse hp => simp [hp]

theorem skipWhile_sentinel {z : α} (hz : p z = true) (text : List α) :
    (skipWhile p (text ++ [z])).isSome ↔ ∃ cell ∈ text, p cell = false := by
  simp [skipWhile_isSome, hz]

theorem skipWhile_of_sentinel {z : α} (hz : p z = false) (hmem : z ∈ mem) :
    ∃ n, skipWhile p mem = some n ∧ n < mem.length := by
  obtain ⟨n, hn⟩ := isSome_iff_exists.mp (skipWhile_isSome.mpr ⟨z, hmem, hz⟩)
  exact ⟨n, hn, (skipWhile_eq_some hn).2⟩

end SyslogNg.Lib
