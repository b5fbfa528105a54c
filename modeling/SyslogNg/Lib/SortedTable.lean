import Mathlib.Tactic

/-!
# Tables sorted by a key

A table is a list whose keys increase. It is searched by halving (`search`, with the loop as C
programs write it), and a row is put in where the search ends. `lookupBy` says what such a table
holds; `search_cases` where in the list a key is or belongs.
-/

namespace SyslogNg.Lib

open List

variable {α : Type} {key : α → Nat} {xs pre post : List α} {k : Nat}

def SortedBy (key : α → Nat) (xs : List α) : Prop := xs.Pairwise (key · < key ·)

def lookupBy (key : α → Nat) (xs : List α) (k : Nat) : Option α := xs.find? (key · = k)

inductive SearchResult where
  | found (ndx : Nat)
  | missing (ndx : Nat)
  deriving DecidableEq

/-- The rows from `l` up to, not including, `h` can hold the key; `rounds` bounds the halvings. -/
def searchLoop (key : α → Nat) (xs : List α) (k : Nat) : Nat → Nat → Nat → SearchResult
  | 0, l, _ => .missing l
  | rounds + 1, l, h =>
    if l < h then
      let m := (l + (h - 1)) / 2
      match xs[m]? with
      | none => .missing l
      | some x =>
        if key x = k then .found m
        else if key x > k then searchLoop key xs k rounds l m
        else searchLoop key xs k rounds (m + 1) h
    else .missing l

def search (key : α → Nat) (xs : List α) (k : Nat) : SearchResult :=
  searchLoop key xs k xs.length 0 xs.length

/-- A split of the table at a key. -/
structure SplitsAt (key : α → Nat) (k : Nat) (pre post : List α) : Prop where
  below : ∀ y ∈ pre, key y < k
  above : ∀ y ∈ post, k < key y

theorem searchLoop_cases (hs : SortedBy key xs) (k : Nat) {rounds l h : Nat} (hlh : l ≤ h)
    (hle : h ≤ xs.length) (hrounds : h - l ≤ rounds)
    (hlow : ∀ i (hi : i < xs.length), i < l → key xs[i] < k)
    (hhigh : ∀ i (hi : i < xs.length), h ≤ i → k < key xs[i]) :
    (∃ m, ∃ hm : m < xs.length, searchLoop key xs k rounds l h = .found m ∧ key xs[m] = k) ∨
      ∃ m, searchLoop key xs k rounds l h = .missing m ∧ m ≤ xs.length ∧
        (∀ i (hi : i < xs.length), i < m → key xs[i] < k) ∧
        ∀ i (hi : i < xs.length), m ≤ i → k < key xs[i] := by
  have hdone : ∀ {l h : Nat}, h ≤ l → l ≤ h → h ≤ xs.length →
      (∀ i (hi : i < xs.length), i < l → key xs[i] < k) →
      (∀ i (hi : i < xs.length), h ≤ i → k < key xs[i]) →
      l ≤ xs.length ∧ (∀ i (hi : i < xs.length), i < l → key xs[i] < k) ∧
        ∀ i (hi : i < xs.length), l ≤ i → k < key xs[i] := by
    intro l h h1 h2 h3 hlow hhigh
    exact ⟨by omega, hlow, fun i hi hli => hhigh i hi (by omega)⟩
  induction rounds generalizing l h with
  | zero => exact .inr ⟨l, rfl, hdone (by omega) hlh hle hlow hhigh⟩
  | succ rounds ih =>
    rw [searchLoop]
    by_cases hlt : l < h
    swap
    · rw [if_neg hlt]
      exact .inr ⟨l, rfl, hdone (by omega) hlh hle hlow hhigh⟩
    rw [if_pos hlt]
    have hm1 : l ≤ (l + (h - 1)) / 2 := by omega
    have hm2 : (l + (h - 1)) / 2 < h := by omega
    generalize (l + (h - 1)) / 2 = m at hm1 hm2
    have hm : m < xs.length := by omega
    simp only [getElem?_eq_getElem hm]
    have hmono : ∀ i j (hi : i < xs.length) (hj : j < xs.length), i < j → key xs[i] < key xs[j] :=
      fun i j hi hj hij => pairwise_iff_getElem.1 hs i j hi hj hij
    by_cases heq : key xs[m] = k
    · rw [if_pos heq]
      exact .inl ⟨m, hm, rfl, heq⟩
    rw [if_neg heq]
    by_cases hgt : key xs[m] > k
    · rw [if_pos hgt]
      refine ih (by omega) (by omega) (by omega) hlow ?_
      intro i hi hmi
      rcases Nat.eq_or_lt_of_le hmi with rfl | hlt'
      · exact hgt
      · exact Nat.lt_trans hgt (hmono m i hm hi hlt')
    · rw [if_neg hgt]
      refine ih (by omega) hle (by omega) ?_ hhigh
      intro i hi him
      rcases Nat.eq_or_lt_of_le (Nat.le_of_lt_succ him) with rfl | hlt'
      · omega
      · have := hmono i m hi hm hlt'
        omega

/-- **The search** finds the row of the key, or the place for it. -/
theorem search_cases (hs : SortedBy key xs) (k : Nat) :
    (∃ pre x post, search key xs k = .found pre.length ∧ xs = pre ++ x :: post ∧ key x = k ∧
      SplitsAt key k pre post) ∨
    ∃ pre post, search key xs k = .missing pre.length ∧ xs = pre ++ post ∧
      SplitsAt key k pre post := by
  rcases searchLoop_cases hs k (Nat.zero_le _) (Nat.le_refl xs.length) (Nat.le_refl _)
    (fun i _ hi => absurd hi (Nat.not_lt_zero i)) (fun i hi hle => by omega) with
    ⟨m, hm, hres, hkey⟩ | ⟨m, hres, hm, hlow, hhigh⟩
  · have hlen : (xs.take m).length = m := length_take_of_le (Nat.le_of_lt hm)
    refine .inl ⟨xs.take m, xs[m], xs.drop (m + 1), by rw [hlen]; exact hres, ?_, hkey, ?_, ?_⟩
    · rw [← drop_eq_getElem_cons hm, take_append_drop]
    · intro y hy
      obtain ⟨i, hi, rfl⟩ := mem_iff_getElem.1 hy
      rw [hlen] at hi
      rw [getElem_take, ← hkey]
      exact pairwise_iff_getElem.1 hs i m (by omega) hm hi
    · intro y hy
      obtain ⟨i, hi, rfl⟩ := mem_iff_getElem.1 hy
      rw [length_drop] at hi
      rw [getElem_drop, ← hkey]
      exact pairwise_iff_getElem.1 hs m (m + 1 + i) hm (by omega) (by omega)
  · have hlen : (xs.take m).length = m := length_take_of_le hm
    refine .inr ⟨xs.take m, xs.drop m, by rw [hlen]; exact hres,
      (take_append_drop m xs).symm, ?_, ?_⟩
    · intro y hy
      obtain ⟨i, hi, rfl⟩ := mem_iff_getElem.1 hy
      rw [length_take] at hi
      rw [getElem_take]
      exact hlow i (by omega) (by omega)
    · intro y hy
      obtain ⟨i, hi, rfl⟩ := mem_iff_getElem.1 hy
      rw [length_drop] at hi
      rw [getElem_drop]
      exact hhigh (m + i) (by omega) (by omega)

theorem SplitsAt.sortedBy {x : α} (h : SplitsAt key (key x) pre post)
    (hs : SortedBy key (pre ++ post)) : SortedBy key (pre ++ x :: post) := by
  obtain ⟨h1, h2, h3⟩ := pairwise_append.1 hs
  refine pairwise_append.2 ⟨h1, pairwise_cons.2 ⟨h.above, h2⟩, ?_⟩
  intro a ha b hb
  rcases mem_cons.1 hb with rfl | hb
  · exact h.below a ha
  · exact h3 a ha b hb

theorem SplitsAt.lookupBy {x : α} (h : SplitsAt key (key x) pre post) (k : Nat) :
    lookupBy key (pre ++ x :: post) k =
      if key x = k then some x else lookupBy key (pre ++ post) k := by
  unfold Lib.lookupBy
  rw [find?_append, find?_append, find?_cons]
  by_cases hk : key x = k
  · have hnone : pre.find? (key · = k) = none := by
      rw [find?_eq_none]
      intro y hy
      have := h.below y hy
      simp
      omega
    simp [hk, hnone]
  · simp [hk]

theorem SplitsAt.lookupBy_none (h : SplitsAt key k pre post) :
    Lib.lookupBy key (pre ++ post) k = none := by
  unfold Lib.lookupBy
  rw [find?_eq_none]
  intro y hy
  rcases mem_append.1 hy with hy | hy
  · have := h.below y hy
    simp
    omega
  · have := h.above y hy
    simp
    omega

theorem lookupBy_mem {x : α} (h : lookupBy key xs k = some x) : x ∈ xs ∧ key x = k := by
  refine ⟨mem_of_find?_eq_some h, ?_⟩
  have := find?_some h
  simpa using this

theorem SortedBy.lookupBy_of_mem {x : α} (hs : SortedBy key xs) (hx : x ∈ xs) :
    lookupBy key xs (key x) = some x := by
  obtain ⟨pre, post, rfl⟩ := append_of_mem hx
  obtain ⟨-, h2, h3⟩ := pairwise_append.1 hs
  have hsplit : SplitsAt key (key x) pre post :=
    ⟨fun y hy => h3 y hy x mem_cons_self, (pairwise_cons.1 h2).1⟩
  rw [hsplit.lookupBy, if_pos rfl]

theorem SplitsAt.length_eq {pre' post' : List α} (h : SplitsAt key k pre post)
    (h' : SplitsAt key k pre' post') (heq : pre ++ post = pre' ++ post') :
    pre.length = pre'.length := by
  rcases append_eq_append_iff.1 heq with ⟨as, rfl, rfl⟩ | ⟨as, rfl, rfl⟩
  · cases as with
    | nil => simp
    | cons x as =>
      have h1 := h'.below x (by simp)
      have h2 := h.above x (by simp)
      omega
  · cases as with
    | nil => simp
    | cons x as =>
      have h1 := h.below x (by simp)
      have h2 := h'.above x (by simp)
      omega

theorem SplitsAt.search_missing (h : SplitsAt key k pre post) (hs : SortedBy key (pre ++ post)) :
    search key (pre ++ post) k = .missing pre.length := by
  rcases search_cases hs k with ⟨pre', x, post', -, heq, hkey, -⟩ | ⟨pre', post', hres, heq, h'⟩
  · have hmem : x ∈ pre ++ post := by
      rw [heq]
      simp
    have hnone := h.lookupBy_none
    rw [← hkey, hs.lookupBy_of_mem hmem] at hnone
    cases hnone
  · rw [hres, h.length_eq h' heq]

theorem SortedBy.length_le {lo hi : Nat} (hs : SortedBy key xs)
    (hb : ∀ x ∈ xs, lo ≤ key x ∧ key x < hi) : xs.length ≤ hi - lo := by
  induction xs generalizing lo with
  | nil => exact Nat.zero_le _
  | cons x xs ih =>
    obtain ⟨hx, hxs⟩ := pairwise_cons.1 hs
    obtain ⟨h1, h2⟩ := hb x mem_cons_self
    have := ih hxs fun y hy => ⟨hx y hy, (hb y (mem_cons_of_mem x hy)).2⟩
    rw [length_cons]
    omega

theorem search_congr {key' : α → Nat} (h : ∀ x ∈ xs, key x = key' x) (k : Nat) :
    search key xs k = search key' xs k := by
  have hloop : ∀ rounds l h, searchLoop key xs k rounds l h = searchLoop key' xs k rounds l h := by
    intro rounds
    induction rounds with
    | zero => exact fun _ _ => rfl
    | succ rounds ih =>
      intro l h'
      rw [searchLoop, searchLoop]
      cases hm : xs[(l + (h' - 1)) / 2]? with
      | none => simp only [hm]
      | some x => simp only [hm, h x (mem_of_getElem? hm), ih]
  exact hloop _ _ _

end SyslogNg.Lib
