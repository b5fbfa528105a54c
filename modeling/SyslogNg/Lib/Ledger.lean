import Mathlib.Tactic

/-!
# Ledgers of obligations

An account is open as long as somebody owes it something: the holder of a token, or an account that
was opened on its behalf. An account that is not owed anything any more closes, and is then as good
as a token for its parent; a root has no parent, and its end is counted.

The accounts are numbers, and a parent is older than its children. `Sound.done_iff`: the root has
closed if and only if there are no tokens left.
-/

namespace SyslogNg.Lib

open List

/-- `tokens m` are those for account `m`; an open account is there with its parent. -/
structure Ledger where
  tokens : Nat → Nat
  opens : List (Nat × Option Nat)

/-- What an account is owed, by tokens and by children. -/
def Ledger.owed (L : Ledger) (m : Nat) : Nat :=
  L.tokens m + L.opens.countP fun e => e.2 = some m

structure Ledger.Sound (L : Ledger) (done : Nat) : Prop where
  nodup : (L.opens.map Prod.fst).Nodup
  older : ∀ {m o : Nat}, (m, some o) ∈ L.opens → o < m
  owed_pos : ∀ {m : Nat} {p : Option Nat}, (m, p) ∈ L.opens → 0 < L.owed m
  isOpen : ∀ {m : Nat}, 0 < L.owed m → ∃ p, (m, p) ∈ L.opens
  roots : done + (L.opens.countP fun e => e.2 = none) = 1

namespace Ledger

variable {tok tok' : Nat → Nat} {opens : List (Nat × Option Nat)} {done m c : Nat} {p : Option Nat}

/-- The tokens for one account are one more. -/
def Gain (tok tok' : Nat → Nat) (m : Nat) : Prop := ∀ j, tok' j = tok j + if j = m then 1 else 0

theorem Gain.ext {tok1 tok2 : Nat → Nat} (h1 : Gain tok tok1 m) (h2 : Gain tok tok2 m) :
    tok1 = tok2 := by
  funext j
  rw [h1, h2]

theorem Sound.unique (hs : Sound ⟨tok, opens⟩ done) {q : Option Nat} (hp : (m, p) ∈ opens)
    (hq : (m, q) ∈ opens) : p = q :=
  congrArg Prod.snd (inj_on_of_nodup_map hs.nodup hp hq rfl)

theorem Sound.le_one {L : Ledger} (hs : Sound L done) : done ≤ 1 := by
  have := hs.roots
  omega

theorem Sound.no_tokens {L : Ledger} (hs : Sound L done) (hzero : ∀ m, L.tokens m = 0) :
    L.opens = [] := by
  by_contra hne
  obtain ⟨e, he, hmax⟩ :=
    L.opens.toFinset.exists_max_image Prod.fst (toFinset_nonempty_iff _ |>.2 hne)
  rw [mem_toFinset] at he
  have hpos := hs.owed_pos he
  rw [owed, hzero, Nat.zero_add, countP_pos_iff] at hpos
  obtain ⟨⟨k, q⟩, hchild, hq⟩ := hpos
  have hq : q = some e.1 := of_decide_eq_true hq
  subst hq
  have hlt := hs.older hchild
  have hle := hmax _ (mem_toFinset.2 hchild)
  simp only at hle
  omega

theorem Sound.exists_root {L : Ledger} (hs : Sound L done) (hne : L.opens ≠ []) :
    ∃ m, (m, none) ∈ L.opens := by
  obtain ⟨⟨m, p⟩, he, hmin⟩ :=
    L.opens.toFinset.exists_min_image Prod.fst (toFinset_nonempty_iff _ |>.2 hne)
  rw [mem_toFinset] at he
  cases p with
  | none => exact ⟨m, he⟩
  | some o =>
    have hpos : 0 < L.owed o :=
      Nat.add_pos_right _ (countP_pos_iff.2 ⟨(m, some o), he, decide_eq_true rfl⟩)
    obtain ⟨q, hq⟩ := hs.isOpen hpos
    have hlt := hs.older he
    have hle := hmin _ (mem_toFinset.2 hq)
    simp only at hle
    omega

/-- **The root has closed if and only if no tokens are left.** -/
theorem Sound.done_iff {L : Ledger} (hs : Sound L done) : done = 1 ↔ ∀ m, L.tokens m = 0 := by
  have hroots := hs.roots
  constructor
  · intro hdone m
    have hnil : L.opens = [] := by
      by_contra hne
      obtain ⟨r, hr⟩ := hs.exists_root hne
      have : 0 < L.opens.countP fun e => e.2 = none :=
        countP_pos_iff.2 ⟨(r, none), hr, decide_eq_true rfl⟩
      omega
    by_contra hpos
    obtain ⟨p, hp⟩ := hs.isOpen (m := m) (Nat.add_pos_left (by omega) _)
    rw [hnil] at hp
    cases hp
  · intro hzero
    rw [hs.no_tokens hzero] at hroots
    simpa using hroots

theorem Sound.share (hs : Sound ⟨tok, opens⟩ done) (hm : 0 < tok m) (htok : Gain tok tok' m) :
    Sound ⟨tok', opens⟩ done where
  nodup := hs.nodup
  older := hs.older
  owed_pos := by
    intro j p hj
    have := hs.owed_pos hj
    have := htok j
    simp only [owed] at *
    omega
  isOpen := by
    intro j hj
    by_cases hjm : j = m
    · subst hjm
      exact hs.isOpen (Nat.add_pos_left hm _)
    · have := htok j
      rw [if_neg hjm, Nat.add_zero] at this
      refine hs.isOpen ?_
      simp only [owed] at hj ⊢
      omega
  roots := hs.roots

theorem Sound.spend (hs : Sound ⟨tok, opens⟩ done) (htok : Gain tok' tok m)
    (hm : 1 < owed ⟨tok, opens⟩ m) : Sound ⟨tok', opens⟩ done where
  nodup := hs.nodup
  older := hs.older
  owed_pos := by
    intro j p hj
    have hpos := hs.owed_pos hj
    have := htok j
    simp only [owed] at *
    by_cases hjm : j = m
    · subst hjm
      rw [if_pos rfl] at this
      omega
    · rw [if_neg hjm] at this
      omega
  isOpen := by
    intro j hj
    have := htok j
    refine hs.isOpen ?_
    simp only [owed] at hj ⊢
    omega
  roots := hs.roots

theorem owed_cons (e : Nat × Option Nat) (j : Nat) :
    owed ⟨tok, e :: opens⟩ j = owed ⟨tok, opens⟩ j + if e.2 = some j then 1 else 0 := by
  simp only [owed, countP_cons, decide_eq_true_eq]
  omega

theorem owed_erase {e : Nat × Option Nat} (he : e ∈ opens) (j : Nat) :
    owed ⟨tok, opens.erase e⟩ j + (if e.2 = some j then 1 else 0) = owed ⟨tok, opens⟩ j := by
  have hcons := (perm_cons_erase he).countP_eq fun e => e.2 = some j
  rw [countP_cons] at hcons
  simp only [owed, decide_eq_true_eq] at hcons ⊢
  omega

theorem roots_erase {e : Nat × Option Nat} (he : e ∈ opens) :
    (opens.erase e).countP (fun e => e.2 = none) + (if e.2 = none then 1 else 0) =
      opens.countP fun e => e.2 = none := by
  have hcons := (perm_cons_erase he).countP_eq fun e => e.2 = none
  rw [countP_cons] at hcons
  simp only [decide_eq_true_eq] at hcons ⊢
  omega

theorem owed_branch {mid : Nat → Nat} (hspend : Gain mid tok m) (hgain : Gain mid tok' c) (j : Nat) :
    owed ⟨tok', (c, some m) :: opens⟩ j = owed ⟨tok, opens⟩ j + if j = c then 1 else 0 := by
  have h1 := hspend j
  have h2 := hgain j
  rw [owed_cons]
  simp only [owed, Option.some_inj, eq_comm] at *
  omega

theorem Sound.branch (hs : Sound ⟨tok, opens⟩ done) {mid : Nat → Nat} (hspend : Gain mid tok m)
    (hgain : Gain mid tok' c) (hlt : m < c) (hfresh : ∀ p, (c, p) ∉ opens) :
    Sound ⟨tok', (c, some m) :: opens⟩ done := by
  have howed := @owed_branch tok tok' opens m c mid hspend hgain
  refine ⟨?_, ?_, ?_, ?_, ?_⟩
  · refine nodup_cons.2 ⟨fun hc => ?_, hs.nodup⟩
    obtain ⟨⟨k, p⟩, hk, rfl⟩ := mem_map.1 hc
    exact hfresh p hk
  · intro j o hj
    rcases mem_cons.1 hj with heq | hj
    · cases heq
      exact hlt
    · exact hs.older hj
  · intro j p hj
    rw [howed]
    rcases mem_cons.1 hj with heq | hj
    · cases heq
      rw [if_pos rfl]
      omega
    · have := hs.owed_pos hj
      omega
  · intro j hj
    rw [howed] at hj
    by_cases hjc : j = c
    · exact ⟨some m, hjc ▸ mem_cons_self⟩
    · rw [if_neg hjc, Nat.add_zero] at hj
      obtain ⟨p, hp⟩ := hs.isOpen hj
      exact ⟨p, mem_cons_of_mem _ hp⟩
  · have := hs.roots
    rw [countP_cons_of_neg (by simp)]
    exact this

theorem mem_erase_of_ne {j : Nat} {q : Option Nat} (hne : j ≠ m) (hj : (j, q) ∈ opens) :
    (j, q) ∈ opens.erase (m, p) := by
  have hdistinct : (j, q) ≠ (m, p) := fun heq => hne (congrArg Prod.fst heq)
  exact (List.mem_erase_of_ne hdistinct).2 hj

theorem Sound.not_mem_erase (hs : Sound ⟨tok, opens⟩ done) (hm : (m, p) ∈ opens) {j : Nat}
    {q : Option Nat} (hj : (j, q) ∈ opens.erase (m, p)) : j ≠ m := by
  rintro rfl
  obtain rfl := hs.unique hm (mem_of_mem_erase hj)
  have hnodup : opens.Nodup := hs.nodup.of_map _
  exact (hnodup.mem_erase_iff.1 hj).1 rfl

/-- What the end of an account does: its parent gets a token, or the end is counted. -/
def Release (tok tok' : Nat → Nat) (done done' : Nat) : Option Nat → Prop
  | some o => Gain tok tok' o ∧ done' = done
  | none => tok' = tok ∧ done' = done + 1

theorem owed_close (hm : (m, p) ∈ opens) {mid : Nat → Nat} (hspend : Gain mid tok m) {done' : Nat}
    (hp : Release mid tok' done done' p) (j : Nat) :
    owed ⟨tok', opens.erase (m, p)⟩ j + (if j = m then 1 else 0) = owed ⟨tok, opens⟩ j := by
  have h1 := hspend j
  have h2 := @owed_erase tok opens (m, p) hm j
  cases p with
  | none =>
    rw [hp.1]
    simp only [owed, reduceCtorEq, if_false] at *
    omega
  | some o =>
    have h3 := hp.1 j
    simp only [owed, Option.some_inj, eq_comm] at *
    omega

theorem Sound.close (hs : Sound ⟨tok, opens⟩ done) (hm : (m, p) ∈ opens)
    (hone : owed ⟨tok, opens⟩ m = 1) {mid : Nat → Nat} (hspend : Gain mid tok m) {done' : Nat}
    (hp : Release mid tok' done done' p) : Sound ⟨tok', opens.erase (m, p)⟩ done' := by
  have howed := owed_close hm hspend hp
  refine ⟨?_, fun hj => hs.older (mem_of_mem_erase hj), ?_, ?_, ?_⟩
  · exact hs.nodup.sublist (erase_sublist.map _)
  · intro j q hj
    have hne := hs.not_mem_erase hm hj
    have := howed j
    have := hs.owed_pos (mem_of_mem_erase hj)
    rw [if_neg hne] at *
    omega
  · intro j hj
    have hsum := howed j
    by_cases hjm : j = m
    · subst hjm
      rw [if_pos rfl] at hsum
      omega
    · obtain ⟨q, hq⟩ := hs.isOpen (m := j) (by omega)
      exact ⟨q, mem_erase_of_ne hjm hq⟩
  · have hroots := hs.roots
    have herase := roots_erase hm
    cases p with
    | none =>
      simp only [if_true] at herase
      have := hp.2
      simp only at hroots ⊢
      omega
    | some o =>
      simp only [reduceCtorEq, if_false] at herase
      have := hp.2
      simp only at hroots ⊢
      omega

end Ledger

end SyslogNg.Lib
