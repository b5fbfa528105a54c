import SyslogNg.DbParser.TimerWheel

/-!
# Which list a timer must be in

`Due now target head`: the slots that are fired and moved down from `now` on fire an entry of
list `head` at `target`. A new entry is put into such a list unless `Missed now target`, and both
the firing of a slot and the cascade keep the others in such lists.
-/

namespace SyslogNg.DbParser

theorem and_shiftLeft_mask (x bits shift : Nat) :
    x &&& (2 ^ bits - 1) <<< shift = x / 2 ^ shift % 2 ^ bits * 2 ^ shift := by
  rw [← Nat.shiftRight_eq_div_pow, ← Nat.and_two_pow_sub_one_eq_mod, ← Nat.shiftLeft_eq]
  apply Nat.eq_of_testBit_eq
  intro i
  by_cases hi : shift ≤ i
  · simp [Nat.testBit_shiftLeft, Nat.testBit_shiftRight, hi, Bool.and_comm]
  · simp [Nat.testBit_shiftLeft, hi]

namespace TWLevel

theorem slotOf_twLevelNew (bits shift t : Nat) :
    (twLevelNew bits shift).slotOf t = t / 2 ^ shift % 2 ^ bits := by
  have hpos : 0 < 2 ^ shift := by positivity
  simp only [slotOf, twLevelNew, Nat.one_shiftLeft, and_shiftLeft_mask, Nat.shiftRight_eq_div_pow]
  exact Nat.mul_div_cancel _ hpos

theorem levelBase_twLevelNew (bits shift base : Nat) :
    (twLevelNew bits shift).levelBase base = base / 2 ^ shift / 2 ^ bits * 2 ^ bits * 2 ^ shift := by
  have hpos : 0 < 2 ^ shift := by positivity
  have hlow : clearBits base (2 ^ shift - 1) = base / 2 ^ shift * 2 ^ shift := by
    have := Nat.div_add_mod' base (2 ^ shift)
    rw [clearBits, Nat.and_two_pow_sub_one_eq_mod]
    omega
  simp only [levelBase, twLevelNew, Nat.one_shiftLeft]
  rw [hlow, clearBits, and_shiftLeft_mask, Nat.mul_div_cancel _ hpos, ← Nat.sub_mul]
  congr 1
  have := Nat.div_add_mod' (base / 2 ^ shift) (2 ^ bits)
  omega

theorem takes_twLevelNew {bits shift base now target : Nat}
    (h : (twLevelNew bits shift).levelBase base + 2 ^ bits * 2 ^ shift * 2 < 2 ^ 64) :
    (twLevelNew bits shift).takes base now target = true ↔
      target ≤ (twLevelNew bits shift).levelBase base + 2 ^ bits * 2 ^ shift ∨
      target < (twLevelNew bits shift).levelBase base + 2 ^ bits * 2 ^ shift * 2 ∧
        (twLevelNew bits shift).slotOf target < (twLevelNew bits shift).slotOf now := by
  have hpos : 0 < 2 ^ shift := by positivity
  have hspan : (twLevelNew bits shift).num <<< (twLevelNew bits shift).shift =
      2 ^ bits * 2 ^ shift := by simp [twLevelNew, Nat.shiftLeft_eq]
  have hmask : ∀ t, t &&& (twLevelNew bits shift).mask =
      (twLevelNew bits shift).slotOf t * 2 ^ shift := by
    intro t
    rw [slotOf_twLevelNew]
    simp only [twLevelNew, Nat.one_shiftLeft, and_shiftLeft_mask]
  unfold takes
  simp only [hspan, hmask, gt_iff_lt, Nat.mod_eq_of_lt h,
    Nat.mod_eq_of_lt (show (twLevelNew bits shift).levelBase base + 2 ^ bits * 2 ^ shift < 2 ^ 64 by
      omega)]
  split
  · rename_i hover
    rw [Bool.and_eq_true, decide_eq_true_eq, decide_eq_true_eq, Nat.mul_lt_mul_right hpos]
    constructor
    · exact Or.inr
    · rintro (hle | hnext)
      · omega
      · exact hnext
  · rename_i hle
    exact ⟨fun _ => Or.inl (by omega), fun _ => rfl⟩

end TWLevel

/-! ## The four levels -/

/-- The round of a level that time `t` is in; a slot of a level is one round of the level below. -/
def roundOf : Nat → Nat → Nat
  | 0, t => t / 1024
  | k + 1, t => roundOf k t / 64

/-- The round that has been moved into level `k`. The slots of level 1 are moved down at the end
of every round of level 0; the slots of a higher level when the last slot of the level below is
moved down, one round too early. -/
def reached : Nat → Nat → Nat
  | 0, now => now / 1024
  | k + 1, now => (reached k now + 1) / 64

/-- A timer fires at its target if it is in this list at `now`. -/
def Due (now target : Nat) : TWHead → Prop
  | .slot 0 slot => slot = target % 1024 ∧ now ≤ target ∧ target < now + 1024
  | .slot (k + 1) slot => k < 3 ∧ slot = roundOf k target % 64 ∧
      reached k now + 1 ≤ roundOf k target ∧ roundOf k target ≤ reached k now + 64
  | .future => reached 3 now + 1 ≤ roundOf 3 target

/-- The target lies in the next round of level `k + 1`, which has been moved into that level, and
a level below does not take it. -/
def MissedBy (now target k : Nat) : Prop :=
  reached (k + 1) now ≠ roundOf (k + 1) now ∧
    roundOf (k + 1) target = roundOf (k + 1) now + 1 ∧ roundOf k now + 64 ≤ roundOf k target

/-- The targets that the boundary tests put where the time does not find them: one whole round of
level 0 ahead, a target goes to the slot that is due now; in a round that has been moved into its
level, it goes above that level. -/
def Missed (now target : Nat) : Prop :=
  now % 1024 = 0 ∧ target = now + 1024 ∨ ∃ k < 3, MissedBy now target k

instance (now target : Nat) : Decidable (Missed now target) := by
  unfold Missed MissedBy
  infer_instance

theorem roundOf_eq (k t : Nat) : roundOf k t = t / 2 ^ (10 + 6 * k) := by
  induction k with
  | zero => rfl
  | succ k ih =>
    rw [roundOf, ih, Nat.div_div_eq_div_mul, show 10 + 6 * (k + 1) = 10 + 6 * k + 6 from rfl,
      pow_add 2 _ 6]
    rfl

theorem twLevel_succ {k : Nat} (hk : k < 3) : twLevel (k + 1) = twLevelNew 6 (10 + 6 * k) := by
  interval_cases k <;> rfl

theorem slotOf_level0 (t : Nat) : (twLevel 0).slotOf t = t % 1024 := by
  rw [show twLevel 0 = twLevelNew 10 0 from rfl, TWLevel.slotOf_twLevelNew, pow_zero, Nat.div_one]
  rfl

theorem slotOf_level_succ {k : Nat} (hk : k < 3) (t : Nat) :
    (twLevel (k + 1)).slotOf t = roundOf k t % 64 := by
  rw [twLevel_succ hk, TWLevel.slotOf_twLevelNew, ← roundOf_eq]
  rfl

section

variable {now target : Nat}

theorem takes_level0 (hnow : now < 2 ^ 62) :
    (twLevel 0).takes (now / 1024 * 1024) now target = true ↔ target ≤ now / 1024 * 1024 + 1024 ∨
      target < now / 1024 * 1024 + 2048 ∧ target % 1024 < now % 1024 := by
  have h := @TWLevel.takes_twLevelNew 10 0 (now / 1024 * 1024) now target
  rw [TWLevel.levelBase_twLevelNew] at h
  refine (h (by omega)).trans ?_
  rw [← show twLevel 0 = twLevelNew 10 0 from rfl, slotOf_level0, slotOf_level0]
  omega

theorem le_round_iff {span round t : Nat} (hspan : 0 < span) :
    t ≤ round * span + span ↔ t / span ≤ round ∨ t / span = round + 1 ∧ t % span = 0 := by
  have h : t / span ≤ round ↔ t < round * span + span := by
    rw [← Nat.lt_succ_iff, Nat.div_lt_iff_lt_mul hspan, Nat.succ_mul]
  have heq : t / span = round + 1 ∧ t % span = 0 ↔ t = round * span + span := by
    rw [← Nat.succ_mul]
    constructor
    · rintro ⟨hd, hm⟩
      rw [← Nat.div_add_mod' t span, hd, hm, Nat.add_zero]
    · rintro rfl
      exact ⟨Nat.mul_div_cancel _ hspan, Nat.mul_mod_left _ _⟩
  rw [h, heq]
  exact Nat.le_iff_lt_or_eq

theorem lt_next_round_iff {span round t : Nat} (hspan : 0 < span) :
    t < round * span + span * 2 ↔ t / span ≤ round + 1 := by
  rw [← Nat.lt_succ_iff, Nat.div_lt_iff_lt_mul hspan, Nat.succ_mul, Nat.succ_mul]
  omega

variable {k : Nat}

theorem levelBase_level_succ (hk : k < 3) (now : Nat) :
    (twLevel (k + 1)).levelBase (now / 1024 * 1024) = roundOf (k + 1) now * 2 ^ (10 + 6 * (k + 1)) := by
  rw [twLevel_succ hk, TWLevel.levelBase_twLevelNew, roundOf_eq]
  interval_cases k <;> omega

/-- Above level 0 a level takes the targets of its round, the first second of the next round, and
those of the next round in slots that have passed. -/
theorem takes_level_succ (hk : k < 3) (hnow : now < 2 ^ 62) :
    (twLevel (k + 1)).takes (now / 1024 * 1024) now target = true ↔
      (roundOf (k + 1) target ≤ roundOf (k + 1) now ∨ roundOf (k + 1) target = roundOf (k + 1) now + 1 ∧
          target % 2 ^ (10 + 6 * (k + 1)) = 0) ∨ roundOf (k + 1) target ≤ roundOf (k + 1) now + 1 ∧
        roundOf k target % 64 < roundOf k now % 64 := by
  have hbase := levelBase_level_succ hk now
  have hspan : 2 ^ 6 * 2 ^ (10 + 6 * k) = 2 ^ (10 + 6 * (k + 1)) := by
    rw [← pow_add]
    congr 1
    omega
  have hpos : 0 < 2 ^ (10 + 6 * (k + 1)) := by positivity
  have hle : 2 ^ (10 + 6 * (k + 1)) ≤ 2 ^ 28 := Nat.pow_le_pow_right (by decide) (by omega)
  have hround := Nat.div_mul_le_self now (2 ^ (10 + 6 * (k + 1)))
  have h := @TWLevel.takes_twLevelNew 6 (10 + 6 * k) (now / 1024 * 1024) now target
  rw [← twLevel_succ hk, hbase, hspan] at h
  rw [← slotOf_level_succ hk, ← slotOf_level_succ hk, roundOf_eq (k + 1) target,
    ← le_round_iff hpos, ← lt_next_round_iff hpos]
  refine h ?_
  rw [roundOf_eq]
  omega

theorem first_slot (h : target % 2 ^ (10 + 6 * (k + 1)) = 0) : roundOf k target % 64 = 0 := by
  rw [roundOf_eq, ← Nat.mod_mul_right_div_self,
    show 2 ^ (10 + 6 * k) * 64 = 2 ^ (10 + 6 * (k + 1)) from (pow_add 2 (10 + 6 * k) 6).symm, h,
    Nat.zero_div]

theorem reached_le (k now : Nat) : roundOf k now ≤ reached k now ∧ reached k now ≤ roundOf k now + 1 := by
  induction k with
  | zero => exact ⟨le_refl _, Nat.le_succ _⟩
  | succ k ih =>
    simp only [roundOf, reached]
    omega

theorem not_takes_level_succ (hk : k < 3) (hnow : now < 2 ^ 62)
    (h : (twLevel (k + 1)).takes (now / 1024 * 1024) now target = false) :
    roundOf (k + 1) now + 1 ≤ roundOf (k + 1) target ∧ roundOf k now + 64 ≤ roundOf k target := by
  have hnot := mt (takes_level_succ hk hnow).2 (Bool.eq_false_iff.1 h)
  simp only [roundOf] at hnot ⊢
  omega

theorem takes_level_succ_le (hk : k < 3) (hnow : now < 2 ^ 62)
    (h : (twLevel (k + 1)).takes (now / 1024 * 1024) now target = true) :
    roundOf k target < roundOf k now + 64 ∨ roundOf k now % 64 = 0 ∧ roundOf k target = roundOf k now + 64 := by
  rcases (takes_level_succ hk hnow).1 h with (hle | ⟨heq, hfirst⟩) | ⟨hle, hslot⟩
  · simp only [roundOf] at hle
    omega
  · have := first_slot hfirst
    simp only [roundOf] at heq
    omega
  · simp only [roundOf] at hle
    omega

theorem roundOf_le_succ {j : Nat} (hjk : j ≤ k) (h : roundOf j target ≤ roundOf j now + 1) :
    roundOf k target ≤ roundOf k now + 1 := by
  induction hjk with
  | refl => exact h
  | step _ ih =>
    simp only [roundOf]
    omega

theorem not_missedBy_of_le {j : Nat} (hkj : k ≤ j) (hle : roundOf k target < roundOf k now + 64 ∨
      roundOf k now % 64 = 0 ∧ roundOf k target = roundOf k now + 64) : ¬ MissedBy now target j := by
  rintro ⟨hreached, -, hfar⟩
  obtain ⟨hlo, hhi⟩ := reached_le k now
  rcases Nat.eq_or_lt_of_le hkj with rfl | hlt
  · apply hreached
    simp only [reached, roundOf]
    omega
  · have hnext : roundOf (k + 1) target ≤ roundOf (k + 1) now + 1 := by
      simp only [roundOf]
      omega
    have := roundOf_le_succ hlt hnext
    omega

theorem not_missedBy_of_lt {j : Nat} (hjk : j < k) (hfar : roundOf k now + 64 ≤ roundOf k target) :
    ¬ MissedBy now target j := by
  rintro ⟨-, hnext, -⟩
  have := roundOf_le_succ hjk hnext.le
  omega

/-! ## Where a new entry goes -/

theorem due_level0 (hnow : now < 2 ^ 62) (htarget : now < target)
    (h : (twLevel 0).takes (now / 1024 * 1024) now target = true) :
    Due now target (.slot 0 ((twLevel 0).slotOf target)) ↔ ¬ Missed now target := by
  have ht := (takes_level0 hnow).1 h
  have hle : roundOf 0 target < roundOf 0 now + 64 := by
    simp only [roundOf]
    omega
  have hup : ¬ ∃ k < 3, MissedBy now target k :=
    fun ⟨k, _, hm⟩ => not_missedBy_of_le (Nat.zero_le k) (.inl hle) hm
  simp only [Due, Missed, slotOf_level0, true_and, hup, or_false]
  omega

theorem not_takes_level0 (hnow : now < 2 ^ 62)
    (h : (twLevel 0).takes (now / 1024 * 1024) now target = false) :
    roundOf 0 now + 1 ≤ roundOf 0 target ∧ ¬ (now % 1024 = 0 ∧ target = now + 1024) := by
  have ht := mt (takes_level0 hnow).2 (Bool.eq_false_iff.1 h)
  simp only [roundOf]
  omega

theorem due_level1 (hnow : now < 2 ^ 62) (h0 : (twLevel 0).takes (now / 1024 * 1024) now target = false)
    (h : (twLevel 1).takes (now / 1024 * 1024) now target = true) :
    Due now target (.slot 1 ((twLevel 1).slotOf target)) ↔ ¬ Missed now target := by
  obtain ⟨hge, hnot⟩ := not_takes_level0 hnow h0
  have hle := takes_level_succ_le (by decide : 0 < 3) hnow h
  have hle64 : roundOf 0 target ≤ roundOf 0 now + 64 := by omega
  refine iff_of_true ⟨by decide, slotOf_level_succ (by decide) target, hge, hle64⟩ ?_
  · rintro (hm | ⟨k, -, hm⟩)
    · exact hnot hm
    · exact not_missedBy_of_le (Nat.zero_le k) hle hm

theorem due_above (hge : roundOf (k + 1) now + 1 ≤ roundOf (k + 1) target)
    (hfar : roundOf k now + 64 ≤ roundOf k target) :
    reached (k + 1) now + 1 ≤ roundOf (k + 1) target ↔ ¬ MissedBy now target k := by
  have hr := reached_le (k + 1) now
  unfold MissedBy
  omega

theorem due_level_succ (hk : k + 1 < 3) (hnow : now < 2 ^ 62)
    (h0 : (twLevel 0).takes (now / 1024 * 1024) now target = false)
    (h1 : (twLevel (k + 1)).takes (now / 1024 * 1024) now target = false)
    (h : (twLevel (k + 2)).takes (now / 1024 * 1024) now target = true) :
    Due now target (.slot (k + 2) ((twLevel (k + 2)).slotOf target)) ↔ ¬ Missed now target := by
  obtain ⟨-, hnot⟩ := not_takes_level0 hnow h0
  obtain ⟨hge, hfar⟩ := not_takes_level_succ (by omega) hnow h1
  have hle := takes_level_succ_le hk hnow h
  have hr := reached_le (k + 1) now
  have hother : ∀ j < 3, MissedBy now target j → j = k := by
    intro j _ hm
    rcases lt_trichotomy j k with hj | hj | hj
    · exact absurd hm (not_missedBy_of_lt hj hfar)
    · exact hj
    · exact absurd hm (not_missedBy_of_le hj hle)
  have hmissed : Missed now target ↔ MissedBy now target k := by
    constructor
    · rintro (hm | ⟨j, hj, hm⟩)
      · exact absurd hm hnot
      · exact hother j hj hm ▸ hm
    · exact fun hm => .inr ⟨k, by omega, hm⟩
  rw [hmissed, ← due_above hge hfar]
  simp only [Due, slotOf_level_succ hk, hk, true_and, and_iff_left_iff_imp]
  omega

theorem due_future (hnow : now < 2 ^ 62) (h0 : (twLevel 0).takes (now / 1024 * 1024) now target = false)
    (h3 : (twLevel 3).takes (now / 1024 * 1024) now target = false) :
    Due now target .future ↔ ¬ Missed now target := by
  obtain ⟨-, hnot⟩ := not_takes_level0 hnow h0
  obtain ⟨hge, hfar⟩ := not_takes_level_succ (by decide : 2 < 3) hnow h3
  have hmissed : Missed now target ↔ MissedBy now target 2 := by
    constructor
    · rintro (hm | ⟨j, hj, hm⟩)
      · exact absurd hm hnot
      · rcases Nat.lt_or_ge j 2 with hlt | hge2
        · exact absurd hm (not_missedBy_of_lt hlt hfar)
        · rwa [show j = 2 by omega] at hm
    · exact fun hm => .inr ⟨2, by decide, hm⟩
  rw [hmissed, ← due_above hge hfar]
  rfl

end

theorem find?_range_four (p : Nat → Bool) : (List.range 4).find? p =
    if p 0 then some 0 else if p 1 then some 1 else if p 2 then some 2 else
      if p 3 then some 3 else none := by
  rw [show List.range 4 = [0, 1, 2, 3] from rfl]
  simp only [List.find?_cons, List.find?_nil]
  cases p 0 <;> cases p 1 <;> cases p 2 <;> cases p 3 <;> rfl

theorem TimerWheel.headFor_due {self : TimerWheel} {target : Nat}
    (hbase : self.base = self.now / 1024 * 1024) (hnow : self.now < 2 ^ 62) (htarget : self.now < target) :
    Due self.now target (self.headFor target) ↔ ¬ Missed self.now target := by
  unfold headFor
  rw [find?_range_four, hbase]
  split_ifs with h0 h1 h2 h3
  · exact due_level0 hnow htarget h0
  · exact due_level1 hnow (Bool.eq_false_iff.2 h0) h1
  · exact due_level_succ (by decide) hnow (Bool.eq_false_iff.2 h0) (Bool.eq_false_iff.2 h1) h2
  · exact due_level_succ (by decide) hnow (Bool.eq_false_iff.2 h0) (Bool.eq_false_iff.2 h2) h3
  · exact due_future hnow (Bool.eq_false_iff.2 h0) (Bool.eq_false_iff.2 h3)

end SyslogNg.DbParser
