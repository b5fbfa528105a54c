import SyslogNg.DbParser.TimerWheelDue

/-!
# Moving entries between lists

An entry is in one list only (`Uniq`). At the end of a round of level 0, `timer_wheel_cascade`
moves entries down so that every entry is in a list that is due for it in the next second.
-/

namespace SyslogNg.DbParser

open List Function

namespace TimerWheel

/-- The entries of different lists, and the entries of one list, are those of different timers. -/
structure Uniq (s : TimerWheel) : Prop where
  one : ∀ head, ((s.list head).map TWEntry.timer).Nodup
  apart : ∀ {head head' e e'}, e ∈ s.list head → e' ∈ s.list head' →
    e.timer = e'.timer → head = head'

variable {self : TimerWheel} {head : TWHead} {entry : TWEntry} {entries : List TWEntry}

theorem setList_self : (self.setList head entries).list head = entries := update_self ..

variable {head' : TWHead}

theorem setList_of_ne (h : head' ≠ head) : (self.setList head entries).list head' = self.list head' :=
  update_of_ne h ..

theorem mem_setList {e : TWEntry} :
    e ∈ (self.setList head entries).list head' ↔
    head' = head ∧ e ∈ entries ∨ head' ≠ head ∧ e ∈ self.list head' := by
  by_cases h : head' = head
  · subst h
    simp [setList_self]
  · simp [setList_of_ne h, h]

theorem mem_prepend {e : TWEntry} :
    e ∈ (self.prepend head entry).list head' ↔ e ∈ self.list head' ∨ e = entry ∧ head' = head := by
  unfold prepend
  by_cases h : head' = head
  · subst h
    rw [setList_self, mem_cons]
    simp only [and_true]
    exact Or.comm
  · rw [setList_of_ne h]
    simp only [h, and_false, or_false]

theorem Uniq.prepend (h : self.Uniq)
    (hnew : ∀ head', ∀ e ∈ self.list head', e.timer ≠ entry.timer) :
    (self.prepend head entry).Uniq where
  one := by
    intro head'
    by_cases heq : head' = head
    · subst heq
      unfold TimerWheel.prepend
      rw [setList_self, map_cons, nodup_cons]
      refine ⟨?_, h.one head'⟩
      intro hmem
      obtain ⟨e, he, ht⟩ := mem_map.1 hmem
      exact hnew head' e he ht
    · unfold TimerWheel.prepend
      rw [setList_of_ne heq]
      exact h.one head'
  apart := by
    intro head1 head2 e1 e2 h1 h2 ht
    rcases mem_prepend.1 h1 with m1 | ⟨rfl, rfl⟩
    · rcases mem_prepend.1 h2 with m2 | ⟨rfl, rfl⟩
      · exact h.apart m1 m2 ht
      · exact absurd ht (hnew _ _ m1)
    · rcases mem_prepend.1 h2 with m2 | ⟨-, rfl⟩
      · exact absurd ht.symm (hnew _ _ m2)
      · rfl

theorem Uniq.setList (h : self.Uniq) (hsub : entries.Sublist (self.list head)) :
    (self.setList head entries).Uniq where
  one := by
    intro head'
    by_cases heq : head' = head
    · subst heq
      rw [setList_self]
      exact (h.one head').sublist (hsub.map _)
    · rw [setList_of_ne heq]
      exact h.one head'
  apart := by
    have hold : ∀ {head' e}, e ∈ (self.setList head entries).list head' → e ∈ self.list head' := by
      intro head' e he
      rcases mem_setList.1 he with ⟨rfl, hin⟩ | ⟨-, hin⟩
      · exact hsub.subset hin
      · exact hin
    intro head1 head2 e1 e2 h1 h2
    exact h.apart (hold h1) (hold h2)

/-! ## Moving down -/

variable {k now : Nat}

theorem mem_moveTo {e : TWEntry} {head : TWHead} :
    e ∈ (self.moveTo k entries).list head ↔
      e ∈ self.list head ∨ e ∈ entries ∧ head = .slot k ((twLevel k).slotOf e.target) := by
  induction entries generalizing self with
  | nil => simp [moveTo]
  | cons a entries ih =>
    rw [moveTo, ih, mem_prepend, or_assoc, mem_cons, or_and_right]
    refine or_congr_right (or_congr_left ?_)
    constructor
    · rintro ⟨rfl, h⟩
      exact ⟨rfl, h⟩
    · rintro ⟨rfl, h⟩
      exact ⟨rfl, h⟩

theorem Uniq.moveTo (h : self.Uniq) (hnodup : (entries.map TWEntry.timer).Nodup)
    (hnew : ∀ a ∈ entries, ∀ head, ∀ e ∈ self.list head, e.timer ≠ a.timer) :
    (self.moveTo k entries).Uniq := by
  induction entries generalizing self with
  | nil => exact h
  | cons a entries ih =>
    rw [map_cons, nodup_cons] at hnodup
    apply ih (h.prepend (hnew a mem_cons_self)) hnodup.2
    intro b hb head e he
    rcases mem_prepend.1 he with he | ⟨rfl, -⟩
    · exact hnew b (mem_cons_of_mem _ hb) head e he
    · intro ht
      exact hnodup.1 (ht ▸ mem_map_of_mem hb)

theorem prepend_setList_comm (hne : head ≠ head') :
    (self.prepend head' entry).setList head entries = (self.setList head entries).prepend head' entry := by
  unfold TimerWheel.prepend TimerWheel.setList
  simp only [update_of_ne hne.symm, update_comm hne]

theorem moveTo_setList_comm {moved : List TWEntry} (hne : ∀ slot, head ≠ .slot k slot) :
    (self.moveTo k moved).setList head entries = (self.setList head entries).moveTo k moved := by
  induction moved generalizing self with
  | nil => rfl
  | cons a moved ih => rw [moveTo, moveTo, ih, prepend_setList_comm (hne _)]

theorem moveTo_now (k : Nat) :
    (self.moveTo k entries).now = self.now ∧ (self.moveTo k entries).base = self.base ∧
    (self.moveTo k entries).numTimers = self.numTimers := by
  induction entries generalizing self with
  | nil => exact ⟨rfl, rfl, rfl⟩
  | cons a entries ih =>
    rw [moveTo]
    exact ih

/-- The entries are the same, each still in one list, and nothing but the lists differs. -/
structure Moved (s t : TimerWheel) : Prop where
  uniq : t.Uniq
  entries : ∀ e, (∃ head, e ∈ t.list head) ↔ ∃ head, e ∈ s.list head
  now : t.now = s.now
  base : t.base = s.base
  numTimers : t.numTimers = s.numTimers

theorem Moved.trans {s t u : TimerWheel} (h1 : Moved s t) (h2 : Moved t u) : Moved s u :=
  ⟨h2.uniq, fun e => (h2.entries e).trans (h1.entries e), h2.now.trans h1.now,
    h2.base.trans h1.base, h2.numTimers.trans h1.numTimers⟩

theorem Moved.moveOut {kept moved : List TWEntry} (h : self.Uniq) (hkept : kept.Sublist (self.list head))
    (hmoved : moved.Sublist (self.list head)) (hsplit : ∀ e, e ∈ self.list head ↔ e ∈ kept ∨ e ∈ moved)
    (hdisj : ∀ e ∈ kept, ∀ a ∈ moved, e.timer ≠ a.timer) :
    Moved self ((self.setList head kept).moveTo k moved) := by
  obtain ⟨hnow, hbase, hnum⟩ := @moveTo_now (self.setList head kept) moved k
  refine ⟨(h.setList hkept).moveTo ((h.one head).sublist (hmoved.map _)) ?_, ?_, hnow, hbase, hnum⟩
  · intro a ha head' e he
    rcases mem_setList.1 he with ⟨-, he⟩ | ⟨hne, he⟩
    · exact hdisj e he a ha
    · exact fun ht => hne (h.apart he (hmoved.subset ha) ht)
  · intro e
    constructor
    · rintro ⟨head', he⟩
      rcases mem_moveTo.1 he with he | ⟨he, -⟩
      · rcases mem_setList.1 he with ⟨-, he⟩ | ⟨-, he⟩
        · exact ⟨head, hkept.subset he⟩
        · exact ⟨head', he⟩
      · exact ⟨head, hmoved.subset he⟩
    · rintro ⟨head', he⟩
      by_cases heq : head' = head
      · subst heq
        rcases (hsplit e).1 he with hk | hm
        · exact ⟨head', mem_moveTo.2 (.inl (mem_setList.2 (.inl ⟨rfl, hk⟩)))⟩
        · exact ⟨_, mem_moveTo.2 (.inr ⟨hm, rfl⟩)⟩
      · exact ⟨head', mem_moveTo.2 (.inl (mem_setList.2 (.inr ⟨heq, he⟩)))⟩

/-! ## The cascade -/

/-- Every entry is in a list that is due for it. -/
def AllDue (now : Nat) (s : TimerWheel) : Prop :=
  ∀ head, ∀ e ∈ s.list head, Due now e.target head

/-- The lists up to level `k` are due for the next second, those above it still for this one. -/
structure Cascading (now k : Nat) (s : TimerWheel) : Prop where
  below : ∀ j ≤ k, ∀ slot, ∀ e ∈ s.list (.slot j slot), Due (now + 1) e.target (.slot j slot)
  above : ∀ j > k, ∀ slot, ∀ e ∈ s.list (.slot j slot), Due now e.target (.slot j slot)
  future : ∀ e ∈ s.list .future, Due now e.target .future

/-- At the end of this second a new round is moved into level `k`. -/
structure NewRound (now k : Nat) : Prop where
  this : reached k now = roundOf k now
  next : reached k (now + 1) = roundOf k now + 1
  second : k = 0 → (now + 1) % 1024 = 0
  slot : ∀ j, k = j + 1 → (reached j (now + 1) + 1) % 64 = 0

theorem NewRound.zero {now : Nat} (h : now % 1024 = 1023) : NewRound now 0 where
  this := rfl
  next := by
    simp only [reached, roundOf]
    omega
  second := by omega
  slot := by omega

theorem NewRound.succ (h : NewRound now k) (hlast : (roundOf k now + 1) % 64 = 63) :
    NewRound now (k + 1) := by
  have hthis := h.this
  have hnext := h.next
  refine ⟨?_, ?_, by omega, ?_⟩
  · simp only [reached, roundOf]
    omega
  · simp only [reached, roundOf]
    omega
  · intro j hj
    obtain rfl : k = j := by omega
    omega

theorem reached_eq_of_le (h : reached k (now + 1) = reached k now) {j : Nat} (hj : k ≤ j) :
    reached j (now + 1) = reached j now := by
  induction hj with
  | refl => exact h
  | step _ ih => simp only [reached, ih]

theorem NewRound.stays (h : NewRound now k) (hlast : (roundOf k now + 1) % 64 ≠ 63) {j : Nat} (hj : k < j) :
    reached j (now + 1) = reached j now := by
  refine reached_eq_of_le ?_ hj
  have hthis := h.this
  have hnext := h.next
  simp only [reached]
  omega

theorem NewRound.due {target : Nat} (h : NewRound now k) (hk : k ≤ 3)
    (ht : roundOf k target = reached k (now + 1)) :
    Due (now + 1) target (.slot k ((twLevel k).slotOf target)) := by
  cases k with
  | zero =>
    have hsecond := h.second rfl
    simp only [roundOf, reached] at ht
    refine ⟨slotOf_level0 target, ?_, ?_⟩ <;> omega
  | succ j =>
    have hslot := h.slot j rfl
    simp only [roundOf, reached] at ht
    refine ⟨hk, slotOf_level_succ hk target, ?_, ?_⟩ <;> omega

theorem sourceSlot_succ (hk : k < 3) : self.sourceSlot (k + 1) = (roundOf k self.now + 1) % 64 := by
  have hnum : (twLevel (k + 1)).num = 64 := by rw [twLevel_succ hk]; rfl
  unfold sourceSlot
  simp only [slotOf_level_succ hk, hnum]
  split <;> omega

theorem cascadeSlot_spec (hk : k < 3) (hround : NewRound self.now k) (huniq : self.Uniq)
    (h : Cascading self.now k self) :
    Cascading self.now (k + 1) (self.cascadeSlot (k + 1)) ∧ Moved self (self.cascadeSlot (k + 1)) := by
  have hthis := hround.this
  have hnext := hround.next
  have heq : self.cascadeSlot (k + 1) =
      (self.setList (.slot (k + 1) (self.sourceSlot (k + 1))) []).moveTo k
        (self.list (.slot (k + 1) (self.sourceSlot (k + 1)))) :=
    moveTo_setList_comm (by simp)
  rw [heq, sourceSlot_succ hk]
  -- in the slot that is emptied, the targets of the new round
  have hsource : ∀ e ∈ self.list (.slot (k + 1) ((roundOf k self.now + 1) % 64)),
      roundOf k e.target = reached k (self.now + 1) := by
    intro e he
    obtain ⟨-, hslot, hlo, hhi⟩ := h.above (k + 1) (Nat.lt_succ_self k) _ e he
    omega
  -- in the other slots of the level, later ones
  have hother : ∀ slot ≠ (roundOf k self.now + 1) % 64, ∀ e ∈ self.list (.slot (k + 1) slot),
      Due (self.now + 1) e.target (.slot (k + 1) slot) := by
    intro slot hne e he
    obtain ⟨hk3, hslot, hlo, hhi⟩ := h.above (k + 1) (Nat.lt_succ_self k) _ e he
    have hne' : roundOf k e.target ≠ roundOf k self.now + 1 := by
      intro heq
      rw [heq] at hslot
      exact hne hslot
    exact ⟨hk3, hslot, by omega, by omega⟩
  refine ⟨⟨?_, ?_, ?_⟩, .moveOut huniq (nil_sublist _) (List.Sublist.refl _) (by simp) (by simp)⟩
  · intro j hj slot e he
    rcases mem_moveTo.1 he with he | ⟨he, heq⟩
    · rcases mem_setList.1 he with ⟨-, he⟩ | ⟨hne, he⟩
      · exact absurd he not_mem_nil
      · rcases Nat.lt_or_ge k j with hlt | hle
        · obtain rfl : j = k + 1 := by omega
          exact hother slot (fun heq => hne (heq ▸ rfl)) e he
        · exact h.below j hle slot e he
    · rw [heq]
      exact hround.due hk.le (hsource e he)
  · intro j hj slot e he
    rcases mem_moveTo.1 he with he | ⟨-, heq⟩
    · rcases mem_setList.1 he with ⟨-, he⟩ | ⟨-, he⟩
      · exact absurd he not_mem_nil
      · exact h.above j (by omega) slot e he
    · cases heq
      omega
  · intro e he
    rcases mem_moveTo.1 he with he | ⟨-, heq⟩
    · rcases mem_setList.1 he with ⟨-, he⟩ | ⟨-, he⟩
      · exact absurd he not_mem_nil
      · exact h.future e he
    · cases heq

theorem Cascading.done {s : TimerWheel} (h : Cascading now k s) (hk : k ≤ 3)
    (hstays : ∀ j ≥ k, reached j (now + 1) = reached j now) : AllDue (now + 1) s := by
  intro head e he
  cases head with
  | slot j slot =>
    rcases Nat.lt_or_ge k j with hlt | hle
    · have hdue := h.above j hlt slot e he
      obtain ⟨i, rfl⟩ : ∃ i, j = i + 1 := ⟨j - 1, by omega⟩
      simp only [Due, hstays i (by omega)] at hdue ⊢
      exact hdue
    · exact h.below j hle slot e he
  | future =>
    have hdue := h.future e he
    simp only [Due, hstays 3 hk] at hdue ⊢
    exact hdue

theorem futureInReach_iff (hbase : self.base = self.now / 1024 * 1024) (hnow : self.now < 2 ^ 62) :
    self.futureInReach entry = true ↔ roundOf 3 entry.target ≤ roundOf 3 self.now + 1 := by
  have hround := roundOf_eq 3 self.now
  have hlevel := levelBase_level_succ (by decide : 2 < 3) self.now
  have hspan : (twLevel 3).num <<< (twLevel 3).shift = 2 ^ 28 := rfl
  have hdiv := Nat.div_mul_le_self self.now (2 ^ 28)
  unfold futureInReach
  simp only [hbase, hlevel, hspan]
  rw [decide_eq_true_eq, Nat.mod_eq_of_lt (by rw [hround]; omega), Nat.mul_comm 2,
    show 10 + 6 * (2 + 1) = 28 from rfl, lt_next_round_iff (by decide), roundOf_eq 3 entry.target]

theorem cascadeFuture_spec (hbase : self.base = self.now / 1024 * 1024) (hnow : self.now < 2 ^ 62)
    (hround : NewRound self.now 3) (huniq : self.Uniq) (h : Cascading self.now 3 self) :
    AllDue (self.now + 1) self.cascadeFuture ∧ Moved self self.cascadeFuture := by
  have hthis := hround.this
  have hnext := hround.next
  constructor
  · intro head e he
    rcases mem_moveTo.1 he with he | ⟨hmem, rfl⟩
    · rcases mem_setList.1 he with ⟨rfl, hmem⟩ | ⟨hne, he⟩
      · obtain ⟨hin, hfar⟩ := mem_filter.1 hmem
        rw [Bool.not_eq_true', ← Bool.not_eq_true, futureInReach_iff hbase hnow] at hfar
        show reached 3 (self.now + 1) + 1 ≤ roundOf 3 e.target
        omega
      · cases head with
        | slot j slot =>
          rcases Nat.lt_or_ge 3 j with hlt | hle
          · -- there is no such level
            obtain ⟨i, rfl⟩ : ∃ i, j = i + 1 := ⟨j - 1, by omega⟩
            have := (h.above (i + 1) hlt slot e he).1
            omega
          · exact h.below j hle slot e he
        | future => exact absurd rfl hne
    · obtain ⟨hin, hnear⟩ := mem_filter.1 hmem
      rw [futureInReach_iff hbase hnow] at hnear
      have hdue : reached 3 self.now + 1 ≤ roundOf 3 e.target := h.future e hin
      exact hround.due le_rfl (by omega)
  · refine .moveOut huniq filter_sublist filter_sublist ?_ ?_
    · intro e
      rw [mem_filter, mem_filter]
      cases self.futureInReach e <;> simp
    · intro e he a ha ht
      obtain ⟨hin, hfar⟩ := mem_filter.1 he
      obtain ⟨hin', hnear⟩ := mem_filter.1 ha
      have heq : e = a := inj_on_of_nodup_map (huniq.one .future) hin hin' ht
      rw [heq, hnear] at hfar
      cases hfar

theorem cascadeLevels_spec (n : Nat) (hk : n + k = 3) (hbase : self.base = self.now / 1024 * 1024)
    (hnow : self.now < 2 ^ 62) (hround : NewRound self.now k) (huniq : self.Uniq)
    (h : Cascading self.now k self) :
    AllDue (self.now + 1) (self.cascadeLevels (List.range' (k + 1) n)) ∧
      Moved self (self.cascadeLevels (List.range' (k + 1) n)) := by
  induction n generalizing self k with
  | zero =>
    obtain rfl : k = 3 := by omega
    exact cascadeFuture_spec hbase hnow hround huniq h
  | succ n ih =>
    have hk3 : k < 3 := by omega
    obtain ⟨hc, hm⟩ := cascadeSlot_spec hk3 hround huniq h
    have hnum : (twLevel (k + 1)).num = 64 := by rw [twLevel_succ hk3]; rfl
    rw [range'_succ, cascadeLevels, sourceSlot_succ hk3, hnum]
    by_cases hlast : (roundOf k self.now + 1) % 64 < 64 - 1
    · rw [if_pos hlast]
      exact ⟨hc.done (by omega) fun j hj => hround.stays (by omega) hj, hm⟩
    · rw [if_neg hlast]
      have hnow' := hm.now
      have hbase' := hm.base
      rw [← hnow'] at hc hbase hnow hround ⊢
      rw [← hbase'] at hbase
      have hlast' : (roundOf k (self.cascadeSlot (k + 1)).now + 1) % 64 = 63 := by
        rw [hnow']
        omega
      obtain ⟨hdue, hmoved⟩ := ih (by omega) hbase hnow (hround.succ hlast') hm.uniq hc
      exact ⟨hdue, hm.trans hmoved⟩

/-- After the last second of a round of level 0, the cascade brings every entry to a list that is
due for it in the next second. -/
theorem cascade_spec (hbase : self.base = self.now / 1024 * 1024) (hnow : self.now < 2 ^ 62)
    (hlast : self.now % 1024 = 1023) (huniq : self.Uniq) (h : Cascading self.now 0 self) :
    AllDue (self.now + 1) self.cascade ∧ self.cascade.Uniq ∧
      (∀ e, (∃ head, e ∈ self.cascade.list head) ↔ ∃ head, e ∈ self.list head) ∧
      self.cascade.now = self.now ∧ self.cascade.base = (self.now + 1) / 1024 * 1024 ∧
      self.cascade.numTimers = self.numTimers := by
  have hspec := cascadeLevels_spec 3 rfl hbase hnow (.zero hlast) huniq h
  rw [show List.range' (0 + 1) 3 = [1, 2, 3] from rfl] at hspec
  obtain ⟨hdue, hm⟩ := hspec
  have hnext : ((self.cascadeLevels [1, 2, 3]).base + (twLevel 0).num) % 2 ^ 64 =
      (self.now + 1) / 1024 * 1024 := by
    rw [hm.base, hbase, show (twLevel 0).num = 1024 from rfl]
    omega
  unfold cascade
  simp only [hnext]
  generalize (self.now + 1) / 1024 * 1024 = base
  exact ⟨hdue, ⟨hm.uniq.one, hm.uniq.apart⟩, hm.entries, hm.now, trivial, hm.numTimers⟩

end TimerWheel

end SyslogNg.DbParser
