import SyslogNg.DbParser.TimerWheelRun

/-!
# The wheel misses no timer

`TWInv` says that an entry of the wheel is that of a pending timer, and where it is. Here is the
converse (`AllLinked`): a timer that was given a target, and neither fired nor deleted since, has
an entry. So the timers whose target has passed have been fired, and `num_timers` is right.
-/

namespace SyslogNg.DbParser

open Lib List Option TimerWheel

/-- A timer that was given a target, and neither fired nor deleted. -/
def Pending (trace : List TWEvent) (timer : Nat) : Prop :=
  (lastTarget trace timer).isSome = true ∧ Alive trace timer

def TimerWheel.LinkedIn (self : TimerWheel) (timer : Nat) (head : TWHead) : Prop :=
  ∃ e ∈ self.list head, e.timer = timer

def AllLinked (w : TWWorld) : Prop :=
  ∀ timer, Pending w.trace timer → ∃ head, w.wheel.LinkedIn timer head

/-- At time `n` no timer has been missed: those with a target before `n` have been fired or
deleted, the others are counted by `num_timers`, and each of them is linked once, in a slot or in
the future list. -/
structure NothingMissed (n : Nat) (w : TWWorld) : Prop where
  fired : ∀ timer target, lastTarget w.trace timer = some target → target < n →
    (∃ now, .fired timer now ∈ w.trace) ∨ .deleted timer ∈ w.trace
  counted : ∃ timers : Finset Nat, w.wheel.numTimers = timers.card ∧
    ∀ timer, timer ∈ timers ↔ Pending w.trace timer
  linked : ∀ timer, Pending w.trace timer →
    ∃! head, head ∈ heads ∧ w.wheel.LinkedIn timer head
  once : ∀ head, ((w.wheel.list head).map TWEntry.timer).Nodup

section

variable {trace : List TWEvent} {event : TWEvent} {timer : Nat}

theorem Alive.of_snoc (h : Alive (trace ++ [event]) timer) : Alive trace timer :=
  ⟨fun now hmem => h.1 now (mem_append_left _ hmem), fun hmem => h.2 (mem_append_left _ hmem)⟩

theorem Pending.of_snoc (h : Pending (trace ++ [event]) timer) :
    (event.assigns timer).isSome = true ∨ Pending trace timer := by
  obtain ⟨hlast, halive⟩ := h
  rw [lastTarget_snoc] at hlast
  cases ha : event.assigns timer with
  | some target => exact .inl rfl
  | none =>
    rw [ha, none_or] at hlast
    exact .inr ⟨hlast, halive.of_snoc⟩

theorem TWEvent.timer_of_assigns (h : (event.assigns timer).isSome = true) : event.timer = timer := by
  by_contra hne
  rw [TWEvent.assigns_of_ne hne] at h
  cases h

end

theorem due_ge {now target : Nat} {head : TWHead} (h : Due now target head) : now ≤ target := by
  have hround : ∀ k, reached k now + 1 ≤ roundOf k target → now ≤ target := by
    intro k hk
    have hle := (reached_le k now).1
    rw [roundOf_eq] at hk hle
    have hlt : now / 2 ^ (10 + 6 * k) < target / 2 ^ (10 + 6 * k) := by omega
    exact (Nat.lt_of_div_lt_div hlt).le
  cases head with
  | future => exact hround 3 h
  | slot ndx slot =>
    cases ndx with
    | zero => exact h.2.1
    | succ k => exact hround k h.2.2.1

theorem mem_heads_of_due {now target : Nat} {head : TWHead} (h : Due now target head) :
    head ∈ heads := by
  have hslot : ∀ ndx slot, ndx < 4 → slot < (twLevel ndx).num →
      .slot ndx slot ∈ heads := by
    intro ndx slot hndx hs
    refine mem_cons_of_mem _ (mem_flatMap.2 ⟨ndx, mem_range.2 hndx, ?_⟩)
    exact mem_map.2 ⟨slot, mem_range.2 hs, rfl⟩
  cases head with
  | future => exact mem_cons_self
  | slot ndx slot =>
    cases ndx with
    | zero =>
      obtain ⟨rfl, -, -⟩ := h
      exact hslot 0 _ (by decide) (Nat.mod_lt _ (by decide))
    | succ k =>
      obtain ⟨hk, rfl, -, -⟩ := h
      have hnum : (twLevel (k + 1)).num = 64 := by
        rw [twLevel_succ hk]
        rfl
      refine hslot (k + 1) _ (by omega) ?_
      rw [hnum]
      exact Nat.mod_lt _ (by decide)

namespace TWWorld

variable {w w' : TWWorld} {timeout timer : Nat}

theorem allLinked_assign {target n : Nat} {event : TWEvent} (h : AllLinked w)
    (hevent : event.timer = timer) (m : Int) :
    AllLinked ⟨{ w.wheel.addTimerEntry ⟨timer, target⟩ with numTimers := m }, n,
      w.trace ++ [event]⟩ := by
  intro t hp
  have hmem : ∀ {head e}, e ∈ (w.wheel.addTimerEntry ⟨timer, target⟩).list head ↔
      e ∈ w.wheel.list head ∨ e = ⟨timer, target⟩ ∧ head = w.wheel.headFor target :=
    mem_prepend
  rcases hp.of_snoc with hassign | hp
  · have ht := TWEvent.timer_of_assigns hassign
    exact ⟨_, _, hmem.2 (.inr ⟨rfl, rfl⟩), hevent.symm.trans ht⟩
  · obtain ⟨head, e, he, ht⟩ := h t hp
    exact ⟨head, e, hmem.2 (.inl he), ht⟩

theorem allLinked_addTimer (h : AllLinked w) (hadd : w.addTimer timeout = some w') :
    AllLinked w' := by
  unfold addTimer TimerWheel.addTimer at hadd
  split at hadd
  · cases hadd
    exact allLinked_assign h rfl _
  · cases hadd

theorem linkedIn_unlink {wheel : TimerWheel} (hunlink : w.wheel.unlink timer = some wheel) {t : Nat}
    (hne : t ≠ timer) {head : TWHead} (hl : w.wheel.LinkedIn t head) : wheel.LinkedIn t head := by
  unfold unlink at hunlink
  split at hunlink
  · cases hunlink
    obtain ⟨e, he, rfl⟩ := hl
    exact ⟨e, mem_filter.2 ⟨he, bne_iff_ne.2 hne⟩, rfl⟩
  · cases hunlink

theorem allLinked_delTimer (h : AllLinked w) (hdel : w.delTimer timer = some w') : AllLinked w' := by
  unfold delTimer TimerWheel.delTimer at hdel
  cases hunlink : w.wheel.unlink timer with
  | none =>
    rw [hunlink] at hdel
    cases hdel
  | some wheel =>
    rw [hunlink] at hdel
    cases hdel
    intro t hp
    have hne : t ≠ timer := by
      rintro rfl
      exact hp.2.2 (mem_append_right _ mem_cons_self)
    rcases hp.of_snoc with hassign | hp
    · cases hassign
    · obtain ⟨head, hl⟩ := h t hp
      exact ⟨head, linkedIn_unlink hunlink hne hl⟩

theorem allLinked_modTimer (h : AllLinked w) (hmod : w.modTimer timer timeout = some w') :
    AllLinked w' := by
  unfold modTimer TimerWheel.modTimer at hmod
  cases hunlink : w.wheel.unlink timer with
  | none =>
    rw [hunlink] at hmod
    cases hmod
  | some wheel =>
    rw [hunlink] at hmod
    cases hmod
    intro t hp
    by_cases hne : t = timer
    · subst hne
      exact ⟨_, _, mem_prepend.2 (.inr ⟨rfl, rfl⟩), rfl⟩
    · rcases hp.of_snoc with hassign | hp
      · exact absurd (TWEvent.timer_of_assigns hassign).symm hne
      · obtain ⟨head, hl⟩ := h t hp
        obtain ⟨e, he, ht⟩ := linkedIn_unlink hunlink hne hl
        exact ⟨head, e, mem_prepend.2 (.inl he), ht⟩

/-! ## Firing and the passing of time -/

theorem allLinked_fired {entry : TWEntry} {entries : List TWEntry}
    (h : AllLinked (w.setHead w.dueHead (entry :: entries))) :
    AllLinked (setHead { w with trace := w.trace ++ [.fired entry.timer w.wheel.now] } w.dueHead
      entries) := by
  intro t hp
  have hne : t ≠ entry.timer := by
    rintro rfl
    exact hp.2.1 _ (mem_append_right _ mem_cons_self)
  rcases hp.of_snoc with hassign | hp
  · cases hassign
  obtain ⟨head, e, he, ht⟩ := h t hp
  refine ⟨head, e, ?_, ht⟩
  rcases mem_setList.1 he with ⟨rfl, hin⟩ | ⟨hhead, hin⟩
  · rcases mem_cons.1 hin with rfl | hin
    · exact absurd ht.symm hne
    · exact mem_setList.2 (.inl ⟨rfl, hin⟩)
  · exact mem_setList.2 (.inr ⟨hhead, hin⟩)

theorem allLinked_tick (hinv : TWInv 0 w) (h : AllLinked w) (hempty : w.wheel.list w.dueHead = []) :
    AllLinked w.tick := by
  have hcas := cascading_of_due hinv hempty
  unfold tick
  rw [slotOf_level0, show (twLevel 0).num = 1024 from rfl]
  by_cases hlast : w.wheel.now % 1024 = 1024 - 1
  · rw [if_pos hlast]
    obtain ⟨-, -, hentries, -⟩ := cascade_spec hinv.base hinv.now_lt hlast hinv.uniq hcas
    intro t hp
    obtain ⟨head, e, he, ht⟩ := h t hp
    obtain ⟨head', he'⟩ := (hentries e).2 ⟨head, he⟩
    exact ⟨head', e, he', ht⟩
  · rw [if_neg hlast]
    exact h

theorem allLinked_lasts : Lasts AllLinked :=
  ⟨allLinked_addTimer, allLinked_fired, fun _ h => h, allLinked_tick, fun _ h => h⟩

end TWWorld

/-! ## Runs -/

theorem twNext_allLinked {w w' : TWWorld} {op : TWOp} (hnext : TWNext TimeoutOk w op w')
    (hinv : TWInv 0 w) (h : AllLinked w) : AllLinked w' := by
  obtain ⟨hstep, hok⟩ := hnext
  cases op with
  | addTimer timeout => exact TWWorld.allLinked_addTimer h hstep
  | delTimer timer => exact TWWorld.allLinked_delTimer h hstep
  | modTimer timer newTimeout => exact TWWorld.allLinked_modTimer h hstep
  | setTime newNow callback => exact (TWWorld.setTime_inv TWWorld.allLinked_lasts hinv h hok.1 hok.2 hstep).2.1

theorem nothingMissed_of_inv {w : TWWorld} {n : Nat} (hinv : TWInv 0 w) (h : AllLinked w)
    (hn : n ≤ w.wheel.now) : NothingMissed n w := by
  have hpending : ∀ timer, Pending w.trace timer ↔ ∃ head, w.wheel.LinkedIn timer head := by
    intro timer
    refine ⟨h timer, ?_⟩
    rintro ⟨head, e, he, rfl⟩
    obtain ⟨hlast, halive⟩ := hinv.pending head e he
    exact ⟨by rw [hlast]; rfl, halive⟩
  refine ⟨?_, ?_, ?_, hinv.uniq.one⟩
  · intro timer target hlast hlt
    by_contra hnot
    rw [not_or, not_exists] at hnot
    obtain ⟨head, e, he, rfl⟩ := h timer ⟨by rw [hlast]; rfl, hnot⟩
    have htarget := (hinv.pending head e he).1
    rw [hlast, some_inj] at htarget
    have hge := due_ge (hinv.due head e he)
    omega
  · obtain ⟨timers, hcard, hiff⟩ := hinv.count
    refine ⟨timers, hcard.trans (add_zero _), fun timer => ?_⟩
    rw [hiff, hpending]
    rfl
  · intro timer hp
    obtain ⟨head, e, he, rfl⟩ := h timer hp
    refine ⟨head, ⟨mem_heads_of_due (hinv.due head e he), e, he, rfl⟩, ?_⟩
    rintro head' ⟨-, e', he', ht⟩
    exact hinv.uniq.apart he' he ht

/-- **The wheel misses no timer.** In every run of calls whose timeouts the boundary tests do not
miss, and after every further `timer_wheel_set_time`. -/
theorem timer_wheel_misses_none {ops : List TWOp} {w w' : TWWorld} {newNow : Nat}
    {callback : Nat → Nat → List Nat} (h : Run (TWNext TimeoutOk) twStart ops w)
    (hset : TWNext TimeoutOk w (.setTime newNow callback) w') :
    NothingMissed w.wheel.now w ∧ NothingMissed newNow w' := by
  have hinv : TWInv 0 w ∧ AllLinked w :=
    h.invariant (I := fun w => TWInv 0 w ∧ AllLinked w)
      (fun _ _ _ hnext hi => ⟨twNext_inv hnext hi.1, twNext_allLinked hnext hi.1 hi.2⟩)
      ⟨TWInv.start, fun timer hp => by cases hp.1⟩
  obtain ⟨hinv', hlinked', hnow⟩ :=
    TWWorld.setTime_inv TWWorld.allLinked_lasts hinv.1 hinv.2 hset.2.1 hset.2.2 hset.1
  exact ⟨nothingMissed_of_inv hinv.1 hinv.2 le_rfl, nothingMissed_of_inv hinv' hlinked' hnow⟩

/-- A timer of three seconds, whose callback adds another one. -/
theorem timer_wheel_misses_none_added : ∃ w w',
    Run (TWNext TimeoutOk) twStart [.addTimer 3] w ∧
    twStep w (.setTime 8 fun _ timer => if timer = 0 then [1] else []) = some w' ∧
    w'.trace = [.added 0 3, .fired 0 3, .added 1 4, .fired 1 4] ∧ NothingMissed 8 w' := by
  obtain ⟨w1, h1, hnow1⟩ := map_eq_some_iff.1
    (show (twStep twStart (.addTimer 3)).map (·.wheel.now) = some 0 by decide +kernel)
  obtain ⟨w2, h2, htrace⟩ := map_eq_some_iff.1 (show ((twStep twStart (.addTimer 3)).bind
    (twStep · (.setTime 8 fun _ timer => if timer = 0 then [1] else []))).map (·.trace) =
    some [.added 0 3, .fired 0 3, .added 1 4, .fired 1 4] by decide +kernel)
  rw [h1, bind_some] at h2
  have hcallback : ∀ now timer, w1.wheel.now ≤ now → now < 8 →
      ∀ timeout ∈ (if timer = 0 then [1] else [] : List Nat), TimeoutOk now timeout := by
    intro now timer _ hnow timeout ht
    split at ht
    · rw [mem_singleton.1 ht]
      interval_cases now <;> exact ⟨by decide, by decide, by decide⟩
    · cases ht
  have hrun : Run (TWNext TimeoutOk) twStart [.addTimer 3] w1 :=
    .single ⟨h1, by decide, by decide, by decide⟩
  exact ⟨w1, w2, hrun, h2, htrace, (timer_wheel_misses_none hrun ⟨h2, by decide, hcallback⟩).2⟩

/-- A callback that is invoked at a multiple of 1024 adds a timer of 1024 seconds to the very list
that is being fired, and that is emptied afterwards. -/
theorem timer_wheel_loses_timer : ∃ w,
    Run (TWNext fun _ timeout => 1 ≤ timeout ∧ timeout < 2 ^ 31) twStart
      [.addTimer 1024, .setTime 1 fun _ timer => if timer = 0 then [1024] else []] w ∧
    w.trace = [.added 0 1024, .fired 0 0, .added 1 1024] ∧ ¬ NothingMissed 1 w := by
  obtain ⟨w1, h1, -⟩ := map_eq_some_iff.1
    (show (twStep twStart (.addTimer 1024)).map (·.wheel.now) = some 0 by decide +kernel)
  obtain ⟨w2, h2, htrace⟩ := map_eq_some_iff.1 (show ((twStep twStart (.addTimer 1024)).bind
    (twStep · (.setTime 1 fun _ timer => if timer = 0 then [1024] else []))).map
      (fun w => (w.trace, w.wheel.linked 1)) =
    some ([.added 0 1024, .fired 0 0, .added 1 1024], false) by decide +kernel)
  rw [h1, bind_some] at h2
  obtain ⟨htrace, hlinked⟩ := Prod.mk.inj htrace
  refine ⟨w2, .step ⟨h1, by decide, by decide⟩ (.single ⟨h2, by decide, ?_⟩), htrace, ?_⟩
  · intro now timer _ _ timeout ht
    simp only at ht
    split at ht
    · rw [mem_singleton.1 ht]
      exact ⟨by decide, by decide⟩
    · cases ht
  · intro hmissed
    have hpending : Pending w2.trace 1 := by
      rw [htrace]
      exact ⟨rfl, by simp, by simp⟩
    obtain ⟨head, ⟨hhead, e, he, ht⟩, -⟩ := hmissed.linked 1 hpending
    have hfound : w2.wheel.linked 1 = true :=
      any_eq_true.2 ⟨head, hhead, any_eq_true.2 ⟨e, he, beq_iff_eq.2 ht⟩⟩
    rw [hlinked] at hfound
    cases hfound

end SyslogNg.DbParser
