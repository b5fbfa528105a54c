import SyslogNg.DbParser.TimerWheelRun

/-!
# Forced expiration (`timer_wheel_expire_all`, `modules/dbparser/timerwheel.c`)

`timer_wheel_expire_all` lets the time run to the end of a `guint64`, and puts back `now` but not
`base`: the wheel is left with the base of the last 1024 seconds there are, from which every target
is out of reach, so that timers that are added later go to the future list and stay there.
-/

namespace SyslogNg.DbParser

open Lib List
open Option hiding map mem_map
open Option (bind_eq_some_iff bind_some map_eq_some_iff)

/-- The callbacks that have been made: the timer, and `now`. -/
def TWEvent.callback : TWEvent → Option (Nat × Nat)
  | .fired timer now => some (timer, now)
  | _ => none

def fired (trace : List TWEvent) : List (Nat × Nat) := trace.filterMap TWEvent.callback

def TWEvent.isAdded : TWEvent → Bool
  | .added _ _ => true
  | _ => false

/-- A new wheel that has been set to the time of `w`; the names and the trace go on. -/
def TWWorld.fresh (w : TWWorld) : TWWorld :=
  { w with wheel := timerWheelNew.rebase w.wheel.now }

/-- `num_timers`, with the callbacks added and the timers that were added taken off. -/
def TWWorld.settled (w : TWWorld) : Int :=
  w.wheel.numTimers + (fired w.trace).length - w.trace.countP TWEvent.isAdded

namespace TimerWheel

/-- The entries of a wheel are among those of another, which has the same times and count. -/
structure Shuffled (s t : TimerWheel) : Prop where
  entries : ∀ head, ∀ e ∈ t.list head, ∃ head', e ∈ s.list head'
  now : t.now = s.now
  numTimers : t.numTimers = s.numTimers

variable {self : TimerWheel}

theorem cascadeSlot_mem {k : Nat} {head : TWHead} {e : TWEntry} (h : e ∈ (self.cascadeSlot k).list head) :
    e ∈ self.list head ∨ e ∈ self.list (.slot k (self.sourceSlot k)) := by
  rw [cascadeSlot, mem_setList] at h
  rcases h with ⟨-, h⟩ | ⟨-, h⟩
  · cases h
  · exact (mem_moveTo.mp h).imp_right And.left

theorem cascadeFuture_mem {head : TWHead} {e : TWEntry} (h : e ∈ self.cascadeFuture.list head) :
    e ∈ self.list head ∨ e ∈ self.list .future ∧ head = .slot 3 ((twLevel 3).slotOf e.target) := by
  rcases mem_moveTo.mp h with h | ⟨h, hhead⟩
  · rcases mem_setList.mp h with ⟨rfl, h⟩ | ⟨-, h⟩
    · exact .inl (mem_of_mem_filter h)
    · exact .inl h
  · exact .inr ⟨mem_of_mem_filter h, hhead⟩

theorem cascadeLevels_shuffled (levels : List Nat) : Shuffled self (self.cascadeLevels levels) := by
  induction levels generalizing self with
  | nil =>
    refine ⟨fun head e he => ?_, (moveTo_now 3).1, (moveTo_now 3).2.2⟩
    rcases cascadeFuture_mem he with he | ⟨he, -⟩ <;> exact ⟨_, he⟩
  | cons k levels ih =>
    have hslot : Shuffled self (self.cascadeSlot k) := by
      refine ⟨fun head e he => ?_, (moveTo_now (k - 1)).1, (moveTo_now (k - 1)).2.2⟩
      rcases cascadeSlot_mem he with he | he <;> exact ⟨_, he⟩
    rw [cascadeLevels]
    split
    · exact hslot
    · have hrest : Shuffled (self.cascadeSlot k) ((self.cascadeSlot k).cascadeLevels levels) := ih
      refine ⟨fun head e he => ?_, hrest.now.trans hslot.now, hrest.numTimers.trans hslot.numTimers⟩
      obtain ⟨head', he'⟩ := hrest.entries head e he
      exact hslot.entries head' e he'

theorem cascade_shuffled : Shuffled self self.cascade := by
  obtain ⟨hentries, hnow, hnum⟩ := self.cascadeLevels_shuffled [1, 2, 3]
  unfold cascade
  generalize ((self.cascadeLevels [1, 2, 3]).base + (twLevel 0).num) % 2 ^ 64 = base
  exact ⟨hentries, hnow, hnum⟩

theorem cascade_of_low (h : ∀ head, (∀ i, head ≠ .slot 0 i) → self.list head = []) :
    self.cascade = { self with base := (self.base + (twLevel 0).num) % 2 ^ 64 } := by
  have hslot : ∀ k, 1 ≤ k → self.cascadeSlot k = self := by
    intro k hk
    have hempty := h (.slot k (self.sourceSlot k)) fun i hi => by
      cases hi
      omega
    rw [cascadeSlot, hempty, moveTo, setList, ← hempty, Function.update_eq_self]
  have hfuture : self.cascadeFuture = self := by
    have hempty := h .future (fun i hi => by cases hi)
    rw [cascadeFuture, hempty, filter_nil, filter_nil, moveTo, setList, ← hempty, Function.update_eq_self]
  have hlevels : self.cascadeLevels [1, 2, 3] = self := by
    simp only [cascadeLevels, hslot 1 (by decide), hslot 2 (by decide), hslot 3 (by decide),
      hfuture, ite_self]
  rw [cascade, hlevels]

end TimerWheel

/-! ## What a call does to the number of timers -/

namespace TWWorld

variable {w w' : TWWorld} {callback : Nat → Nat → List Nat}

theorem tick_settled (w : TWWorld) :
    w.tick.settled = w.settled ∧ w.tick.trace = w.trace ∧ w.tick.wheel.numTimers = w.wheel.numTimers := by
  have hnum : w.tick.wheel.numTimers = w.wheel.numTimers := by
    unfold tick
    dsimp only
    split
    · exact w.wheel.cascade_shuffled.numTimers
    · rfl
  have htrace : w.tick.trace = w.trace := by
    unfold tick
    split <;> rfl
  exact ⟨by rw [settled, settled, hnum, htrace], htrace, hnum⟩

variable {newNow : Nat}

end TWWorld

/-! ## A timer of one second -/

/-- Callbacks that add no timers. -/
def quiet : Nat → Nat → List Nat := fun _ _ => []

namespace TWWorld

variable {w w' : TWWorld}

theorem fireEntries_quiet (w : TWWorld) (entries : List TWEntry) :
    w.fireEntries quiet entries = some
      { w with
        wheel := { w.wheel with numTimers := w.wheel.numTimers - entries.length }
        trace := w.trace ++ entries.map fun entry => .fired entry.timer w.wheel.now } := by
  induction entries generalizing w with
  | nil => simp [fireEntries]
  | cons entry entries ih =>
    rw [fireEntries]
    simp only [quiet, addTimers, bind_some]
    rw [ih]
    simp only [length_cons, map_cons, append_assoc, cons_append,
      nil_append, Nat.cast_succ, some.injEq, mk.injEq, TimerWheel.mk.injEq, true_and,
      and_true]
    omega

theorem fireSlot_quiet (w : TWWorld) :
    w.fireSlot quiet = some
      { w with
        wheel := { w.wheel.setList w.dueHead [] with
          numTimers := w.wheel.numTimers - (w.wheel.list w.dueHead).length }
        trace := w.trace ++ (w.wheel.list w.dueHead).map fun entry =>
          .fired entry.timer w.wheel.now } := by
  rw [fireSlot, fireEntries_quiet]
  rfl

/-- A wheel with one timer, in the slot of the next second. -/
structure Single (w : TWWorld) (e : TWEntry) : Prop where
  entry : w.wheel.list (.slot 0 ((w.wheel.now + 1) % 1024)) = [e]
  other : ∀ head, head ≠ .slot 0 ((w.wheel.now + 1) % 1024) → w.wheel.list head = []
  numTimers : w.wheel.numTimers = 1
  now_lt : w.wheel.now + 1 < 2 ^ 64

theorem tick_now (w : TWWorld) (hnow : w.wheel.now + 1 < 2 ^ 64) : w.tick.wheel.now = w.wheel.now + 1 := by
  unfold tick
  dsimp only
  split
  · rw [w.wheel.cascade_shuffled.now, Nat.mod_eq_of_lt hnow]
  · exact Nat.mod_eq_of_lt hnow

theorem Single.fires {e : TWEntry} (h : w.Single e) (newNow : Nat) :
    ∃ w', setTimeLoop quiet newNow 2 w = some w' ∧
      w'.trace = w.trace ++ [.fired e.timer (w.wheel.now + 1)] := by
  have hdue : w.dueHead = .slot 0 (w.wheel.now % 1024) := by rw [dueHead, slotOf_level0]
  have hne : w.dueHead ≠ .slot 0 ((w.wheel.now + 1) % 1024) := by
    rw [hdue, Ne, TWHead.slot.injEq]
    omega
  have hempty := h.other _ hne
  have hfirst : w.fireSlot quiet = some w := by
    rw [fireSlot_quiet, hempty, TimerWheel.setList, ← hempty, Function.update_eq_self, hempty]
    simp
  have hlists : w.tick.wheel.list = w.wheel.list := by
    unfold tick
    dsimp only
    split
    · rw [TimerWheel.cascade_of_low fun head hhead => h.other head (hhead _)]
    · rfl
  have hnow := tick_now w h.now_lt
  have hdue2 : w.tick.dueHead = .slot 0 ((w.wheel.now + 1) % 1024) := by
    rw [dueHead, slotOf_level0, hnow]
  have hsecond := fireSlot_quiet w.tick
  have hlist : w.tick.wheel.list w.tick.dueHead = [e] := by rw [hlists, hdue2, h.entry]
  have hnum : w.tick.wheel.numTimers = 1 := (tick_settled w).2.2.trans h.numTimers
  rw [hlist, hnow, (tick_settled w).2.1] at hsecond
  rw [setTimeLoop, hfirst, bind_some, if_neg (by rw [h.numTimers]; decide), setTimeLoop,
    hsecond, bind_some, if_pos (by simp [hnum])]
  exact ⟨_, rfl, rfl⟩

end TWWorld

/-! ## Where the timer of one second goes -/

namespace TimerWheel

end TimerWheel

namespace TWWorld

variable {w w' : TWWorld} {callback : Nat → Nat → List Nat}

end TWWorld

end SyslogNg.DbParser
