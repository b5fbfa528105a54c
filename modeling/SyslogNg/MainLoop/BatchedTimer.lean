import SyslogNg.Lib.Run

/-!
# Batched timers (`lib/ml-batched-timer.c`)

A request goes to the main thread as an update, unless one is on its way. Every request clears `updated`,
also one that needs no update: then no later one gets through. The mutex is left out.
-/

namespace SyslogNg.MainLoop

open Lib

/-- The expiry of the `iv_timer`, if it is registered, and the members of the batched timer. -/
structure BatchedTimer where
  timer : Option Nat
  expires : Nat
  updated : Bool

/-- The timer with the clock in seconds, the number of posted updates, what was requested last (`none`
for a cancel), and whether the timer has fired since. -/
structure TimerWorld where
  self : BatchedTimer
  now : Nat
  posted : Nat
  last : Option Nat
  fired : Bool

def BatchedTimer.performUpdate (self : BatchedTimer) : BatchedTimer :=
  { self with timer := if self.expires > 0 then some self.expires else none, updated := true }

/-- `ml_batched_timer_update`; in the main thread, `main_loop_call` runs the update at once. -/
def TimerWorld.update (w : TimerWorld) (mainThread : Bool) (nextExpires : Nat) : TimerWorld :=
  if nextExpires ≠ w.self.expires ∧ w.self.updated then
    let self := { w.self with updated := false, expires := nextExpires }
    if mainThread then { w with self := self.performUpdate } else { w with self := self, posted := w.posted + 1 }
  else { w with self := { w.self with updated := false } }

inductive TimerOp where
  | tick (sec : Nat)
  | postpone (mainThread : Bool) (sec : Nat)
  | cancel (mainThread : Bool)
  | perform
  | expire

def timerStep (w : TimerWorld) : TimerOp → Option TimerWorld
  | .tick sec => some { w with now := w.now + sec }
  -- `ml_batched_timer_postpone`
  | .postpone mainThread sec =>
    some { w.update mainThread (w.now + sec) with last := some (w.now + sec), fired := false }
  -- `ml_batched_timer_cancel`
  | .cancel mainThread => some { w.update mainThread 0 with last := none, fired := false }
  | .perform =>
    if w.posted = 0 then none
    else some { w with self := w.self.performUpdate, posted := w.posted - 1 }
  | .expire =>
    if w.self.timer.any (· ≤ w.now) then some { w with self := { w.self with timer := none }, fired := true }
    else none

/-- At most one update is outstanding, and without one the timer is at the last request. -/
def TimerWorld.Settled (w : TimerWorld) : Prop :=
  w.posted ≤ 1 ∧ (w.posted = 0 → w.self.timer = w.last ∨ w.fired ∧ w.self.timer = none)

/-- A request is another one than the last update has, or the same while that is outstanding. -/
def TimerWorld.Timely (w : TimerWorld) (nextExpires : Nat) : Prop :=
  if w.posted = 0 then nextExpires ≠ w.self.expires else nextExpires = w.self.expires

def TimerOp.Meets (w : TimerWorld) : TimerOp → Prop
  | .postpone _ sec => 0 < w.now + sec ∧ w.Timely (w.now + sec)
  | .cancel _ => w.Timely 0
  | _ => True

/-- `updated` says that no update is outstanding, and the expiry is that of the last request. -/
structure TimerWorld.Sound (w : TimerWorld) : Prop extends w.Settled where
  updated : w.self.updated = decide (w.posted = 0)
  last : w.last = if w.self.expires > 0 then some w.self.expires else none

section

variable {w w' : TimerWorld}

theorem TimerWorld.Sound.update (h : w.Sound) {mainThread : Bool} {next : Nat} (htimely : w.Timely next) :
    TimerWorld.Sound { w.update mainThread next with
      last := if next > 0 then some next else none
      fired := false } := by
  have hupdated := h.updated
  unfold TimerWorld.Timely at htimely
  unfold TimerWorld.update
  split at htimely
  case isTrue hnone =>
    rw [if_pos ⟨htimely, by simp [hupdated, hnone]⟩]
    cases mainThread <;> constructor <;> simp [TimerWorld.Settled, BatchedTimer.performUpdate, hnone]
  case isFalse hsome =>
    -- the request is merged into the update that is outstanding
    rw [if_neg (by simp [htimely])]
    subst htimely
    exact ⟨⟨h.1.1, fun hnone => absurd hnone hsome⟩, by simp [hsome], rfl⟩

theorem TimerWorld.Sound.perform (h : w.Sound) (hposted : w.posted ≠ 0) :
    TimerWorld.Sound { w with self := w.self.performUpdate, posted := w.posted - 1 } := by
  have hone : w.posted = 1 := by
    have := h.1.1
    omega
  exact ⟨⟨by simp [hone], fun _ => .inl h.last.symm⟩, by simp [BatchedTimer.performUpdate, hone], h.last⟩

theorem TimerWorld.Sound.step (h : w.Sound) {op : TimerOp} (hmeets : op.Meets w)
    (hstep : timerStep w op = some w') : w'.Sound := by
  cases op with
  | tick sec =>
    cases hstep
    exact ⟨h.1, h.updated, h.last⟩
  | postpone mainThread sec =>
    cases hstep
    simpa only [if_pos hmeets.1] using h.update hmeets.2
  | cancel mainThread =>
    cases hstep
    exact h.update hmeets
  | perform =>
    obtain ⟨hposted, hstep⟩ := Option.ite_none_left_eq_some.1 hstep
    cases hstep
    exact h.perform hposted
  | expire =>
    obtain ⟨-, hstep⟩ := Option.ite_none_right_eq_some.1 hstep
    cases hstep
    exact ⟨⟨h.1.1, fun _ => .inr ⟨rfl, rfl⟩⟩, h.updated, h.last⟩

end

end SyslogNg.MainLoop
