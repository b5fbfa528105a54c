import Mathlib.Data.Nat.Bitwise
import Mathlib.Logic.Function.Basic
import Mathlib.Tactic

/-!
# The timer wheel of the correllation engine (`modules/dbparser/timerwheel.c`)

Four levels of slots and a list of timers too far ahead for them. A level-0 slot is fired
without a look at the targets in it; the slots of a higher level are moved one level down when
the time reaches the last but one slot of the level below.

A list is the entries linked behind one `TWEntry **`. An entry is named by a number that is
never used again, where the code has its address. Times are `guint64`, and `num_timers` is a
`gint`: an operation is `none` where that counter overflows, and where an entry is unlinked
that is in no list.
-/

namespace SyslogNg.DbParser

structure TWEntry where
  timer : Nat
  target : Nat
  deriving DecidableEq, Repr

/-- `TWLevel` less its slots, which are lists of the wheel. -/
structure TWLevel where
  mask : Nat
  slotMask : Nat
  num : Nat
  shift : Nat

def twLevelNew (bits shift : Nat) : TWLevel where
  mask := (1 <<< bits - 1) <<< shift
  slotMask := 1 <<< shift - 1
  num := 1 <<< bits
  shift := shift

/-- The `&level->slots[slot]` and the `&self->future` of a wheel. -/
inductive TWHead where
  | slot (levelNdx slot : Nat)
  | future
  deriving DecidableEq, Repr

structure TimerWheel where
  list : TWHead → List TWEntry
  now : Nat
  base : Nat
  numTimers : Int

/-- The levels `timer_wheel_new` makes of the bits 10, 6, 6 and 6. -/
def twLevels : List TWLevel :=
  [twLevelNew 10 0, twLevelNew 6 10, twLevelNew 6 16, twLevelNew 6 22]

def twLevel (levelNdx : Nat) : TWLevel := twLevels.getD levelNdx (twLevelNew 0 0)

def timerWheelNew : TimerWheel := ⟨fun _ => [], 0, 0, 0⟩

/-- `a & ~mask`. -/
def clearBits (a mask : Nat) : Nat := a - (a &&& mask)

namespace TWLevel

/-- The time of the first slot of a level. -/
def levelBase (level : TWLevel) (base : Nat) : Nat :=
  clearBits (clearBits base level.slotMask) level.mask

def slotOf (level : TWLevel) (target : Nat) : Nat := (target &&& level.mask) >>> level.shift

/-- The test of `timer_wheel_add_timer_entry`: is the target in reach of the level? -/
def takes (level : TWLevel) (base now target : Nat) : Bool :=
  let span := level.num <<< level.shift
  if target > (level.levelBase base + span) % 2 ^ 64 then
    -- in the next round of the level, in a slot that the time has passed in this round
    target < (level.levelBase base + span * 2) % 2 ^ 64 &&
      (now &&& level.mask) > (target &&& level.mask)
  else true

end TWLevel

namespace TimerWheel

def setList (self : TimerWheel) (head : TWHead) (entries : List TWEntry) : TimerWheel :=
  { self with list := Function.update self.list head entries }

/-- `tw_entry_prepend`. -/
def prepend (self : TimerWheel) (head : TWHead) (entry : TWEntry) : TimerWheel :=
  self.setList head (entry :: self.list head)

def heads : List TWHead :=
  .future :: (List.range 4).flatMap fun ndx => (List.range (twLevel ndx).num).map (.slot ndx)

/-- Is the entry of the timer in a list? -/
def linked (self : TimerWheel) (timer : Nat) : Bool :=
  heads.any fun head => (self.list head).any fun entry => entry.timer == timer

/-- `tw_entry_unlink`: the entry leaves the list it is in. -/
def unlink (self : TimerWheel) (timer : Nat) : Option TimerWheel :=
  if self.linked timer then
    some { self with list := fun head => (self.list head).filter fun entry => entry.timer != timer }
  else none

/-- Where `timer_wheel_add_timer_entry` puts a target. -/
def headFor (self : TimerWheel) (target : Nat) : TWHead :=
  match (List.range 4).find? fun ndx => (twLevel ndx).takes self.base self.now target with
  | some ndx => .slot ndx ((twLevel ndx).slotOf target)
  | none => .future

def addTimerEntry (self : TimerWheel) (entry : TWEntry) : TimerWheel :=
  self.prepend (self.headFor entry.target) entry

/-- The entry `timer_wheel_add_timer` makes is named `timer`. -/
def addTimer (self : TimerWheel) (timeout timer : Nat) : Option TimerWheel :=
  if self.numTimers + 1 < 2 ^ 31 then
    let self := self.addTimerEntry ⟨timer, (self.now + timeout) % 2 ^ 64⟩
    some { self with numTimers := self.numTimers + 1 }
  else none

def delTimer (self : TimerWheel) (timer : Nat) : Option TimerWheel :=
  (self.unlink timer).map fun self => { self with numTimers := self.numTimers - 1 }

def modTimer (self : TimerWheel) (timer newTimeout : Nat) : Option TimerWheel :=
  (self.unlink timer).map fun self =>
    self.addTimerEntry ⟨timer, (self.now + newTimeout) % 2 ^ 64⟩

/-- Entries go to the slots of their targets in a level, each to the front of its slot. -/
def moveTo (self : TimerWheel) (levelNdx : Nat) : List TWEntry → TimerWheel
  | [] => self
  | entry :: entries =>
    (self.prepend (.slot levelNdx ((twLevel levelNdx).slotOf entry.target)) entry).moveTo
      levelNdx entries

/-- The slot of level `levelNdx` that `timer_wheel_cascade` empties. -/
def sourceSlot (self : TimerWheel) (levelNdx : Nat) : Nat :=
  let slot := (twLevel levelNdx).slotOf self.now
  if slot = (twLevel levelNdx).num - 1 then 0 else slot + 1

def cascadeSlot (self : TimerWheel) (levelNdx : Nat) : TimerWheel :=
  let head := .slot levelNdx (self.sourceSlot levelNdx)
  (self.moveTo (levelNdx - 1) (self.list head)).setList head []

/-- The entries of the future list that level 3 takes. -/
def futureInReach (self : TimerWheel) (entry : TWEntry) : Bool :=
  let level := twLevel 3
  entry.target < (level.levelBase self.base + 2 * (level.num <<< level.shift)) % 2 ^ 64

def cascadeFuture (self : TimerWheel) : TimerWheel :=
  let entries := self.list .future
  (self.setList .future (entries.filter fun entry => !self.futureInReach entry)).moveTo 3
    (entries.filter self.futureInReach)

/-- The loop of `timer_wheel_cascade` over the levels above the lowest. -/
def cascadeLevels (self : TimerWheel) : List Nat → TimerWheel
  | [] => self.cascadeFuture
  | levelNdx :: rest =>
    if self.sourceSlot levelNdx < (twLevel levelNdx).num - 1 then self.cascadeSlot levelNdx
    else (self.cascadeSlot levelNdx).cascadeLevels rest

/-- `timer_wheel_cascade`. -/
def cascade (self : TimerWheel) : TimerWheel :=
  let self := self.cascadeLevels [1, 2, 3]
  { self with base := (self.base + (twLevel 0).num) % 2 ^ 64 }

/-- The switch to a new base of a wheel without timers. -/
def rebase (self : TimerWheel) (newNow : Nat) : TimerWheel :=
  { self with now := newNow, base := clearBits newNow (twLevel 0).mask }

end TimerWheel

/-! ## The wheel and its users -/

/-- What happens to a timer: a target is assigned by `timer_wheel_add_timer` or
`timer_wheel_mod_timer`, the timer is deleted, its callback is invoked with `now`. -/
inductive TWEvent where
  | added (timer target : Nat)
  | modified (timer target : Nat)
  | deleted (timer : Nat)
  | fired (timer now : Nat)
  deriving DecidableEq, Repr

/-- The wheel, the next unused name of an entry, and what has happened so far. -/
structure TWWorld where
  wheel : TimerWheel
  nextTimer : Nat
  trace : List TWEvent

namespace TWWorld

def addTimer (w : TWWorld) (timeout : Nat) : Option TWWorld :=
  (w.wheel.addTimer timeout w.nextTimer).map fun wheel =>
    ⟨wheel, w.nextTimer + 1,
      w.trace ++ [.added w.nextTimer ((w.wheel.now + timeout) % 2 ^ 64)]⟩

/-- The timers a callback adds. -/
def addTimers (w : TWWorld) : List Nat → Option TWWorld
  | [] => some w
  | timeout :: timeouts => (w.addTimer timeout).bind fun w => w.addTimers timeouts

def delTimer (w : TWWorld) (timer : Nat) : Option TWWorld :=
  (w.wheel.delTimer timer).map fun wheel => ⟨wheel, w.nextTimer, w.trace ++ [.deleted timer]⟩

def modTimer (w : TWWorld) (timer newTimeout : Nat) : Option TWWorld :=
  (w.wheel.modTimer timer newTimeout).map fun wheel =>
    ⟨wheel, w.nextTimer,
      w.trace ++ [.modified timer ((w.wheel.now + newTimeout) % 2 ^ 64)]⟩

variable (callback : Nat → Nat → List Nat)

/-- The entries of a slot are fired in turn; `callback now timer` are the timeouts of the timers
that the callback of `timer` adds. -/
def fireEntries (w : TWWorld) : List TWEntry → Option TWWorld
  | [] => some w
  | entry :: entries =>
    let fired : TWWorld := { w with trace := w.trace ++ [.fired entry.timer w.wheel.now] }
    (fired.addTimers (callback w.wheel.now entry.timer)).bind fun w =>
      fireEntries
        { w with wheel := { w.wheel with numTimers := w.wheel.numTimers - 1 } } entries

def dueHead (w : TWWorld) : TWHead := .slot 0 ((twLevel 0).slotOf w.wheel.now)

/-- One slot of `timer_wheel_set_time`; what its callbacks have put into the same list is lost
with it. -/
def fireSlot (w : TWWorld) : Option TWWorld :=
  (w.fireEntries callback (w.wheel.list w.dueHead)).map fun w' =>
    { w' with wheel := w'.wheel.setList w.dueHead [] }

/-- The end of an iteration: the cascade after the last slot, and the next second. -/
def tick (w : TWWorld) : TWWorld :=
  let wheel := if (twLevel 0).slotOf w.wheel.now = (twLevel 0).num - 1 then w.wheel.cascade
    else w.wheel
  { w with wheel := { wheel with now := (wheel.now + 1) % 2 ^ 64 } }

/-- The loop of `timer_wheel_set_time`, with the number of seconds to go. -/
def setTimeLoop (newNow : Nat) : Nat → TWWorld → Option TWWorld
  | 0, w => some w
  | n + 1, w =>
    (w.fireSlot callback).bind fun w =>
      if w.wheel.numTimers = 0 then some { w with wheel := w.wheel.rebase newNow }
      else setTimeLoop newNow n w.tick

/-- `timer_wheel_set_time`. -/
def setTime (w : TWWorld) (newNow : Nat) : Option TWWorld :=
  if w.wheel.now ≥ newNow then some w
  else if w.wheel.numTimers = 0 then some { w with wheel := w.wheel.rebase newNow }
  else setTimeLoop callback newNow (newNow - w.wheel.now) w

end TWWorld

end SyslogNg.DbParser
