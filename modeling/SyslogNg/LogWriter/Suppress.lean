import SyslogNg.Lib.Run
import SyslogNg.SyslogFormat.Parse

/-!
# Suppressed duplicates (`lib/logwriter.c`)

A message like the one before it is not queued but counted, and a summary is queued instead, when
a different message comes or when the timer of the first duplicate expires.

The timer is a batched one (`lib/ml-batched-timer.c`). Its updates run at once, as they do on the
main thread. An operation is `none` where the code would use a message that is not there.
-/

namespace SyslogNg.LogWriter

open Lib Time Option List
open SyslogFormat (LogMessage NVHandle)

/-- `expires` is in seconds and 0 if the timer is off; `registered` is the time at which the timer
of the main loop expires. -/
structure MlBatchedTimer where
  expires : Nat
  updated : Bool
  registered : Option Nat
  deriving DecidableEq

namespace MlBatchedTimer

/-- `ml_batched_timer_init` of a cleared structure. -/
def init : MlBatchedTimer := ⟨0, true, none⟩

def performUpdate (self : MlBatchedTimer) : MlBatchedTimer :=
  { self with updated := true, registered := if self.expires > 0 then some self.expires else none }

/-- `ml_batched_timer_update`. -/
def update (self : MlBatchedTimer) (nextExpires : Nat) : MlBatchedTimer :=
  let invoke := nextExpires ≠ self.expires ∧ self.updated
  let self := { self with updated := false }
  if invoke then performUpdate { self with expires := nextExpires } else self

def postpone (self : MlBatchedTimer) (now sec : Nat) : MlBatchedTimer := self.update (now + sec)

/-- `ml_batched_timer_cancel`. -/
def cancel (self : MlBatchedTimer) : MlBatchedTimer := self.update 0

end MlBatchedTimer

/-- `markInternal` is `mark_mode == MM_INTERNAL`, `hostname` what `get_local_hostname` returns. -/
structure SuppressOptions where
  suppress : Int
  markInternal : Bool
  hostname : List UInt8

/-- What is told: a message was passed on or suppressed, a summary of a number of duplicates was
queued, a message was queued. -/
inductive SuppressEvent where
  | passed (lm : LogMessage)
  | suppressed (lm : LogMessage)
  | summary (repeated : Int) (m : LogMessage)
  | queued (lm : LogMessage)

/-- The part of a `LogWriter` that duplicates are counted with. `history` is not in the code: it
holds what happened, the newest first. -/
structure SuppressWriter where
  lastMsg : Option LogMessage
  lastMsgCount : Nat
  suppressTimer : MlBatchedTimer
  suppressedMessages : Nat
  history : List SuppressEvent

def suppressWriterNew : SuppressWriter := ⟨none, 0, .init, 0, []⟩

/-- The clocks: `iv_now` in seconds, and the time a new message gets. -/
structure Clocks where
  now : Nat
  recvd : LogStamp

/-- What `strcmp` looks at. -/
def upToNul (text : List UInt8) : List UInt8 := text.takeWhile (· ≠ 0)

/-- `"%d"`. -/
def formatInt (n : Int) : List UInt8 :=
  if n < 0 then 45 :: decimal n.natAbs else decimal n.natAbs

/-- The text of a summary; `%.20s` of the message. -/
def summaryText (message : List UInt8) (repeated : Int) (hostname : List UInt8) : List UInt8 :=
  "Last message '".toUTF8.toList ++ (upToNul message).take 20 ++ "' repeated ".toUTF8.toList ++
    formatInt repeated ++ " times, suppressed by syslog-ng on ".toUTF8.toList ++ hostname

/-- The summary of a number of duplicates of `last`. -/
def summaryMessage (options : SuppressOptions) (recvd : LogStamp) (last : LogMessage)
    (repeated : Int) : LogMessage :=
  let m : LogMessage :=
    { pri := last.pri
      utf8 := false
      isLocal := true
      internal := true
      hasLegacyMsghdr := false
      initialParse := false
      stamp := recvd
      recvd := recvd
      values := fun _ => none
      sdata := [] }
  let m := m.setValue .host (last.getValue .host)
  let m := m.setValue .program (last.getValue .program)
  m.setValue .message (summaryText (last.getValue .message) repeated options.hostname)

def isDuplicate (options : SuppressOptions) (last lm : LogMessage) : Bool :=
  decide (last.recvd.tvSec ≥ lm.recvd.tvSec - options.suppress) &&
    (upToNul (last.getValue .message) == upToNul (lm.getValue .message) &&
      (upToNul (last.getValue .host) == upToNul (lm.getValue .host) &&
        (upToNul (last.getValue .program) == upToNul (lm.getValue .program) &&
          (upToNul (last.getValue .pid) == upToNul (lm.getValue .pid) &&
            upToNul (lm.getValue .message) != "-- MARK --".toUTF8.toList))))

namespace SuppressWriter

def record (self : SuppressWriter) (event : SuppressEvent) : SuppressWriter :=
  { self with history := event :: self.history }

def recordLastMessage (self : SuppressWriter) (lm : LogMessage) : SuppressWriter :=
  { self with lastMsg := some lm, lastMsgCount := 0 }

def releaseLastMessage (self : SuppressWriter) : SuppressWriter :=
  { self with lastMsg := none, lastMsgCount := 0, suppressTimer := self.suppressTimer.cancel }

/-- `log_writer_emit_suppress_summary`; `%d` is given the unsigned counter. -/
def emitSuppressSummary (options : SuppressOptions) (clocks : Clocks) (self : SuppressWriter) :
    Option SuppressWriter :=
  self.lastMsg.map fun last =>
    let repeated := wrap32 self.lastMsgCount
    (self.record (.summary repeated
      (summaryMessage options clocks.recvd last repeated))).releaseLastMessage

/-- `log_writer_suppress_timeout`, run by the main loop, which takes the timer off first. -/
def suppressTimeout (options : SuppressOptions) (clocks : Clocks) (self : SuppressWriter) :
    Option SuppressWriter :=
  { self with suppressTimer := { self.suppressTimer with registered := none } }.emitSuppressSummary
    options clocks

def countDuplicate (options : SuppressOptions) (clocks : Clocks) (self : SuppressWriter) :
    SuppressWriter :=
  let self := { self with
    suppressedMessages := self.suppressedMessages + 1
    lastMsgCount := (self.lastMsgCount + 1) % 2 ^ 32 }
  if self.lastMsgCount = 1 then
    { self with suppressTimer := self.suppressTimer.postpone clocks.now options.suppress.toNat }
  else self

def finishLastMessage (options : SuppressOptions) (clocks : Clocks) (self : SuppressWriter) :
    Option SuppressWriter :=
  if self.lastMsg.isNone then some self
  else if self.lastMsgCount ≠ 0 then self.emitSuppressSummary options clocks
  else some self.releaseLastMessage

def isMsgSuppressed (options : SuppressOptions) (clocks : Clocks) (self : SuppressWriter)
    (lm : LogMessage) : Option (Bool × SuppressWriter) :=
  if options.suppress ≤ 0 then some (false, self.record (.passed lm))
  else if self.lastMsg.any (isDuplicate options · lm) then
    some (true, (self.countDuplicate options clocks).record (.suppressed lm))
  else (self.finishLastMessage options clocks).map fun self =>
    (false, (self.recordLastMessage lm).record (.passed lm))

/-- `log_writer_queue`; `isMark` is `LF_MARK`. -/
def logWriterQueue (options : SuppressOptions) (clocks : Clocks) (self : SuppressWriter)
    (lm : LogMessage) (isMark : Bool) : Option SuppressWriter :=
  (self.isMsgSuppressed options clocks lm).map fun (suppressed, self) =>
    if suppressed then self
    else if !options.markInternal && lm.internal && isMark then self
    else self.record (.queued lm)

end SuppressWriter

/-- A message comes, or the timer expires. -/
inductive SuppressOp where
  | message (clocks : Clocks) (lm : LogMessage) (isMark : Bool)
  | timeout (clocks : Clocks)

def SuppressOp.isMessage : SuppressOp → Bool
  | .message .. => true
  | .timeout _ => false

/-- The timer expires only while it is registered. -/
inductive SuppressStep (options : SuppressOptions) :
    SuppressWriter → SuppressOp → SuppressWriter → Prop where
  | message {s t : SuppressWriter} {clocks : Clocks} {lm : LogMessage} {isMark : Bool}
      (h : s.logWriterQueue options clocks lm isMark = some t) :
      SuppressStep options s (.message clocks lm isMark) t
  | timeout {s t : SuppressWriter} {clocks : Clocks} (harmed : s.suppressTimer.registered.isSome)
      (h : s.suppressTimeout options clocks = some t) :
      SuppressStep options s (.timeout clocks) t

/-! ## What the history tells -/

/-- `n` duplicates of `last` have come since it was recorded. -/
inductive Series (options : SuppressOptions) (last : LogMessage) : Nat → List SuppressEvent → Prop where
  | recorded (older : List SuppressEvent) : Series options last 0 (.passed last :: older)
  | queued {n : Nat} {older : List SuppressEvent} (lm : LogMessage) (h : Series options last n older) :
      Series options last n (.queued lm :: older)
  | duplicate {n : Nat} {older : List SuppressEvent} {lm : LogMessage}
      (hdup : isDuplicate options last lm) (h : Series options last n older) :
      Series options last (n + 1) (.suppressed lm :: older)

/-- Duplicates have come for which there is no summary yet. -/
def Pending (options : SuppressOptions) (history : List SuppressEvent) : Prop :=
  ∃ last n, Series options last (n + 1) history

/-- Every summary tells the number of duplicates of the message it is about, and no message is
passed on before the summary of those before it. -/
def Told (options : SuppressOptions) : List SuppressEvent → Prop
  | [] => True
  | .summary repeated m :: older =>
    (∃ last recvd n, Series options last n older ∧ repeated = (n : Int) ∧
      m = summaryMessage options recvd last n) ∧ Told options older
  | .passed _ :: older => ¬Pending options older ∧ Told options older
  | .suppressed _ :: older => Told options older
  | .queued _ :: older => Told options older

/-- How many messages were passed on. -/
def passedOn : List SuppressEvent → Nat
  | [] => 0
  | .passed _ :: older => passedOn older + 1
  | _ :: older => passedOn older

/-- The duplicates that the summaries tell of. -/
def summed : List SuppressEvent → Int
  | [] => 0
  | .summary repeated _ :: older => summed older + repeated
  | _ :: older => summed older

variable {options : SuppressOptions} {clocks : Clocks} {s t : SuppressWriter}
  {history : List SuppressEvent}

theorem Series.unique {last last' : LogMessage} {n n' : Nat} (h : Series options last n history)
    (h' : Series options last' n' history) : n = n' := by
  induction h generalizing n' with
  | recorded older =>
    cases h'
    rfl
  | queued lm _ ih =>
    cases h' with
    | queued _ h' => exact ih h'
  | duplicate _ _ ih =>
    cases h' with
    | duplicate _ h' => rw [ih h']

theorem Series.not_pending {last : LogMessage} (h : Series options last 0 history) :
    ¬Pending options history := by
  rintro ⟨last', n, h'⟩
  cases h.unique h'

theorem not_pending_summary (repeated : Int) (m : LogMessage) :
    ¬Pending options (.summary repeated m :: history) := by
  rintro ⟨last, n, h⟩
  cases h

theorem not_pending_passed (lm : LogMessage) : ¬Pending options (.passed lm :: history) := by
  rintro ⟨last, n, h⟩
  cases h

variable {lm : LogMessage}

theorem pending_queued (h : Pending options (.queued lm :: history)) :
    Pending options history := by
  obtain ⟨last, n, h⟩ := h
  cases h with
  | queued _ h => exact ⟨last, n, h⟩

/-! ## The timer -/

namespace MlBatchedTimer

variable {timer : MlBatchedTimer}

/-- The main loop has the timer as it is to be; or an update got lost, and it stays off. -/
def Ok (timer : MlBatchedTimer) : Prop :=
  (timer.updated = true ∧
    timer.registered = if timer.expires > 0 then some timer.expires else none) ∨
  (timer.updated = false ∧ timer.registered = none)

theorem init_ok : init.Ok := .inl ⟨rfl, rfl⟩

theorem cancel_ok (h : timer.Ok) : timer.cancel.Ok ∧ timer.cancel.registered = none := by
  unfold cancel update
  rcases h with ⟨hupdated, hreg⟩ | ⟨hupdated, hreg⟩
  · by_cases hz : timer.expires = 0
    · have hno : ¬(0 ≠ timer.expires ∧ timer.updated = true) := fun h => h.1 hz.symm
      rw [if_neg (by omega)] at hreg
      simp only [if_neg hno]
      exact ⟨.inr ⟨rfl, hreg⟩, hreg⟩
    · have hyes : 0 ≠ timer.expires ∧ timer.updated = true := ⟨Ne.symm hz, hupdated⟩
      simp only [if_pos hyes]
      exact ⟨.inl ⟨rfl, rfl⟩, rfl⟩
  · have hno : ¬(0 ≠ timer.expires ∧ timer.updated = true) := fun h => by
      rw [hupdated] at h
      cases h.2
    simp only [if_neg hno]
    exact ⟨.inr ⟨rfl, hreg⟩, hreg⟩

theorem cancel_expired (h : timer.Ok) (hreg : timer.registered.isSome) :
    ({ timer with registered := none } : MlBatchedTimer).cancel.Ok ∧
      ({ timer with registered := none } : MlBatchedTimer).cancel.registered = none := by
  rcases h with ⟨hupdated, h⟩ | ⟨-, h⟩
  · have hz : timer.expires ≠ 0 := by
      intro hz
      rw [h, if_neg (by omega)] at hreg
      cases hreg
    have hyes : 0 ≠ timer.expires ∧ timer.updated = true := ⟨Ne.symm hz, hupdated⟩
    unfold cancel update
    simp only [if_pos hyes]
    exact ⟨.inl ⟨rfl, rfl⟩, rfl⟩
  · rw [h] at hreg
    cases hreg

theorem postpone_ok (h : timer.Ok) (hreg : timer.registered = none) {now sec : Nat} (hsec : 0 < sec) :
    (timer.postpone now sec).Ok := by
  unfold postpone update
  rcases h with ⟨hupdated, h⟩ | ⟨hupdated, h⟩
  · have hz : timer.expires = 0 := by
      by_contra hz
      rw [h, if_pos (by omega)] at hreg
      cases hreg
    have hyes : now + sec ≠ timer.expires ∧ timer.updated = true := ⟨by omega, hupdated⟩
    simp only [if_pos hyes]
    exact .inl ⟨rfl, rfl⟩
  · have hno : ¬(now + sec ≠ timer.expires ∧ timer.updated = true) := fun h => by
      rw [hupdated] at h
      cases h.2
    simp only [if_neg hno]
    exact .inr ⟨rfl, h⟩

end MlBatchedTimer

/-! ## Every message is accounted for -/

namespace SuppressWriter

/-- The messages that are accounted for: passed on, told of in a summary, or counted. -/
def account (s : SuppressWriter) : Int := passedOn s.history + summed s.history + s.lastMsgCount

/-- What the history tells is right, and the counter is that of the last message. -/
structure Counted (options : SuppressOptions) (s : SuppressWriter) : Prop where
  told : Told options s.history
  series : ∀ last, s.lastMsg = some last →
    Series options last s.lastMsgCount s.history ∧ s.lastMsgCount < 2 ^ 31
  idle : s.lastMsg = none → ¬Pending options s.history ∧ s.lastMsgCount = 0
  off : options.suppress ≤ 0 → s.lastMsg = none

/-- The timer runs only while there are duplicates to tell of. -/
structure Armed (s : SuppressWriter) : Prop where
  ok : s.suppressTimer.Ok
  counting : s.suppressTimer.registered.isSome → s.lastMsg.isSome ∧ s.lastMsgCount ≠ 0

theorem new_counted : suppressWriterNew.Counted options where
  told := trivial
  series := fun _ h => nomatch h
  idle := fun _ => ⟨fun ⟨_, _, h⟩ => (nomatch h), rfl⟩
  off := fun _ => rfl

theorem new_armed : suppressWriterNew.Armed := ⟨MlBatchedTimer.init_ok, fun h => nomatch h⟩

theorem emit_spec (clocks : Clocks) (h : s.Counted options) (hlast : s.lastMsg.isSome) :
    ∃ t, s.emitSuppressSummary options clocks = some t ∧ t.Counted options ∧
      t.account = s.account ∧ t.lastMsg = none ∧ t.suppressTimer = s.suppressTimer.cancel := by
  obtain ⟨last, hlast⟩ := isSome_iff_exists.1 hlast
  obtain ⟨hseries, hsmall⟩ := h.series last hlast
  have hwrap : wrap32 s.lastMsgCount = s.lastMsgCount := wrap32_eq_self (by omega)
  unfold emitSuppressSummary
  rw [hlast, map_some, hwrap]
  refine ⟨_, rfl, ⟨?_, fun _ h => (nomatch h), fun _ => ⟨not_pending_summary _ _, rfl⟩, fun _ => rfl⟩,
    ?_, rfl, rfl⟩
  · exact ⟨⟨last, clocks.recvd, s.lastMsgCount, hseries, rfl, rfl⟩, h.told⟩
  · show (passedOn s.history : Int) + (summed s.history + s.lastMsgCount) + 0 = s.account
    unfold account
    omega

theorem finish_spec (clocks : Clocks) (h : s.Counted options) (harmed : s.Armed) :
    ∃ t, s.finishLastMessage options clocks = some t ∧ t.Counted options ∧ t.account = s.account ∧
      t.lastMsg = none ∧ t.suppressTimer.Ok ∧ t.suppressTimer.registered = none := by
  unfold finishLastMessage
  cases hlast : s.lastMsg with
  | none =>
    refine ⟨s, rfl, h, rfl, hlast, harmed.ok, ?_⟩
    by_contra hreg
    have hcounting := harmed.counting (isSome_iff_ne_none.2 hreg)
    rw [hlast] at hcounting
    cases hcounting.1
  | some last =>
    obtain ⟨hok, hoff⟩ := MlBatchedTimer.cancel_ok harmed.ok
    by_cases hcount : s.lastMsgCount = 0
    · refine ⟨s.releaseLastMessage, by simp [hcount], ?_, ?_, rfl, hok, hoff⟩
      · have hseries := (h.series last hlast).1
        rw [hcount] at hseries
        exact ⟨h.told, fun _ h => (nomatch h), fun _ => ⟨hseries.not_pending, rfl⟩, fun _ => rfl⟩
      · show (passedOn s.history : Int) + summed s.history + 0 = s.account
        unfold account
        omega
    · obtain ⟨t, ht, hcounted, haccount, hnone, htimer⟩ :=
        emit_spec clocks h (by rw [hlast]; rfl)
      refine ⟨t, by simpa [hcount] using ht, hcounted, haccount, hnone, ?_⟩
      rw [htimer]
      exact ⟨hok, hoff⟩

/-- There is room for one more duplicate in the counter as it is printed. -/
def CountFits (options : SuppressOptions) (s : SuppressWriter) (lm : LogMessage) : Prop :=
  s.lastMsg.any (isDuplicate options · lm) → s.lastMsgCount + 1 < 2 ^ 31

theorem countDuplicate_fields (s : SuppressWriter) (options : SuppressOptions) (clocks : Clocks) :
    (s.countDuplicate options clocks).lastMsg = s.lastMsg ∧
      (s.countDuplicate options clocks).history = s.history ∧
      (s.countDuplicate options clocks).lastMsgCount = (s.lastMsgCount + 1) % 2 ^ 32 := by
  unfold countDuplicate
  dsimp only
  split
  · exact ⟨rfl, rfl, rfl⟩
  · exact ⟨rfl, rfl, rfl⟩

theorem countDuplicate_spec (clocks : Clocks) (h : s.Counted options)
    (harmed : s.Armed) (hsuppress : 0 < options.suppress)
    (hdup : s.lastMsg.any (isDuplicate options · lm) = true)
    (hfits : s.lastMsgCount + 1 < 2 ^ 31) :
    ((s.countDuplicate options clocks).record (.suppressed lm)).Counted options ∧
      ((s.countDuplicate options clocks).record (.suppressed lm)).Armed ∧
      ((s.countDuplicate options clocks).record (.suppressed lm)).account = s.account + 1 := by
  obtain ⟨last, hlast, hdup⟩ := (any_eq_true _ _).1 hdup
  have hseries := (h.series last hlast).1
  have hcount : s.countDuplicate options clocks =
      { s with
        suppressedMessages := s.suppressedMessages + 1
        lastMsgCount := s.lastMsgCount + 1
        suppressTimer := if s.lastMsgCount = 0 then
          s.suppressTimer.postpone clocks.now options.suppress.toNat else s.suppressTimer } := by
    unfold countDuplicate
    simp only [Nat.mod_eq_of_lt (by omega : s.lastMsgCount + 1 < 2 ^ 32), Nat.add_eq_right]
    split
    · rfl
    · rfl
  rw [hcount]
  refine ⟨⟨h.told, ?_, ?_, h.off⟩, ⟨?_, fun _ => ⟨?_, Nat.succ_ne_zero _⟩⟩, ?_⟩
  · intro last' hlast'
    obtain rfl := some.inj (hlast.symm.trans hlast')
    exact ⟨.duplicate hdup hseries, hfits⟩
  · intro hnone
    exact absurd (hlast.symm.trans hnone) (by simp)
  · show (if s.lastMsgCount = 0 then _ else _ : MlBatchedTimer).Ok
    split
    · next hz =>
      refine MlBatchedTimer.postpone_ok harmed.ok ?_ (by omega)
      by_contra hreg
      exact (harmed.counting (isSome_iff_ne_none.2 hreg)).2 hz
    · exact harmed.ok
  · show s.lastMsg.isSome
    rw [hlast]
    rfl
  · show (passedOn s.history : Int) + summed s.history + (s.lastMsgCount + 1 : Nat) = _
    unfold account
    omega

/-- **One message.** It is passed on or suppressed, and accounted for. -/
theorem isMsgSuppressed_spec (clocks : Clocks) (h : s.Counted options)
    (harmed : s.Armed) (hfits : CountFits options s lm) :
    ∃ suppressed t, s.isMsgSuppressed options clocks lm = some (suppressed, t) ∧
      t.Counted options ∧ t.Armed ∧ t.account = s.account + 1 := by
  unfold isMsgSuppressed
  by_cases hoff : options.suppress ≤ 0
  · have hnone := h.off hoff
    obtain ⟨hidle, hzero⟩ := h.idle hnone
    rw [if_pos hoff]
    refine ⟨false, _, rfl, ⟨⟨hidle, h.told⟩, fun last hlast => ?_, fun _ => ⟨?_, hzero⟩, fun _ => hnone⟩,
      ⟨harmed.ok, harmed.counting⟩, ?_⟩
    · rw [show (s.record (.passed lm)).lastMsg = s.lastMsg from rfl, hnone] at hlast
      cases hlast
    · exact not_pending_passed lm
    · show ((passedOn s.history + 1 : Nat) : Int) + summed s.history + s.lastMsgCount = _
      unfold account
      omega
  rw [if_neg hoff]
  by_cases hdup : s.lastMsg.any (isDuplicate options · lm) = true
  · rw [if_pos hdup]
    obtain ⟨hcounted, harmed', haccount⟩ :=
      countDuplicate_spec clocks h harmed (by omega) hdup (hfits hdup)
    exact ⟨true, _, rfl, hcounted, harmed', haccount⟩
  · rw [if_neg hdup]
    obtain ⟨t, ht, hcounted, haccount, hnone, hok, hreg⟩ := finish_spec clocks h harmed
    rw [ht, map_some]
    refine ⟨false, _, rfl, ⟨?_, ?_, fun h => (nomatch h), fun h => absurd h hoff⟩, ⟨hok, fun h => ?_⟩, ?_⟩
    · exact ⟨(hcounted.idle hnone).1, hcounted.told⟩
    · rintro last hlast
      obtain rfl := some.inj hlast
      exact ⟨.recorded _, Nat.two_pow_pos 31⟩
    · change t.suppressTimer.registered.isSome = true at h
      rw [hreg] at h
      cases h
    · show ((passedOn t.history + 1 : Nat) : Int) + summed t.history + 0 = _
      have hzero := (hcounted.idle hnone).2
      unfold account at haccount ⊢
      omega

theorem queued_spec (lm : LogMessage) (h : s.Counted options) (harmed : s.Armed) :
    (s.record (.queued lm)).Counted options ∧ (s.record (.queued lm)).Armed ∧
      (s.record (.queued lm)).account = s.account := by
  refine ⟨⟨h.told, fun last hlast => ?_, fun hnone => ?_, h.off⟩, ⟨harmed.ok, harmed.counting⟩, rfl⟩
  · obtain ⟨hseries, hsmall⟩ := h.series last hlast
    exact ⟨.queued lm hseries, hsmall⟩
  · obtain ⟨hidle, hzero⟩ := h.idle hnone
    exact ⟨fun hpending => hidle (pending_queued hpending), hzero⟩

theorem logWriterQueue_spec (clocks : Clocks) (isMark : Bool)
    (h : s.Counted options) (harmed : s.Armed) (hfits : CountFits options s lm) :
    ∃ t, s.logWriterQueue options clocks lm isMark = some t ∧ t.Counted options ∧ t.Armed ∧
      t.account = s.account + 1 := by
  obtain ⟨suppressed, t, ht, hcounted, harmed', haccount⟩ :=
    isMsgSuppressed_spec clocks h harmed hfits
  unfold logWriterQueue
  rw [ht, map_some]
  cases suppressed with
  | true => exact ⟨t, rfl, hcounted, harmed', haccount⟩
  | false =>
    by_cases hdrop : (!options.markInternal && lm.internal && isMark) = true
    · exact ⟨t, by simp [hdrop], hcounted, harmed', haccount⟩
    · obtain ⟨hcounted, harmed', hsame⟩ := queued_spec lm hcounted harmed'
      exact ⟨t.record (.queued lm), by simp [hdrop], hcounted, harmed', hsame.trans haccount⟩

/-- **One expiry** of a timer that is armed: there is a message to tell of. -/
theorem suppressTimeout_spec (clocks : Clocks) (h : s.Counted options) (harmed : s.Armed)
    (hreg : s.suppressTimer.registered.isSome) :
    ∃ t, s.suppressTimeout options clocks = some t ∧ t.Counted options ∧ t.Armed ∧
      t.account = s.account := by
  have hfired : ({ s with
      suppressTimer := { s.suppressTimer with registered := none } } : SuppressWriter).Counted
        options := ⟨h.told, h.series, h.idle, h.off⟩
  obtain ⟨t, ht, hcounted, haccount, hnone, htimer⟩ :=
    emit_spec clocks hfired (harmed.counting hreg).1
  obtain ⟨hok, hoff⟩ := MlBatchedTimer.cancel_expired harmed.ok hreg
  rw [← htimer] at hok hoff
  refine ⟨t, ht, hcounted, ⟨hok, fun hreg' => ?_⟩, haccount⟩
  rw [hoff] at hreg'
  cases hreg'

end SuppressWriter

open SuppressWriter

/-- A step that leaves room in the counter. -/
def SuppressNext (options : SuppressOptions) (s : SuppressWriter) (op : SuppressOp)
    (t : SuppressWriter) : Prop :=
  SuppressStep options s op t ∧
    ∀ clocks lm isMark, op = .message clocks lm isMark → CountFits options s lm

/-- The messages of a run. -/
def messagesOf (ops : List SuppressOp) : Nat := ops.countP (·.isMessage)

theorem messagesOf_cons (op : SuppressOp) (ops : List SuppressOp) :
    messagesOf (op :: ops) = messagesOf ops + op.isMessage.toNat := by
  unfold messagesOf
  rw [countP_cons]
  cases op.isMessage <;> rfl

theorem SuppressNext.spec {op : SuppressOp} (h : SuppressNext options s op t)
    (hs : s.Counted options) (harmed : s.Armed) :
    t.Counted options ∧ t.Armed ∧ t.account = s.account + op.isMessage.toNat := by
  obtain ⟨hstep, hfits⟩ := h
  cases hstep with
  | message h =>
    obtain ⟨t', ht, hspec⟩ := logWriterQueue_spec _ _ hs harmed (hfits _ _ _ rfl)
    obtain rfl := some.inj (ht.symm.trans h)
    exact hspec
  | timeout hreg h =>
    obtain ⟨t', ht, hcounted, harmed', haccount⟩ := suppressTimeout_spec _ hs harmed hreg
    obtain rfl := some.inj (ht.symm.trans h)
    exact ⟨hcounted, harmed', haccount.trans (Int.add_zero _).symm⟩

/-- **Every message is accounted for**, every summary tells the duplicates of its message and comes
before the next message, and the timer never expires without a message to tell of. -/
theorem duplicates_accounted {ops : List SuppressOp}
    (h : Run (SuppressNext options) suppressWriterNew ops s) :
    (messagesOf ops : Int) = passedOn s.history + summed s.history + s.lastMsgCount ∧
    Told options s.history ∧
    (∀ clocks lm isMark, CountFits options s lm → (s.logWriterQueue options clocks lm isMark).isSome) ∧
    (s.suppressTimer.registered.isSome → s.lastMsg.isSome ∧
      ∀ clocks, (s.suppressTimeout options clocks).isSome) := by
  have hrun : ∀ {s0 s : SuppressWriter} {ops : List SuppressOp}, Run (SuppressNext options) s0 ops s →
      s0.Counted options → s0.Armed →
      s.Counted options ∧ s.Armed ∧ s.account = s0.account + messagesOf ops := by
    intro s0 s ops h
    induction h with
    | refl => exact fun hs harmed => ⟨hs, harmed, (Int.add_zero _).symm⟩
    | step hnext _ ih =>
      intro hs harmed
      obtain ⟨hs, harmed, haccount⟩ := hnext.spec hs harmed
      obtain ⟨hs, harmed, hrest⟩ := ih hs harmed
      refine ⟨hs, harmed, ?_⟩
      rw [hrest, haccount, messagesOf_cons]
      push_cast
      omega
  obtain ⟨hs, harmed, haccount⟩ := hrun h new_counted new_armed
  refine ⟨?_, hs.told, ?_, ?_⟩
  · have hnew : suppressWriterNew.account = 0 := rfl
    rw [hnew] at haccount
    unfold account at haccount
    omega
  · intro clocks lm isMark hfits
    obtain ⟨t, ht, -⟩ := logWriterQueue_spec clocks isMark hs harmed hfits
    rw [ht]
    rfl
  · refine fun hreg => ⟨(harmed.counting hreg).1, fun clocks => ?_⟩
    obtain ⟨t, ht, -⟩ := suppressTimeout_spec clocks hs harmed hreg
    rw [ht]
    rfl

/-- Duplicates are suppressed for ten seconds. -/
def tenSeconds : SuppressOptions := ⟨10, true, [104]⟩

def someTime : Clocks := ⟨100, ⟨1325376000, 0, 0⟩⟩

def blankMessage : LogMessage where
  pri := 13
  utf8 := false
  isLocal := false
  internal := false
  hasLegacyMsghdr := false
  initialParse := false
  stamp := someTime.recvd
  recvd := someTime.recvd
  values := fun _ => none
  sdata := []

def blankOp : SuppressOp := .message someTime blankMessage false

theorem duplicates_accounted_twice : ∃ s,
    Run (SuppressNext tenSeconds) suppressWriterNew [blankOp, blankOp, .timeout someTime] s ∧
    (2 : Int) = passedOn s.history + summed s.history + s.lastMsgCount := by
  have hsome : ((suppressWriterNew.logWriterQueue tenSeconds someTime blankMessage false).bind fun s =>
      (s.logWriterQueue tenSeconds someTime blankMessage false).bind fun t =>
        (t.suppressTimeout tenSeconds someTime).map fun _ =>
          (s.lastMsgCount, t.suppressTimer.registered.isSome)) = some (0, true) := by
    decide +kernel
  obtain ⟨s, hs, hsome⟩ := bind_eq_some_iff.1 hsome
  obtain ⟨t, ht, hsome⟩ := bind_eq_some_iff.1 hsome
  obtain ⟨u, hu, heq⟩ := map_eq_some_iff.1 hsome
  obtain ⟨hcount, harmed⟩ := Prod.mk.inj heq
  have hfirst : SuppressNext tenSeconds suppressWriterNew blankOp s := by
    refine ⟨.message hs, fun clocks lm isMark _ hdup => ?_⟩
    cases hdup
  have hsecond : SuppressNext tenSeconds s blankOp t := by
    refine ⟨.message ht, fun clocks lm isMark _ _ => ?_⟩
    rw [hcount]
    decide
  have hthird : SuppressNext tenSeconds t (.timeout someTime) u :=
    ⟨.timeout harmed hu, fun _ _ _ h => nomatch h⟩
  have hrun := Run.step hfirst (.step hsecond (.single hthird))
  exact ⟨u, hrun, (duplicates_accounted hrun).1⟩

theorem blank_series (n : Nat) : ∃ s,
    Run (SuppressStep tenSeconds) suppressWriterNew (blankOp :: replicate n blankOp) s ∧
    s.lastMsg = some blankMessage ∧ s.lastMsgCount = n % 2 ^ 32 ∧ passedOn s.history = 1 ∧
    summed s.history = 0 := by
  induction n with
  | zero =>
    exact ⟨_, .single (.message rfl), rfl, rfl, rfl, rfl⟩
  | succ n ih =>
    obtain ⟨s, hrun, hlast, hcount, hpassed, hsummed⟩ := ih
    have hdup : s.lastMsg.any (isDuplicate tenSeconds · blankMessage) = true := by
      rw [hlast]
      decide +kernel
    have hstep : s.logWriterQueue tenSeconds someTime blankMessage false =
        some ((s.countDuplicate tenSeconds someTime).record (.suppressed blankMessage)) := by
      unfold SuppressWriter.logWriterQueue SuppressWriter.isMsgSuppressed
      rw [if_neg (by decide), if_pos hdup]
      rfl
    obtain ⟨hsame, hhistory, hnext⟩ := s.countDuplicate_fields tenSeconds someTime
    refine ⟨(s.countDuplicate tenSeconds someTime).record (.suppressed blankMessage), ?_,
      hsame.trans hlast, ?_, ?_, ?_⟩
    · rw [replicate_succ', ← cons_append]
      exact hrun.trans (.single (.message hstep))
    · show (s.countDuplicate tenSeconds someTime).lastMsgCount = _
      rw [hnext, hcount]
      omega
    · show passedOn (s.countDuplicate tenSeconds someTime).history = 1
      rw [hhistory, hpassed]
    · show summed (s.countDuplicate tenSeconds someTime).history = 0
      rw [hhistory, hsummed]

/-- The counter of the duplicates has 32 bits. -/
theorem duplicates_lost : ∃ ops s, Run (SuppressStep tenSeconds) suppressWriterNew ops s ∧
    (messagesOf ops : Int) ≠ passedOn s.history + summed s.history + s.lastMsgCount := by
  obtain ⟨s, hrun, -, hcount, hpassed, hsummed⟩ := blank_series (2 ^ 32)
  refine ⟨_, s, hrun, ?_⟩
  have hmessages : messagesOf (blankOp :: replicate (2 ^ 32) blankOp) = 2 ^ 32 + 1 := by
    rw [messagesOf_cons, messagesOf, countP_replicate]
    rfl
  rw [hmessages, hpassed, hsummed, hcount, Nat.mod_self]
  decide

end SyslogNg.LogWriter
