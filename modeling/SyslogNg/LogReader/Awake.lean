import SyslogNg.LogReader.Reader

/-!
# A reader with work to do is awake

What the callbacks of a reader keep, whatever the protocol server does: a job starts with room in the
window, and a reader that is not in a job and has room waits for input, for its own task or for a
wakeup. That it does not wait for input with a complete message in the buffer rests on what `prepare`
tells (`Lawful.told`), in runs that keep to what the server is good for.
-/

namespace SyslogNg.LogReader

open Lib LogProto

variable {P E : Type} {server : ProtoServer P E} {options : LogReaderOptions}
  {r r' : LogReader P}

/-- The states in which the server tells of a complete message in its buffer, and the fetches that
keep it in one of them. -/
structure Lawful (server : ProtoServer P E) (Good : P → Prop) (Meets : P → E → Prop) : Prop where
  fetch : ∀ {proto mayRead env status msg proto'}, Good proto → Meets proto env →
    server.fetch proto mayRead env = some (status, msg, proto') →
    status = .success ∨ server.outlivesError = true → Good proto'
  queued : ∀ {proto}, Good proto → Good (server.queued proto)
  resetError : ∀ {proto}, Good proto → Good (server.resetError proto)
  told : ∀ {proto}, Good proto → server.HoldsMessage proto → server.prepare proto = true

/-- An input handler, the follow timer or the restart task is armed. -/
def Armed (r : LogReader P) : Prop :=
  (r.fdWatch = true ∧ r.fdHandler = true) ∨ r.followTimer = true ∨ r.restartTask = true

structure Registered (options : LogReaderOptions) (r : LogReader P) : Prop where
  follows : 0 < options.followFreq → r.fdWatch = false
  polls : options.followFreq = 0 → r.fdWatch = true ∧ r.followTimer = false
  restart : r.restartTask = true → 0 < r.windowSize

/-- A suspended reader is woken up when there is room; any other one has room, and waits for input
when there is no message to take. -/
structure Watching (server : ProtoServer P E) (options : LogReaderOptions) (told : Prop)
    (r : LogReader P) : Prop extends Registered options r where
  suspended : r.suspended = true →
    (0 < r.windowSize → r.wakeupPosted = true) ∧ ¬ Armed r
  awake : r.suspended = false → 0 < r.windowSize ∧
    (r.restartTask = true ∨ Armed r ∧ (told → ¬ server.HoldsMessage r.proto))

/-- The invariant; `told` stands for a run that has kept to what the server is good for. -/
structure Inv (server : ProtoServer P E) (options : LogReaderOptions) (Good : P → Prop)
    (told : Prop) (r : LogReader P) : Prop where
  good : told → r.initialized = true →
    (∀ code, r.job = .performed (some code) → server.outlivesError = true) → Good r.proto
  busy : r.job ≠ .idle →
    r.initialized = true ∧ r.fdWatch = false ∧ r.followTimer = false ∧
      r.restartTask = false
  room : ∀ msgCount, r.job = .fetching msgCount → 0 < r.windowSize
  idle : r.job = .idle → r.initialized = true → Watching server options told r
  gone : r.initialized = false →
    r.fdWatch = false ∧ r.followTimer = false ∧ r.restartTask = false ∧
      r.wakeupPosted = false

section

variable {Good : P → Prop} {Meets : P → E → Prop} {told : Prop}

theorem disableWatches_spec (hreg : Registered options r) (hsusp : r.suspended = false) :
    Watching server options told (disableWatches r) := by
  unfold disableWatches
  dsimp only
  split
  · next hfree =>
    have hroom : 0 < r.windowSize := by simpa [freeToSend] using hfree
    exact ⟨⟨hreg.follows, fun h => ⟨(hreg.polls h).1, rfl⟩, fun _ => hroom⟩,
      fun h => absurd (hsusp.symm.trans h) (by decide), fun _ => ⟨hroom, .inl rfl⟩⟩
  · next hfree =>
    have hfull : ¬ 0 < r.windowSize := by simpa [freeToSend] using hfree
    refine ⟨⟨hreg.follows, fun h => ⟨(hreg.polls h).1, rfl⟩, hreg.restart⟩,
      fun _ => ⟨fun h => absurd h hfull, ?_⟩, by simp⟩
    rintro (⟨hw, hh⟩ | ht | ht)
    · have hw : r.fdWatch = true := hw
      simp [hw] at hh
    · cases ht
    · exact hfull (hreg.restart ht)

theorem enableWatches_spec (hreg : Registered options r) (hsusp : r.suspended = false)
    (hroom : 0 < r.windowSize) (hnone : told → ¬ server.HoldsMessage r.proto) :
    Watching server options told (enableWatches options r) := by
  have hnot : ∀ {p : Prop}, r.suspended = true → p := fun h =>
    absurd (hsusp.symm.trans h) (by decide)
  unfold enableWatches
  split
  · next hw =>
    exact ⟨⟨hreg.follows, hreg.polls, hreg.restart⟩, hnot, fun _ => ⟨hroom, .inr ⟨.inl ⟨hw, rfl⟩, hnone⟩⟩⟩
  next hw =>
  have hfollow : 0 < options.followFreq := by
    by_contra hc
    exact hw (hreg.polls (by omega)).1
  rw [if_pos hfollow]
  exact ⟨⟨hreg.follows, fun h => by omega, hreg.restart⟩, hnot,
    fun _ => ⟨hroom, .inr ⟨.inr (.inl rfl), hnone⟩⟩⟩

theorem disableWatches_keeps (r : LogReader P) :
    (disableWatches r).job = r.job ∧ (disableWatches r).proto = r.proto ∧
      (disableWatches r).initialized = r.initialized := by
  unfold disableWatches
  dsimp only
  split <;> exact ⟨rfl, rfl, rfl⟩

theorem enableWatches_keeps (options : LogReaderOptions) (r : LogReader P) :
    (enableWatches options r).job = r.job ∧ (enableWatches options r).proto = r.proto ∧
      (enableWatches options r).initialized = r.initialized := by
  unfold enableWatches
  split
  · exact ⟨rfl, rfl, rfl⟩
  · split <;> exact ⟨rfl, rfl, rfl⟩

theorem updateWatches_spec (hlaw : Lawful server Good Meets) (hreg : Registered options r)
    (hgood : told → Good r.proto) :
    Watching server options told (updateWatches server options r) ∧
      (updateWatches server options r).job = r.job ∧ (updateWatches server options r).proto = r.proto ∧
      (updateWatches server options r).initialized = r.initialized := by
  have hreg' : Registered options { r with suspended := false } :=
    ⟨hreg.follows, hreg.polls, hreg.restart⟩
  unfold updateWatches
  dsimp only
  split
  · exact ⟨disableWatches_spec hreg' rfl, disableWatches_keeps _⟩
  · next hwait =>
    simp only [Bool.or_eq_true, Bool.not_eq_true', not_or, Bool.not_eq_false, Bool.not_eq_true]
      at hwait
    obtain ⟨⟨hfree, -⟩, hprep⟩ := hwait
    have hroom : 0 < r.windowSize := by simpa [freeToSend] using hfree
    refine ⟨enableWatches_spec hreg' rfl hroom fun ht hm => ?_, enableWatches_keeps _ _⟩
    cases hprep.symm.trans (hlaw.told (hgood ht) hm)

theorem Inv.updated (hlaw : Lawful server Good Meets) (hreg : Registered options r)
    (hgood : told → Good r.proto) (hinit : r.initialized = true) (hidle : r.job = .idle) :
    Inv server options Good told (updateWatches server options r) := by
  obtain ⟨hwatching, hjob, hproto, hi⟩ := updateWatches_spec hlaw hreg hgood
  refine ⟨fun ht _ _ => by rw [hproto]; exact hgood ht, fun hne => absurd (hjob.trans hidle) hne,
    fun n hn => ?_, fun _ _ => hwatching, fun hg => ?_⟩
  · rw [hjob, hidle] at hn
    cases hn
  · rw [hi, hinit] at hg
    cases hg

theorem startWatches_spec (hlaw : Lawful server Good Meets) (hfd : r.fdWatch = false)
    (htimer : r.followTimer = false) (htask : r.restartTask = false) (hgood : told → Good r.proto)
    (hinit : r.initialized = true) (hidle : r.job = .idle) :
    ∃ r', startWatches server options r = .ok r' ∧ Inv server options Good told r' := by
  unfold startWatches
  by_cases hfollow : 0 < options.followFreq
  · rw [if_pos hfollow, htimer, if_neg (by decide)]
    exact ⟨_, rfl, .updated hlaw ⟨fun _ => hfd, fun h => by omega, fun h => by
      cases htask.symm.trans h⟩ hgood hinit hidle⟩
  · rw [if_neg hfollow, hfd, if_neg (by decide)]
    exact ⟨_, rfl, .updated hlaw ⟨fun h => absurd h hfollow, fun _ => ⟨rfl, htimer⟩, fun h => by
      cases htask.symm.trans h⟩ hgood hinit hidle⟩

theorem ioProcessInput_spec (hgood : told → Good r.proto) (hinit : r.initialized = true)
    (hidle : r.job = .idle) (hroom : 0 < r.windowSize) :
    ∃ r', ioProcessInput r = .ok r' ∧ Inv server options Good told r' := by
  unfold ioProcessInput
  dsimp only
  rw [if_pos (show (stopWatches r).job = .idle from hidle)]
  refine ⟨_, rfl, ⟨fun ht _ _ => hgood ht, fun _ => ⟨hinit, rfl, rfl, rfl⟩, fun _ _ => hroom, by simp,
    fun hg => ?_⟩⟩
  cases hinit.symm.trans hg

theorem Inv.continue (h : Inv server options Good told r) (hbusy : r.job ≠ .idle) {next : LogReader P}
    (hgood : told → (∀ code, next.job = .performed (some code) → server.outlivesError = true) →
      Good next.proto) (hwatches : next.fdWatch = r.fdWatch ∧ next.followTimer = r.followTimer ∧
      next.restartTask = r.restartTask ∧ next.initialized = r.initialized) (hjob : next.job ≠ .idle)
    (hroom : ∀ msgCount, next.job = .fetching msgCount → 0 < next.windowSize) :
    Inv server options Good told next := by
  obtain ⟨hinit, hfd, htimer, htask⟩ := h.busy hbusy
  obtain ⟨h1, h2, h3, h4⟩ := hwatches
  refine ⟨fun ht _ hc => hgood ht hc, fun _ => ⟨h4.trans hinit, h1.trans hfd, h2.trans htimer,
    h3.trans htask⟩, hroom, fun hi => absurd hi hjob, fun hg => ?_⟩
  cases (h4.trans hinit).symm.trans hg

theorem fetchDone_keeps (server : ProtoServer P E) (options : LogReaderOptions) (msgCount : Nat)
    (r : LogReader P) :
    (fetchDone server options msgCount r).proto = r.proto ∧
      ((fetchDone server options msgCount r).fdWatch = r.fdWatch ∧
        (fetchDone server options msgCount r).followTimer = r.followTimer ∧
        (fetchDone server options msgCount r).restartTask = r.restartTask ∧
        (fetchDone server options msgCount r).initialized = r.initialized) ∧
      (fetchDone server options msgCount r).job = .performed none := by
  unfold fetchDone
  split <;> exact ⟨rfl, ⟨rfl, rfl, rfl, rfl⟩, rfl⟩

/-- What a run keeps to: the fetches that the server is good for, and no message in the buffer that
the driver restores behind the back of the reader. -/
def Action.Keeps (server : ProtoServer P E) (Good : P → Prop) (Meets : P → E → Prop)
    (r : LogReader P) : Action P E → Prop
  | .fetch env => Meets r.proto env
  | .restart proto => Good proto ∧ ¬ server.HoldsMessage proto
  | _ => True

theorem fetchLog_spec (hlaw : Lawful server Good Meets) (h : Inv server options Good told r)
    {msgCount : Nat} (hjob : r.job = .fetching msgCount) {env : E} (hmeets : told → Meets r.proto env)
    {res : Except Fault (LogReader P)} (hs : fetchLog server options msgCount env r = some res) :
    ∃ r', res = .ok r' ∧ Inv server options Good told r' := by
  have hne : r.job ≠ .idle := by rw [hjob]; simp
  obtain ⟨hinit, hfd, htimer, htask⟩ := h.busy hne
  have hdone : ∀ {proto}, (told → Good proto) → Inv server options Good told
      (fetchDone server options msgCount { r with proto := proto }) := by
    intro proto hg
    obtain ⟨hp, hw, hj⟩ := fetchDone_keeps server options msgCount
      { r with proto := proto }
    exact h.continue hne (fun ht _ => by rw [hp]; exact hg ht) hw (by rw [hj]; simp)
      (fun n hn => by rw [hj] at hn; cases hn)
  have hnow : told → Good r.proto := fun ht => h.good ht hinit fun code hc => by
    rw [hjob] at hc
    cases hc
  unfold fetchLog at hs
  split at hs
  swap
  · cases hs
    exact ⟨_, rfl, hdone hnow⟩
  obtain ⟨⟨status, msg, proto⟩, hfetch, rfl⟩ := Option.map_eq_some_iff.1 hs
  have hgood : status = .success ∨ server.outlivesError = true → told → Good proto :=
    fun hst ht => hlaw.fetch (hnow ht) (hmeets ht) hfetch hst
  have hfailed : ∀ code, Inv server options Good told
      { r with proto := proto, job := .performed (some code) } := fun code =>
    h.continue hne (fun ht hc => hgood (.inr (hc code rfl)) ht) ⟨rfl, rfl, rfl, rfl⟩ (by simp) (by simp)
  cases status with
  | error => exact ⟨_, rfl, hfailed .readError⟩
  | eof => exact ⟨_, rfl, hfailed .close⟩
  | success =>
    cases msg with
    | none => exact ⟨_, rfl, hdone (hgood (.inl rfl))⟩
    | some msg =>
      dsimp only
      split
      · have hroom := h.room msgCount hjob
        unfold sourceQueue
        rw [if_neg (show ¬ r.windowSize = 0 by omega)]
        exact ⟨_, rfl, h.continue hne (fun ht _ => hgood (.inl rfl) ht) ⟨rfl, rfl, rfl, rfl⟩ (by simp)
          (by simp)⟩
      · exact ⟨_, rfl, h.continue hne (fun ht _ => hlaw.queued (hgood (.inl rfl) ht))
          ⟨rfl, rfl, rfl, rfl⟩ hne fun n hn => h.room n hn⟩

theorem lineHandled_spec (hlaw : Lawful server Good Meets) (h : Inv server options Good told r)
    {msgCount : Nat} (hjob : r.job = .queueing msgCount) :
    Inv server options Good told (lineHandled server options msgCount r) := by
  have hne : r.job ≠ .idle := by rw [hjob]; simp
  have hnow : told → Good (server.queued r.proto) := fun ht =>
    hlaw.queued (h.good ht (h.busy hne).1 fun code hc => by rw [hjob] at hc; cases hc)
  unfold lineHandled
  dsimp only
  split
  · next hfree =>
    exact h.continue hne (fun ht _ => hnow ht) ⟨rfl, rfl, rfl, rfl⟩ (by simp)
      fun n _ => by simpa [freeToSend] using hfree
  · obtain ⟨hp, hw, hj⟩ := fetchDone_keeps server options msgCount
      { r with proto := server.queued r.proto }
    exact h.continue hne (fun ht _ => by rw [hp]; exact hnow ht) hw (by rw [hj]; simp)
      (fun n hn => by rw [hj] at hn; cases hn)

theorem workFinished_spec (hlaw : Lawful server Good Meets) (h : Inv server options Good told r)
    {notifyCode : Option NotifyCode} (hjob : r.job = .performed notifyCode) :
    ∃ r', workFinished server options notifyCode r = .ok r' ∧ Inv server options Good told r' := by
  have hne : r.job ≠ .idle := by rw [hjob]; simp
  obtain ⟨hinit, hfd, htimer, htask⟩ := h.busy hne
  unfold workFinished
  dsimp only
  split
  · exact ⟨_, rfl, ⟨by simp, by simp [stopWatches], by simp [stopWatches], by simp,
      fun _ => ⟨rfl, rfl, rfl, rfl⟩⟩⟩
  next hstays =>
  refine startWatches_spec hlaw hfd htimer htask (fun ht => hlaw.resetError ?_) hinit rfl
  refine h.good ht hinit fun code hc => ?_
  rw [hjob] at hc
  cases hc
  simpa using hstays

theorem msgAck_inv (h : Inv server options Good told r) : Inv server options Good told (msgAck r) := by
  refine ⟨h.good, h.busy, fun _ _ => Nat.succ_pos _, fun hidle hinit => ?_, fun hg => ?_⟩
  · have hw := h.idle hidle hinit
    refine ⟨⟨hw.follows, hw.polls, fun _ => Nat.succ_pos _⟩, fun hsusp => ⟨fun _ => ?_, ?_⟩,
      fun hsusp => ⟨Nat.succ_pos _, (hw.awake hsusp).2⟩⟩
    · have hinit : r.initialized = true := hinit
      simp only [msgAck, hinit, Bool.and_true, Bool.or_eq_true, decide_eq_true_eq]
      by_cases hroom : 0 < r.windowSize
      · exact .inl ((hw.suspended hsusp).1 hroom)
      · exact .inr (by omega)
    · exact (hw.suspended hsusp).2
  · obtain ⟨h1, h2, h3, h4⟩ := h.gone hg
    have hg : r.initialized = false := hg
    exact ⟨h1, h2, h3, by simp [msgAck, h4, hg]⟩

theorem wakeupTriggered_inv (hlaw : Lawful server Good Meets) (h : Inv server options Good told r)
    (hposted : r.wakeupPosted = true) (hfree : MainFree options r) :
    Inv server options Good told (wakeupTriggered server options r) := by
  have hinit : r.initialized = true := by
    cases hinit : r.initialized with
    | true => rfl
    | false => cases hposted.symm.trans (h.gone hinit).2.2.2
  unfold wakeupTriggered
  dsimp only
  split
  · next hcond =>
    simp only [Bool.and_eq_true, Bool.not_eq_true', Bool.and_eq_false_iff, decide_eq_false_iff_not,
      ne_eq, Classical.not_not] at hcond
    obtain ⟨hwork, hsusp⟩ := hcond
    have hidle : r.job = .idle := by
      obtain ht | hj := hwork
      · exact hfree.resolve_left (by rw [ht]; simp)
      · exact hj
    have hw := h.idle hidle hinit
    refine .updated hlaw ⟨hw.follows, hw.polls, hw.restart⟩ (fun ht => h.good ht hinit fun c hc => ?_)
      hinit hidle
    rw [hidle] at hc
    cases hc
  · next hcond =>
    refine ⟨h.good, h.busy, h.room, fun hidle _ => ?_, fun hg => ?_⟩
    · have hidle : r.job = .idle := hidle
      have hw := h.idle hidle hinit
      have hsusp : r.suspended = false := by simpa [hidle] using hcond
      exact ⟨⟨hw.follows, hw.polls, hw.restart⟩,
        fun hs => absurd (hsusp.symm.trans hs) (by decide), hw.awake⟩
    · cases hinit.symm.trans hg

theorem step_inv (hlaw : Lawful server Good Meets) (h : Inv server options Good told r)
    {action : Action P E} (hkeeps : told → action.Keeps server Good Meets r)
    {res : Except Fault (LogReader P)} (hs : step server options r action = some res) :
    ∃ r', res = .ok r' ∧ Inv server options Good told r' := by
  -- a handler or a timer is registered: the reader is initialised, and not in a job
  have hquiet : Armed r → r.initialized = true ∧ r.job = .idle := by
    intro harmed
    constructor
    · cases hinit : r.initialized with
      | true => rfl
      | false =>
        obtain ⟨h1, h2, h3, -⟩ := h.gone hinit
        obtain ⟨hw, -⟩ | hw | hw := harmed
        · cases h1.symm.trans hw
        · cases h2.symm.trans hw
        · cases h3.symm.trans hw
    · by_contra hne
      obtain ⟨-, h1, h2, h3⟩ := h.busy hne
      obtain ⟨hw, -⟩ | hw | hw := harmed
      · cases h1.symm.trans hw
      · cases h2.symm.trans hw
      · cases h3.symm.trans hw
  have hnow : Armed r → told → Good r.proto := fun ha ht =>
    h.good ht (hquiet ha).1 fun code hc => by
      rw [(hquiet ha).2] at hc
      cases hc
  have hroom : Armed r → 0 < r.windowSize := by
    intro ha
    obtain ⟨hinit, hidle⟩ := hquiet ha
    have hw := h.idle hidle hinit
    cases hsusp : r.suspended with
    | false => exact (hw.awake hsusp).1
    | true => exact absurd ha (hw.suspended hsusp).2
  cases action with
  | ioEvent =>
    dsimp only [step] at hs
    split at hs
    swap
    · cases hs
    next hcond =>
    cases hs
    have ha : Armed r := .inl hcond.2
    exact ioProcessInput_spec (hnow ha) (hquiet ha).1 (hquiet ha).2 (hroom ha)
  | followTimer hasData =>
    dsimp only [step] at hs
    split at hs
    swap
    · cases hs
    next hcond =>
    have ha : Armed r := .inr (.inl hcond.2)
    cases hs
    cases hasData with
    | true =>
      exact ioProcessInput_spec (r := { r with followTimer := false }) (hnow ha) (hquiet ha).1
        (hquiet ha).2 (hroom ha)
    | false =>
      have hw := h.idle (hquiet ha).2 (hquiet ha).1
      exact ⟨_, rfl, .updated hlaw ⟨hw.follows, fun hp => ⟨(hw.polls hp).1, rfl⟩, hw.restart⟩ (hnow ha)
        (hquiet ha).1 (hquiet ha).2⟩
  | restartTask =>
    dsimp only [step] at hs
    split at hs
    swap
    · cases hs
    next hcond =>
    have ha : Armed r := .inr (.inr hcond.2)
    cases hs
    exact ioProcessInput_spec (r := { r with restartTask := false }) (hnow ha) (hquiet ha).1
      (hquiet ha).2 (hroom ha)
  | fetch env =>
    dsimp only [step] at hs
    split at hs
    · next msgCount hjob => exact fetchLog_spec hlaw h hjob hkeeps hs
    · cases hs
  | lineHandled =>
    dsimp only [step] at hs
    split at hs
    · next msgCount hjob =>
      cases hs
      exact ⟨_, rfl, lineHandled_spec hlaw h hjob⟩
    · cases hs
  | workFinished =>
    dsimp only [step] at hs
    split at hs
    · next notifyCode hjob =>
      cases hs
      exact workFinished_spec hlaw h hjob
    · cases hs
  | msgAck =>
    dsimp only [step] at hs
    split at hs
    · cases hs
      exact ⟨_, rfl, msgAck_inv h⟩
    · cases hs
  | wakeupTriggered =>
    dsimp only [step] at hs
    split at hs
    · next hcond =>
      cases hs
      exact ⟨_, rfl, wakeupTriggered_inv hlaw h hcond.2 hcond.1⟩
    · cases hs
  | restart proto =>
    dsimp only [step] at hs
    split at hs
    swap
    · cases hs
    next hidle =>
    cases hs
    refine ⟨_, rfl, ⟨fun ht _ _ => (hkeeps ht).1, h.busy, h.room, fun hi hinit => ?_, h.gone⟩⟩
    have hw := h.idle hi hinit
    refine ⟨⟨hw.follows, hw.polls, hw.restart⟩, hw.suspended, fun hsusp => ?_⟩
    obtain ⟨hroom, hcase⟩ := hw.awake hsusp
    exact ⟨hroom, hcase.imp id fun hc => ⟨hc.1, fun ht => (hkeeps ht).2⟩⟩

end

end SyslogNg.LogReader
