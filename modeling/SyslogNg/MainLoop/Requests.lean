import SyslogNg.MainLoop.Workers

/-!
# Reload and shutdown at any moment

`Inv` ties the globals together: a function waits exactly while jobs are disabled, a new
configuration exists exactly while a reload waits for the jobs, and jobs are enabled again by the
task that the last completion registers. `main_loop_requests_handled`: the runs whose requests do not
come in each other's way.
-/

namespace SyslogNg.MainLoop

open Lib Finset

variable {s s' : MainLoop} {env : ApplyEnv} {f : Fault}

structure Base (s : MainLoop) : Prop where
  running : s.running = s.working.card
  apart : Disjoint s.working s.watched
  pending : s.syncFunc.isSome = s.quit
  disabled : s.quit = true → 0 < s.running ∨ s.reenableJobs = true
  reenable : s.reenableJobs = true → s.quit = true ∧ s.running = 0
  exit : s.syncFunc = some .exitFinish → s.underTermination = true
  timer : s.exitTimer = true → s.underTermination = true
  current : s.initialized.head? = some s.currentConfiguration
  applied : ∀ n ∈ s.applied, n = 0

/-- The configurations, between requests. -/
structure Inv (s : MainLoop) : Prop extends Base s where
  config : s.newConfig.isSome = true → s.oldConfig = some s.currentConfiguration ∧
    s.syncFunc = some .reloadConfigApply ∧ 0 < s.running
  waiting : s.syncFunc = some .reloadConfigApply → 0 < s.running → s.newConfig.isSome = true

def Fine (r : Except Fault MainLoop) : Prop :=
  (∀ s', r = .ok s' → Inv s') ∧ ∀ f, r = .error f → f = .hosed

theorem Fine.ok (h : Inv s) : Fine (.ok s) := by
  refine ⟨fun s' hs => ?_, fun f hf => by cases hf⟩
  cases hs
  exact h

theorem working_eq_empty (h : Base s) (hrun : s.running = 0) : s.working = ∅ :=
  card_eq_zero.1 (h.running.symm.trans hrun)

theorem reloadConfigApply_fine (h : Base s) (hrun : s.running = 0) {old new : Nat}
    (hold : s.oldConfig = some old) (hnew : s.newConfig = some new) :
    Fine (reloadConfigApply env s) := by
  have hempty := working_eq_empty h hrun
  have hnext : ∀ current, Inv { s with
      applied := s.running :: s.applied
      watched := env.watched
      newConfig := none
      oldConfig := none
      currentConfiguration := current
      initialized := current :: s.initialized } := by
    intro current
    refine ⟨⟨h.running, ?_, h.pending, h.disabled, h.reenable, h.exit, h.timer, rfl, ?_⟩, by simp,
      fun _ hpos => absurd hrun (Nat.ne_of_gt hpos)⟩
    · show Disjoint s.working env.watched
      rw [hempty]
      exact disjoint_empty_left _
    · intro n hn
      obtain rfl | hn := List.mem_cons.1 hn
      · exact hrun
      · exact h.applied n hn
  unfold reloadConfigApply
  simp only [hold, hnew]
  split
  · exact .ok (hnext new)
  split
  · exact .ok (hnext old)
  · refine ⟨by simp, fun f hf => ?_⟩
    cases hf
    rfl

theorem exitFinish_inv (h : Inv s) : Inv (exitFinish s) :=
  ⟨⟨h.running, disjoint_empty_right _, h.pending, h.disabled, h.reenable, h.exit, h.timer,
    h.current, h.applied⟩, h.config, h.waiting⟩

theorem reloadConfigInitiate_fine (h : Inv s) {parses : Bool}
    (hexit : parses = true → s.syncFunc ≠ some .exitFinish)
    (hparse : parses = false → s.newConfig = none) :
    Fine (reloadConfigInitiate parses env s) := by
  unfold reloadConfigInitiate
  dsimp only
  cases parses with
  | false =>
    refine .ok ⟨⟨h.running, h.apart, h.pending, h.disabled, h.reenable, h.exit, h.timer, h.current,
      h.applied⟩, by simp, fun hsync hrun => ?_⟩
    have hnew := h.waiting hsync hrun
    rw [hparse rfl] at hnew
    cases hnew
  | true =>
    rw [if_pos rfl]
    have hbase : Base { s with
        oldConfig := some s.currentConfiguration
        newConfig := some s.configs
        configs := s.configs + 1 } :=
      ⟨h.running, h.apart, h.pending, h.disabled, h.reenable, h.exit, h.timer, h.current, h.applied⟩
    unfold ioWorkerSyncCall
    rw [if_pos]
    swap
    · show s.syncFunc = none ∨ s.syncFunc = some .reloadConfigApply
      have hnot := hexit rfl
      cases hsync : s.syncFunc with
      | none => exact .inl rfl
      | some func =>
        cases func with
        | reloadConfigApply => exact .inr rfl
        | exitFinish => exact absurd hsync hnot
    by_cases hrun : s.running = 0
    · rw [if_pos hrun]
      exact reloadConfigApply_fine hbase hrun rfl rfl
    · rw [if_neg hrun]
      exact .ok ⟨⟨h.running, h.apart, rfl, fun _ => .inl (Nat.pos_of_ne_zero hrun),
        fun hre => absurd (h.reenable hre).2 hrun, by simp, h.timer, h.current, h.applied⟩,
        fun _ => ⟨rfl, rfl, Nat.pos_of_ne_zero hrun⟩, fun _ _ => rfl⟩

theorem exitRequest_fine (h : Inv s) (hterm : s.underTermination = true)
    (hsync : s.syncFunc ≠ some .reloadConfigApply) :
    Fine (ioWorkerSyncCall .exitFinish env { s with exitTimer := false }) := by
  have hnew : s.newConfig = none := by
    cases hnew : s.newConfig with
    | none => rfl
    | some new => exact absurd (h.config (by rw [hnew]; rfl)).2.1 hsync
  have hinv : Inv { s with exitTimer := false } :=
    ⟨⟨h.running, h.apart, h.pending, h.disabled, h.reenable, h.exit, by simp, h.current, h.applied⟩,
      h.config, h.waiting⟩
  unfold ioWorkerSyncCall
  rw [if_pos]
  swap
  · show s.syncFunc = none ∨ s.syncFunc = some .exitFinish
    cases hfunc : s.syncFunc with
    | none => exact .inl rfl
    | some func =>
      cases func with
      | exitFinish => exact .inr rfl
      | reloadConfigApply => exact absurd hfunc hsync
  by_cases hrun : s.running = 0
  · rw [if_pos hrun]
    exact .ok (exitFinish_inv hinv)
  · rw [if_neg hrun]
    refine .ok ⟨⟨h.running, h.apart, rfl, fun _ => .inl (Nat.pos_of_ne_zero hrun),
      fun hre => absurd (h.reenable hre).2 hrun, fun _ => hterm, by simp, h.current, h.applied⟩, ?_,
      by simp⟩
    show s.newConfig.isSome = true → _
    rw [hnew]
    simp

theorem ioWorkerJobSubmit_fine (h : Inv s) {job : Nat} (hjob : job ∈ s.watched) :
    Fine (ioWorkerJobSubmit job { s with watched := s.watched.erase job }) := by
  have hnot : job ∉ s.working := disjoint_right.1 h.apart hjob
  unfold ioWorkerJobSubmit
  rw [if_neg hnot]
  by_cases hquit : s.quit = true
  · rw [if_pos hquit]
    exact .ok ⟨⟨h.running, h.apart.mono_right (erase_subset _ _), h.pending, h.disabled,
      h.reenable, h.exit, h.timer, h.current, h.applied⟩, h.config, h.waiting⟩
  · rw [if_neg hquit]
    have hnone : s.syncFunc = none := by
      have := h.pending
      cases hsync : s.syncFunc with
      | none => rfl
      | some func =>
        rw [hsync] at this
        exact absurd this.symm hquit
    refine .ok ⟨⟨?_, ?_, h.pending, fun hq => absurd hq hquit, fun hre => absurd (h.reenable hre).1 hquit,
      h.exit, h.timer, h.current, h.applied⟩, fun hnew => ?_, fun hsync => ?_⟩
    · show s.running + 1 = (insert job s.working).card
      rw [card_insert_of_notMem hnot, h.running]
    · show Disjoint (insert job s.working) (s.watched.erase job)
      exact disjoint_insert_left.2
        ⟨notMem_erase job _, h.apart.mono_right (erase_subset _ _)⟩
    · obtain ⟨hold, hsync, -⟩ := h.config hnew
      exact ⟨hold, hsync, Nat.succ_pos _⟩
    · have hsync : s.syncFunc = some .reloadConfigApply := hsync
      rw [hnone] at hsync
      cases hsync

theorem ioWorkerJobComplete_fine (h : Inv s) {job : Nat} (hjob : job ∈ s.working) (rewatched : Bool) :
    Fine (ioWorkerJobComplete job rewatched env s) := by
  have hcard : (s.working.erase job).card = s.working.card - 1 := card_erase_of_mem hjob
  have hpos : 0 < s.working.card := card_pos.2 ⟨job, hjob⟩
  have hre : s.reenableJobs = false := by
    cases hre : s.reenableJobs with
    | false => rfl
    | true =>
      have := (h.reenable hre).2
      have := h.running
      omega
  -- the watches of the owner run again, or not
  obtain ⟨watched, hwatched, happart⟩ : ∃ watched,
      (if rewatched then
        { s with working := s.working.erase job, running := s.running - 1, watched := insert job s.watched }
      else { s with working := s.working.erase job, running := s.running - 1 }) =
        { s with working := s.working.erase job, running := s.running - 1, watched := watched } ∧
      Disjoint (s.working.erase job) watched := by
    have hsub := h.apart.mono_left (erase_subset job s.working)
    cases rewatched with
    | true => exact ⟨_, rfl, disjoint_insert_right.2 ⟨notMem_erase job _, hsub⟩⟩
    | false => exact ⟨s.watched, rfl, hsub⟩
  have hrunning : s.running - 1 = (s.working.erase job).card := by rw [hcard, h.running]
  unfold ioWorkerJobComplete
  dsimp only
  rw [hwatched]
  dsimp only
  by_cases hlast : (s.quit && decide (s.running - 1 = 0)) = true
  · rw [if_pos hlast]
    rw [Bool.and_eq_true, decide_eq_true_eq] at hlast
    obtain ⟨hquit, hrun⟩ := hlast
    have hbase : Base { s with
        working := s.working.erase job
        running := s.running - 1
        watched := watched
        reenableJobs := true } :=
      ⟨hrunning, happart, h.pending, fun _ => .inr rfl, fun _ => ⟨hquit, hrun⟩, h.exit, h.timer,
        h.current, h.applied⟩
    have hsome := h.pending
    rw [hquit] at hsome
    split
    · next hnone =>
      rw [hnone] at hsome
      cases hsome
    next func hfunc =>
    cases func with
    | reloadConfigApply =>
      obtain ⟨new, hnew⟩ := Option.isSome_iff_exists.1
        (h.waiting hfunc (by rw [h.running]; exact hpos))
      obtain ⟨hold, -⟩ := h.config (by rw [hnew]; rfl)
      exact reloadConfigApply_fine hbase hrun hold hnew
    | exitFinish =>
      refine .ok (exitFinish_inv ⟨hbase, fun hnew => ?_, fun hsync => ?_⟩)
      · cases hfunc.symm.trans (h.config hnew).2.1
      · cases hfunc.symm.trans hsync
  · rw [if_neg hlast]
    rw [Bool.and_eq_true, decide_eq_true_eq] at hlast
    refine .ok ⟨⟨hrunning, happart, h.pending, fun hquit => .inl ?_, fun hr => ?_, h.exit, h.timer,
      h.current, h.applied⟩, fun hnew => ?_, fun hsync hrun => h.waiting hsync ?_⟩
    · exact Nat.pos_of_ne_zero fun hrun => hlast ⟨hquit, hrun⟩
    · cases hre.symm.trans hr
    · obtain ⟨hold, hsync, -⟩ := h.config hnew
      have hquit := h.pending
      rw [hsync] at hquit
      exact ⟨hold, hsync, Nat.pos_of_ne_zero fun hrun => hlast ⟨hquit.symm, hrun⟩⟩
    · rw [h.running]
      exact hpos

theorem step_fine (h : Inv s) {action : Action} {r : Except Fault MainLoop}
    (hs : step s action = some r) (hmeets : action.Meets s) : Fine r := by
  unfold step at hs
  split at hs
  · cases hs
  cases action with
  | sigHup parses env =>
    dsimp only at hs
    split at hs
    · cases hs
      exact .ok h
    next hterm =>
    cases hs
    refine reloadConfigInitiate_fine h (fun _ hsync => hterm (h.exit hsync)) fun hparses => ?_
    obtain hc | hc | hc := hmeets
    · exact absurd hc hterm
    · cases hparses.symm.trans hc
    · exact hc
  | controlReload parses env =>
    cases hs
    cases parses with
    | true => exact reloadConfigInitiate_fine h (fun _ => hmeets) (by simp)
    | false => exact reloadConfigInitiate_fine h (by simp) fun _ => hmeets
  | sigTerm =>
    cases hs
    split
    · exact .ok h
    · exact .ok ⟨⟨h.running, h.apart, h.pending, h.disabled, h.reenable, fun _ => rfl, fun _ => rfl,
        h.current, h.applied⟩, h.config, h.waiting⟩
  | exitTimerElapsed env =>
    dsimp only at hs
    split at hs
    · next htimer =>
      cases hs
      exact exitRequest_fine h (h.timer htimer) hmeets
    · cases hs
  | reenableJobs =>
    dsimp only at hs
    split at hs
    · next hre =>
      cases hs
      have hrun := (h.reenable hre).2
      refine .ok ⟨⟨h.running, h.apart, rfl, by simp [ioWorkerReenableJobs],
        by simp [ioWorkerReenableJobs], by simp [ioWorkerReenableJobs], h.timer, h.current, h.applied⟩, fun hnew => ?_, by
        simp [ioWorkerReenableJobs]⟩
      have := (h.config hnew).2.2
      omega
    · cases hs
  | submit job =>
    dsimp only at hs
    split at hs
    · next hjob =>
      cases hs
      exact ioWorkerJobSubmit_fine h hjob
    · cases hs
  | complete job rewatched env =>
    dsimp only at hs
    split at hs
    · next hjob =>
      cases hs
      exact ioWorkerJobComplete_fine h hjob rewatched
    · cases hs
  | watch job =>
    dsimp only at hs
    split at hs
    · cases hs
    · next hjob =>
      cases hs
      exact .ok ⟨⟨h.running, disjoint_insert_right.2 ⟨hjob, h.apart⟩, h.pending, h.disabled,
        h.reenable, h.exit, h.timer, h.current, h.applied⟩, h.config, h.waiting⟩

theorem Inv.start (watched : Finset Nat) : Inv (mainLoopStart watched) :=
  ⟨⟨rfl, disjoint_empty_left _, rfl, by simp [mainLoopStart], by simp [mainLoopStart],
    by simp [mainLoopStart], by simp [mainLoopStart], rfl, by simp [mainLoopStart]⟩,
    by simp [mainLoopStart], by simp [mainLoopStart]⟩

theorem Inv.run {watched : Finset Nat} {actions : List Action}
    (hrun : Run Next (mainLoopStart watched) actions s) : Inv s :=
  hrun.invariant (fun _ _ _ hn h => (step_fine h hn.1 hn.2).1 _ rfl) (.start watched)

/-- A reload waits for the jobs without its configurations. -/
def Dangling (s : MainLoop) : Prop :=
  s.syncFunc = some .reloadConfigApply ∧ 0 < s.running ∧ s.newConfig = none ∧ s.oldConfig = none

theorem step_not_meets (h : Inv s) {action : Action} {r : Except Fault MainLoop}
    (hs : step s action = some r) (hnot : ¬ action.Meets s) :
    r = .error .syncFuncPending ∨ ∃ s', r = .ok s' ∧ Dangling s' := by
  have hdangling : ∀ env, s.newConfig ≠ none →
      ∃ s', reloadConfigInitiate false env s = .ok s' ∧ Dangling s' := by
    intro env hnew
    obtain ⟨-, hsync, hrun⟩ := h.config (Option.isSome_iff_ne_none.2 hnew)
    exact ⟨_, rfl, hsync, hrun, rfl, rfl⟩
  unfold step at hs
  split at hs
  · cases hs
  cases action with
  | sigHup parses env =>
    simp only [Action.Meets, not_or] at hnot
    obtain ⟨hterm, hparses, hnew⟩ := hnot
    dsimp only at hs
    rw [if_neg hterm] at hs
    cases hs
    rw [Bool.not_eq_true] at hparses
    rw [hparses]
    exact .inr (hdangling env hnew)
  | controlReload parses env =>
    cases hs
    cases parses with
    | true =>
      have hsync : s.syncFunc = some .exitFinish := by
        by_contra hc
        exact hnot hc
      left
      unfold reloadConfigInitiate ioWorkerSyncCall
      dsimp only
      rw [if_pos rfl, hsync, if_neg (by simp)]
    | false => exact .inr (hdangling env hnot)
  | exitTimerElapsed env =>
    dsimp only at hs
    split at hs
    · cases hs
      have hsync : s.syncFunc = some .reloadConfigApply := by
        by_contra hc
        exact hnot hc
      left
      unfold ioWorkerSyncCall
      dsimp only
      rw [hsync, if_neg (by simp)]
    · cases hs
  | sigTerm => exact absurd trivial hnot
  | reenableJobs => exact absurd trivial hnot
  | submit job => exact absurd trivial hnot
  | complete job rewatched env => exact absurd trivial hnot
  | watch job => exact absurd trivial hnot

/-- **Requests are handled safely** in a run whose requests do not come in each other's way: no step
fails an assertion or uses a missing configuration, but for an old configuration that does not
initialise again; a configuration is applied while no job runs; the current one is the last that
initialised; and once the function that waited has run, the task that enables jobs again is
registered. A request that does come in the way of another one fails at once, or leaves a reload
without its configurations. -/
theorem main_loop_requests_handled {watched : Finset Nat} {actions : List Action}
    (hrun : Run Next (mainLoopStart watched) actions s) :
    (∀ action f, action.Meets s → step s action = some (.error f) → f = .hosed) ∧
    (∀ n ∈ s.applied, n = 0) ∧
    s.initialized.head? = some s.currentConfiguration ∧
    (s.syncFunc = some .reloadConfigApply → 0 < s.running →
      s.newConfig.isSome = true ∧ s.oldConfig = some s.currentConfiguration) ∧
    (s.quit = true → s.running = 0 → s.reenableJobs = true) ∧
    (s.reenableJobs = true → s.left = false → ∃ s', step s .reenableJobs = some (.ok s') ∧
      s'.quit = false ∧ s'.syncFunc = none) ∧
    ∀ action r, ¬ action.Meets s → step s action = some r →
      r = .error .syncFuncPending ∨ ∃ s', r = .ok s' ∧ Dangling s' := by
  have h := Inv.run hrun
  refine ⟨fun action f hmeets hs => (step_fine h hs hmeets).2 f rfl, h.applied, h.current,
    fun hsync hpos => ?_, fun hquit hzero => ?_, fun hre hleft => ?_,
    fun action r hnot hs => step_not_meets h hs hnot⟩
  · have hnew := h.waiting hsync hpos
    exact ⟨hnew, (h.config hnew).1⟩
  · obtain hpos | hre := h.disabled hquit
    · omega
    · exact hre
  · refine ⟨ioWorkerReenableJobs s, ?_, rfl, rfl⟩
    unfold step
    rw [if_neg (by rw [hleft]; decide)]
    exact if_pos hre

/-- Both configurations initialise. -/
def initialises : ApplyEnv := ⟨true, true, {0}⟩

/-- A reload that waits for job `0`, applied when that completes. -/
theorem main_loop_requests_handled_reload :
    ∃ s, Run Next (mainLoopStart {0}) [.submit 0, .sigHup true initialises, .complete 0 true initialises] s ∧
      s.currentConfiguration = 1 ∧ s.reenableJobs = true ∧ ∀ n ∈ s.applied, n = 0 := by
  have hrun : ∃ s, Run Next (mainLoopStart {0})
      [.submit 0, .sigHup true initialises, .complete 0 true initialises] s ∧
        s.currentConfiguration = 1 ∧ s.reenableJobs = true :=
    ⟨_, .step ⟨rfl, trivial⟩ (.step ⟨rfl, .inr (.inl rfl)⟩ (.step ⟨rfl, trivial⟩ (.refl _))), rfl, rfl⟩
  obtain ⟨s, hrun, hcurrent, hre⟩ := hrun
  exact ⟨s, hrun, hcurrent, hre, (main_loop_requests_handled hrun).2.1⟩

/-- The steps that come after one another, until one of them fails. -/
def fails (s : MainLoop) : List Action → Option Fault
  | [] => none
  | action :: rest =>
    match step s action with
    | some (.ok s') => fails s' rest
    | some (.error f) => some f
    | none => none

/-- While job `0` runs: a reload and then a termination; a termination and then a reload from the
control channel; a reload, and another one of a file that does not parse. -/
theorem main_loop_requests_collide :
    fails (mainLoopStart {0}) [.submit 0, .sigHup true initialises, .sigTerm,
      .exitTimerElapsed initialises] = some .syncFuncPending ∧
    fails (mainLoopStart {0}) [.submit 0, .sigTerm, .exitTimerElapsed initialises,
      .controlReload true initialises] = some .syncFuncPending ∧
    fails (mainLoopStart {0}) [.submit 0, .sigHup true initialises, .sigHup false initialises,
      .complete 0 true initialises] = some .noConfig := by
  decide

end SyslogNg.MainLoop
