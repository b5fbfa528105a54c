import Mathlib.Tactic

/-!
# A graph of pipes (`lib/logpipe.h`, `lib/logmpx.c`)

`logPipeQueue` sends a message into a graph of pipes and tells which destination drivers it comes to. A
`Route` is what a pipe does with a message; `Runs` says that a pipe of a graph does it.
-/

namespace SyslogNg.CfgTree

open Option (bind_some map_eq_some_iff map_some)

variable {M : Type}

/-- A pipe: one that the parser makes, or one that comes later. -/
inductive PipeId where
  | object (n : Nat)
  | made (n : Nat)
  deriving DecidableEq, Repr

/-- `PIF_BRANCH_FALLBACK`, `PIF_BRANCH_FINAL` and `PIF_HARD_FLOW_CONTROL`. -/
structure BranchFlags where
  fallback : Bool
  final : Bool
  hardFlowControl : Bool
  deriving DecidableEq, Repr

def BranchFlags.none : BranchFlags := ⟨false, false, false⟩

/-- A pipe that the parser makes. A destination driver that sets `pipe_next` to its writer when it is
initialized does not keep what comes after it. A filter, a parser or a rewrite rule passes a message
on, or drops it; `clone` is what its clone does. -/
inductive ObjectKind (M : Type) where
  | source
  | destination (id : Nat) (keepsNext : Bool)
  | process (process : M → Option M) (clone : Option (M → Option M))

inductive PipeKind (M : Type) where
  /-- `queue` is `NULL`. -/
  | forward
  | object (kind : ObjectKind M)
  | multiplexer (nextHops : List PipeId)

structure LogPipe (M : Type) where
  kind : PipeKind M
  /-- `PIF_INLINED`. -/
  inlined : Bool
  flags : BranchFlags
  pipeNext : Option PipeId

/-- A message that comes to a destination driver, and whether flow control is requested. -/
structure Delivery (M : Type) where
  destination : Nat
  msg : M
  flowControl : Bool
  deriving DecidableEq, Repr

/-! ## Queueing -/

/-- The inner loop of `log_multiplexer_queue`: the deliveries, and `delivered`. -/
def hopLoop (queue : PipeId → Option (List (Delivery M) × Bool)) (flags : PipeId → BranchFlags)
    (fallback : Bool) : List PipeId → Bool → Option (List (Delivery M) × Bool)
  | [], delivered => some ([], delivered)
  | hop :: hops, delivered =>
    if (flags hop).fallback ≠ fallback then hopLoop queue flags fallback hops delivered
    else (queue hop).bind fun (ds, matched) =>
      if matched && (flags hop).final then some (ds, true)
      else (hopLoop queue flags fallback hops (delivered || matched)).map fun (ds', delivered) =>
        (ds ++ ds', delivered)

/-- `log_multiplexer_queue` without the last forward. -/
def hopsQueue (queue : PipeId → Option (List (Delivery M) × Bool)) (flags : PipeId → BranchFlags)
    (nextHops : List PipeId) : Option (List (Delivery M)) :=
  (hopLoop queue flags false nextHops false).bind fun (ds, delivered) =>
    if nextHops.any (fun hop => (flags hop).fallback) && !delivered then
      (hopLoop queue flags true nextHops delivered).map fun (ds', _) => ds ++ ds'
    else some ds

/-- `log_pipe_queue`: the deliveries, and what is left in `*matched`. -/
def logPipeQueue (pipes : PipeId → LogPipe M) : Nat → PipeId → M → Bool → Option (List (Delivery M) × Bool)
  | 0, _, _, _ => none
  | fuel + 1, s, msg, flowControl =>
    let flow := flowControl || (pipes s).flags.hardFlowControl
    -- `log_pipe_forward_msg`
    let forward := fun msg => match (pipes s).pipeNext with
      | some next => logPipeQueue pipes fuel next msg flow
      | none => some ([], true)
    match (pipes s).kind with
    | .forward | .object .source => forward msg
    | .object (.destination id keepsNext) =>
      (if keepsNext then forward msg else some ([], true)).map fun (ds, matched) =>
        (⟨id, msg, flow⟩ :: ds, matched)
    | .object (.process f _) =>
      match f msg with
      | some msg => forward msg
      | none => some ([], false)
    | .multiplexer nextHops =>
      (hopsQueue (fun hop => logPipeQueue pipes fuel hop msg flow) (fun hop => (pipes hop).flags)
        nextHops).bind fun ds =>
          (forward msg).map fun (ds', matched) => (ds ++ ds', matched)

/-! ## Routes -/

/-- What becomes of a message, for a value of `flow_control_requested`. -/
abbrev Route (M : Type) := M → Bool → List (Delivery M) × Bool

namespace Route

/-- `log_msg_drop`. -/
def drop : Route M := fun _ _ => ([], true)

def deliver (id : Nat) (keepsNext : Bool) (next : Route M) : Route M := fun msg flow =>
  let r := if keepsNext then next msg flow else drop msg flow
  (⟨id, msg, flow⟩ :: r.1, r.2)

def process (f : M → Option M) (next : Route M) : Route M := fun msg flow =>
  match f msg with
  | some msg => next msg flow
  | none => ([], false)

def flowControl (requested : Bool) (next : Route M) : Route M := fun msg flow =>
  next msg (flow || requested)

/-- A branch of a multiplexer: its flags, and what it does. -/
abbrev Hop (M : Type) := BranchFlags × Route M

/-- What a message that comes to the branch goes through. -/
def Hop.route (hop : Hop M) : Route M := flowControl hop.1.hardFlowControl hop.2

/-- One round over the hops. -/
def round (fallback : Bool) (msg : M) (flow : Bool) :
    List (Hop M) → Bool → List (Delivery M) × Bool
  | [], delivered => ([], delivered)
  | hop :: hops, delivered =>
    if hop.1.fallback ≠ fallback then round fallback msg flow hops delivered
    else
      let r := hop.route msg flow
      if r.2 && hop.1.final then (r.1, true)
      else
        let rest := round fallback msg flow hops (delivered || r.2)
        (r.1 ++ rest.1, rest.2)

/-- The deliveries of the hops. -/
def branches (hops : List (Hop M)) (msg : M) (flow : Bool) : List (Delivery M) :=
  let r := round false msg flow hops false
  if hops.any (fun hop => hop.1.fallback) && !r.2 then
    r.1 ++ (round true msg flow hops r.2).1
  else r.1

def multiplexer (hops : List (Hop M)) (next : Route M) : Route M := fun msg flow =>
  let r := next msg flow
  (branches hops msg flow ++ r.1, r.2)

@[simp] theorem flowControl_false (next : Route M) : flowControl false next = next := by
  funext msg flow
  rw [flowControl, Bool.or_false]

end Route

/-! ## More fuel -/

section

variable {pipes : PipeId → LogPipe M}

theorem hopLoop_mono {queue queue' : PipeId → Option (List (Delivery M) × Bool)}
    (hqueue : ∀ hop r, queue hop = some r → queue' hop = some r) {flags : PipeId → BranchFlags}
    {fallback : Bool} {hops : List PipeId} {delivered : Bool} {r : List (Delivery M) × Bool}
    (h : hopLoop queue flags fallback hops delivered = some r) :
    hopLoop queue' flags fallback hops delivered = some r := by
  induction hops generalizing delivered r with
  | nil => exact h
  | cons hop hops ih =>
    rw [hopLoop] at h ⊢
    split at h
    · rename_i hskip
      rw [if_pos hskip]
      exact ih h
    · rename_i hskip
      rw [if_neg hskip]
      obtain ⟨⟨ds, matched⟩, hhop, hrest⟩ := Option.bind_eq_some_iff.1 h
      rw [hqueue hop _ hhop, bind_some]
      dsimp only at hrest ⊢
      split at hrest
      · rename_i hfinal
        rw [if_pos hfinal]
        exact hrest
      · rename_i hfinal
        rw [if_neg hfinal]
        obtain ⟨r', hloop, hr⟩ := map_eq_some_iff.1 hrest
        rw [ih hloop, map_some]
        exact congrArg some hr

theorem hopsQueue_mono {queue queue' : PipeId → Option (List (Delivery M) × Bool)}
    (hqueue : ∀ hop r, queue hop = some r → queue' hop = some r) {flags : PipeId → BranchFlags}
    {hops : List PipeId} {ds : List (Delivery M)} (h : hopsQueue queue flags hops = some ds) :
    hopsQueue queue' flags hops = some ds := by
  obtain ⟨⟨ds', delivered⟩, hloop, hrest⟩ := Option.bind_eq_some_iff.1 h
  rw [hopsQueue, hopLoop_mono hqueue hloop, bind_some]
  dsimp only at hrest ⊢
  split at hrest
  · rename_i hfallback
    obtain ⟨r', hloop', hr⟩ := map_eq_some_iff.1 hrest
    rw [if_pos hfallback, hopLoop_mono hqueue hloop', map_some]
    exact congrArg some hr
  · rename_i hfallback
    rw [if_neg hfallback]
    exact hrest

theorem logPipeQueue_succ {fuel : Nat} {s : PipeId} {msg : M} {flow : Bool} {r : List (Delivery M) × Bool}
    (h : logPipeQueue pipes fuel s msg flow = some r) :
    logPipeQueue pipes (fuel + 1) s msg flow = some r := by
  induction fuel generalizing s msg flow r with
  | zero => cases h
  | succ fuel ih =>
    have hforward : ∀ (msg : M) (flow : Bool) r,
        (match (pipes s).pipeNext with
          | some next => logPipeQueue pipes fuel next msg flow
          | none => some ([], true)) = some r →
        (match (pipes s).pipeNext with
          | some next => logPipeQueue pipes (fuel + 1) next msg flow
          | none => some ([], true)) = some r := by
      intro msg flow r h
      split at h
      · exact ih h
      · exact h
    rw [logPipeQueue] at h ⊢
    dsimp only at h ⊢
    split at h
    · exact hforward _ _ _ h
    · exact hforward _ _ _ h
    · obtain ⟨r', hr', hr⟩ := map_eq_some_iff.1 h
      split at hr'
      · rename_i hkeeps
        rw [if_pos hkeeps, hforward _ _ _ hr', map_some]
        exact congrArg some hr
      · rename_i hkeeps
        rw [if_neg hkeeps]
        exact map_eq_some_iff.2 ⟨r', hr', hr⟩
    · split at h
      · exact hforward _ _ _ h
      · exact h
    · obtain ⟨ds, hds, hrest⟩ := Option.bind_eq_some_iff.1 h
      obtain ⟨r', hr', hr⟩ := map_eq_some_iff.1 hrest
      rw [hopsQueue_mono (fun hop r => ih) hds, bind_some, hforward _ _ _ hr', map_some]
      exact congrArg some hr

theorem logPipeQueue_mono {fuel fuel' : Nat} {s : PipeId} (hle : fuel ≤ fuel') {msg : M} {flow : Bool}
    {r : List (Delivery M) × Bool} (h : logPipeQueue pipes fuel s msg flow = some r) :
    logPipeQueue pipes fuel' s msg flow = some r := by
  induction hle with
  | refl => exact h
  | step _ ih => exact logPipeQueue_succ ih

end

/-! ## What a pipe does -/

/-- The pipe takes every message along the route. -/
def Runs (pipes : PipeId → LogPipe M) (s : PipeId) (route : Route M) : Prop :=
  ∀ msg flow, ∃ fuel, logPipeQueue pipes fuel s msg flow = some (route msg flow)

/-- The same behind a pipe. -/
def RunsNext (pipes : PipeId → LogPipe M) : Option PipeId → Route M → Prop
  | none, route => route = .drop
  | some s, route => Runs pipes s route

/-- The pipe takes a message along the route once its own flag of flow control is seen. -/
def RunsBody (pipes : PipeId → LogPipe M) (s : PipeId) (route : Route M) : Prop :=
  Runs pipes s (.flowControl (pipes s).flags.hardFlowControl route)

section

variable {pipes : PipeId → LogPipe M} {s : PipeId} {next : Route M}

theorem RunsNext.forward (h : RunsNext pipes (pipes s).pipeNext next) (msg : M) (flow : Bool) :
    ∃ fuel, (match (pipes s).pipeNext with
      | some next => logPipeQueue pipes fuel next msg flow
      | none => some ([], true)) = some (next msg flow) := by
  cases hnext : (pipes s).pipeNext with
  | none =>
    rw [hnext] at h
    obtain rfl : next = .drop := h
    exact ⟨0, rfl⟩
  | some t =>
    rw [hnext] at h
    exact h msg flow

theorem runs_forward (hkind : (pipes s).kind = .forward ∨ (pipes s).kind = .object .source)
    (h : RunsNext pipes (pipes s).pipeNext next) : RunsBody pipes s next := by
  intro msg flow
  obtain ⟨fuel, hfuel⟩ := h.forward msg (flow || (pipes s).flags.hardFlowControl)
  refine ⟨fuel + 1, ?_⟩
  rw [logPipeQueue]
  rcases hkind with hkind | hkind
  · rw [hkind]
    exact hfuel
  · rw [hkind]
    exact hfuel

theorem runs_destination {id : Nat} {keepsNext : Bool}
    (hkind : (pipes s).kind = .object (.destination id keepsNext))
    (h : RunsNext pipes (pipes s).pipeNext next) : RunsBody pipes s (.deliver id keepsNext next) := by
  intro msg flow
  obtain ⟨fuel, hfuel⟩ := h.forward msg (flow || (pipes s).flags.hardFlowControl)
  refine ⟨fuel + 1, ?_⟩
  rw [logPipeQueue, hkind]
  dsimp only
  rw [hfuel]
  cases keepsNext with
  | true => rfl
  | false => rfl

theorem runs_process {f : M → Option M} {clone : Option (M → Option M)}
    (hkind : (pipes s).kind = .object (.process f clone)) (h : RunsNext pipes (pipes s).pipeNext next) :
    RunsBody pipes s (.process f next) := by
  intro msg flow
  show ∃ fuel, _ = some (Route.process f next msg _)
  unfold Route.process
  cases hf : f msg with
  | none =>
    refine ⟨1, ?_⟩
    rw [logPipeQueue, hkind]
    dsimp only
    rw [hf]
  | some msg' =>
    obtain ⟨fuel, hfuel⟩ := h.forward msg' (flow || (pipes s).flags.hardFlowControl)
    refine ⟨fuel + 1, ?_⟩
    rw [logPipeQueue, hkind]
    dsimp only
    rw [hf]
    exact hfuel

/-- The hops of a multiplexer, and what each of them does. -/
def RunsHops (pipes : PipeId → LogPipe M) : List PipeId → List (Route.Hop M) → Prop :=
  List.Forall₂ fun s hop => (pipes s).flags = hop.1 ∧ Runs pipes s hop.route

variable {hops : List PipeId} {routes : List (Route.Hop M)}

theorem RunsHops.loop (h : RunsHops pipes hops routes) (msg : M)
    (flow fallback delivered : Bool) :
    ∃ fuel, hopLoop (fun hop => logPipeQueue pipes fuel hop msg flow) (fun hop => (pipes hop).flags)
      fallback hops delivered = some (Route.round fallback msg flow routes delivered) := by
  induction h generalizing delivered with
  | nil => exact ⟨0, rfl⟩
  | @cons s hop hops routes hhop _ ih =>
    obtain ⟨hflags, hruns⟩ := hhop
    obtain ⟨fuel, hfuel⟩ := hruns msg flow
    rw [Route.round]
    by_cases hskip : hop.1.fallback ≠ fallback
    · obtain ⟨fuel', hfuel'⟩ := ih delivered
      refine ⟨fuel', ?_⟩
      rw [hopLoop, if_pos (hflags ▸ hskip), if_pos hskip]
      exact hfuel'
    · rw [if_neg hskip]
      dsimp only
      by_cases hfinal : ((hop.route msg flow).2 && hop.1.final) = true
      · refine ⟨fuel, ?_⟩
        rw [hopLoop, if_neg (hflags ▸ hskip), hfuel, bind_some, if_pos hfinal, hflags]
        exact if_pos hfinal
      · obtain ⟨fuel', hfuel'⟩ := ih (delivered || (hop.route msg flow).2)
        refine ⟨max fuel fuel', ?_⟩
        rw [hopLoop, if_neg (hflags ▸ hskip), logPipeQueue_mono (Nat.le_max_left _ _) hfuel,
          bind_some, if_neg hfinal, hflags]
        dsimp only
        rw [if_neg hfinal, hopLoop_mono (fun _ _ => logPipeQueue_mono (Nat.le_max_right _ _)) hfuel',
          map_some]

theorem RunsHops.any_fallback (h : RunsHops pipes hops routes) :
    hops.any (fun hop => (pipes hop).flags.fallback) = routes.any fun hop => hop.1.fallback := by
  induction h with
  | nil => rfl
  | cons hhop _ ih => rw [List.any_cons, List.any_cons, ih, hhop.1]

theorem RunsHops.queue (h : RunsHops pipes hops routes) (msg : M)
    (flow : Bool) :
    ∃ fuel, hopsQueue (fun hop => logPipeQueue pipes fuel hop msg flow)
      (fun hop => (pipes hop).flags) hops = some (Route.branches routes msg flow) := by
  obtain ⟨fuel, hfuel⟩ := h.loop msg flow false false
  obtain ⟨fuel', hfuel'⟩ := h.loop msg flow true (Route.round false msg flow routes false).2
  have hfirst := @hopLoop_mono M _ (fun hop => logPipeQueue pipes (max fuel fuel') hop msg flow)
    (fun _ _ => logPipeQueue_mono (Nat.le_max_left _ _)) _ _ _ _ _ hfuel
  have hsecond := @hopLoop_mono M _ (fun hop => logPipeQueue pipes (max fuel fuel') hop msg flow)
    (fun _ _ => logPipeQueue_mono (Nat.le_max_right _ _)) _ _ _ _ _ hfuel'
  refine ⟨max fuel fuel', ?_⟩
  rw [hopsQueue, hfirst, bind_some, Route.branches]
  dsimp only
  rw [h.any_fallback, hsecond]
  split
  · rfl
  · rfl

theorem runs_multiplexer (hkind : (pipes s).kind = .multiplexer hops)
    (hhops : RunsHops pipes hops routes) (h : RunsNext pipes (pipes s).pipeNext next) :
    RunsBody pipes s (.multiplexer routes next) := by
  intro msg flow
  obtain ⟨fuel, hfuel⟩ := hhops.queue msg (flow || (pipes s).flags.hardFlowControl)
  obtain ⟨fuel', hfuel'⟩ := h.forward msg (flow || (pipes s).flags.hardFlowControl)
  have hforward : (match (pipes s).pipeNext with
      | some next => logPipeQueue pipes (max fuel fuel') next msg
          (flow || (pipes s).flags.hardFlowControl)
      | none => some ([], true)) = some (next msg (flow || (pipes s).flags.hardFlowControl)) := by
    split at hfuel'
    · exact logPipeQueue_mono (Nat.le_max_right _ _) hfuel'
    · exact hfuel'
  refine ⟨max fuel fuel' + 1, ?_⟩
  rw [logPipeQueue, hkind]
  dsimp only
  rw [hopsQueue_mono (fun _ _ => logPipeQueue_mono (Nat.le_max_left _ _)) hfuel, bind_some, hforward]
  rfl

end

end SyslogNg.CfgTree
