import SyslogNg.CfgTree.Inline

/-!
# Which definitions cannot be written inline

The drivers of a destination that are written inline pass the message on to what follows, every one of
them, and what follows does not tell any more whether it has matched. A source without drivers is not a
source when it is written inline.
-/

namespace SyslogNg.CfgTree

open List Function

variable {M : Type}

/-- The definitions for which it makes no difference. -/
def InlineSafe : Content → LogExprNode → Prop
  | .source, node => node ≠ driverContents []
  | .destination, node => node = driverContents []
  | _, _ => True

/-- There is one definition of the kind. -/
def onlyDefinition (content : Content) (node : LogExprNode) : Content → String → Option LogExprNode :=
  fun c _ => if c = content then some node else none

variable {content : Content}

theorem not_refers_drivers {definitions : Content → String → Option LogExprNode}
    {name : String} (drivers : List Nat) :
    ¬Refers definitions content name (driverContents drivers) := by
  intro h
  cases h with
  | sequence _ hmem hchild =>
    obtain rfl := mem_singleton.1 hmem
    cases hchild with
    | junction hmem' hsingle =>
      obtain ⟨n, -, rfl⟩ := mem_map.1 hmem'
      cases hsingle

/-! ## Sources without drivers -/

theorem not_interchangeable_source (kinds : Nat → ObjectKind M) :
    ¬Interchangeable (fun _ => True) .source (driverContents []) kinds := by
  intro h
  -- `log { source(s); source { driver }; }`
  have hsame := (h (onlyDefinition .source (driverContents [])) (fun _ => .source) [] [] []
    (.item .none [] [driverContents [0]]) "s" rfl (fun n hn => by
      cases hn with
      | sequence _ hmem hchild =>
        obtain rfl := mem_singleton.1 hmem
        cases hchild with
        | junction hmem' _ => cases hmem') ⟨nofun, fun node hmem => by
      obtain rfl := mem_singleton.1 hmem
      exact not_refers_drivers [0]⟩ trivial).1
  obtain ⟨plan, fuel, hplan⟩ := compiles_iff.1 (hsame.1 (compiles_iff.2 ⟨_, 5, rfl⟩))
  have hfail := planRules_mono (Nat.le_add_right fuel 5) hplan
  cases hfail

/-! ## Destinations with drivers -/

section

variable {definitions : Content → String → Option LogExprNode} {objects : Nat → ObjectKind M}
  {drivers : List Nat} {used : Nat → Bool} {plan : Plan M} {n : Nat}

theorem useDrivers_of_not_mem (h : n ∉ drivers) : useDrivers used drivers n = used n := by
  induction drivers generalizing used with
  | nil => rfl
  | cons m drivers ih =>
    obtain ⟨hne, hmem⟩ := not_or.1 (mt mem_cons.2 h)
    rw [useDrivers, ih hmem, update_of_ne hne]

theorem mem_round {fallback : Bool} {msg : M} {flow delivered : Bool} {hops : List (Route.Hop M)}
    {d : Delivery M} (h : d ∈ (Route.round fallback msg flow hops delivered).1) :
    ∃ hop ∈ hops, d ∈ (hop.route msg flow).1 := by
  induction hops generalizing delivered with
  | nil => cases h
  | cons hop hops ih =>
    have hlater : ∀ {delivered}, d ∈ (Route.round fallback msg flow hops delivered).1 →
        ∃ hop' ∈ hop :: hops, d ∈ (hop'.route msg flow).1 := by
      intro delivered h
      obtain ⟨hop', hmem, hd⟩ := ih h
      exact ⟨hop', mem_cons_of_mem _ hmem, hd⟩
    rw [Route.round] at h
    split at h
    · exact hlater h
    · dsimp only at h
      split at h
      · exact ⟨hop, mem_cons_self, h⟩
      · rcases mem_append.1 h with h | h
        · exact ⟨hop, mem_cons_self, h⟩
        · exact hlater h

theorem mem_branches {msg : M} {flow : Bool} {hops : List (Route.Hop M)} {d : Delivery M}
    (h : d ∈ Route.branches hops msg flow) : ∃ hop ∈ hops, d ∈ (hop.route msg flow).1 := by
  rw [Route.branches] at h
  split at h
  · rcases mem_append.1 h with h | h
    · exact mem_round h
    · exact mem_round h
  · exact mem_round h

/-- What follows delivers nothing. -/
def Silent (route : Route M) : Prop := ∀ msg flow, (route msg flow).1 = []

theorem inlineRoute_destination (h : ∀ m ∈ drivers, ∃ id keepsNext, objects m = .destination id keepsNext)
    {next : Route M} (hnext : Silent next) {msg : M} {flow : Bool} {d : Delivery M}
    (hd : d ∈ (inlineRoute objects drivers next msg flow).1) :
    ∃ m ∈ drivers, ∃ keepsNext, objects m = .destination d.destination keepsNext := by
  rcases mem_append.1 hd with hd | hd
  · obtain ⟨hop, hmem, hd⟩ := mem_branches hd
    obtain ⟨m, hm, rfl⟩ := mem_map.1 hmem
    obtain ⟨id, keepsNext, hobject⟩ := h m hm
    refine ⟨m, hm, keepsNext, ?_⟩
    have hroute : (driverBranch objects m).hop next = (.none, .deliver id keepsNext next) := by
      rw [driverBranch, hobject]
      rfl
    rw [hroute] at hd
    rcases mem_cons.1 hd with rfl | hd
    · exact hobject
    · cases keepsNext with
      | true =>
        rw [if_pos rfl, hnext] at hd
        cases hd
      | false => cases hd
  · cases hd

/-- A source, and two embedded log statements: the first one has the element, a filter that drops every
message and the final flag; the second one goes to another destination. -/
def finalContext (source filter other : Nat) : LogContext :=
  .sequence .none [driverContents [source]]
    (.junction []
      (.item { LogFlags.none with final := true } [] [.sequence .none [.single filter]])
      [.sequence .none [driverContents [other]]]) []

/-- What happens behind the source in `finalContext`. -/
def finalRoute (route : Route M → Route M) (other : Route M) : Route M :=
  .multiplexer [(⟨false, true, false⟩, route (.process (fun _ => none) .drop)), (.none, other)] .drop

/-- The plan after the source of `finalContext`. -/
def sourcePlan (source : Nat) : Plan M :=
  { Plan.start with used := update (fun _ => false) source true }

theorem plan_finalContext {element : LogExprNode} {route : Route M → Route M} {tailed keepsNext : Bool}
    {source filter other dest : Nat} {fuel : Nat} (hsource : objects source = .source)
    (hfilter : objects filter = .process (fun _ => none) none)
    (hother : objects other = .destination dest keepsNext) (hne : other ≠ filter)
    (helement : planNode definitions objects (fuel + 6) element (sourcePlan source) =
      .ok (.pipe .none route tailed, plan))
    (hgroups : plan.groups = []) (hunused : plan.used filter = false) (hunused' : plan.used other = false) :
    ∃ behind plan', planNode definitions objects (fuel + 9)
        ((finalContext source filter other).fill element) Plan.start =
        .ok (.source [⟨.driver source, behind⟩], plan') ∧ plan'.groups = [] ∧
      behind .drop = finalRoute route (inlineRoute objects [other] .drop) := by
  have hfirst : planNode definitions objects (fuel + 8) (driverContents [source]) Plan.start =
      .ok (.source (driverEntries [source]), sourcePlan source) :=
    (@plan_source M definitions objects Plan.start [] (fuel + 5) source fun m hm => by
      rw [mem_singleton.1 hm, hsource]).trans rfl
  have hdrop : planNode definitions objects (fuel + 6) (.sequence .none [.single filter]) plan =
      .ok (.pipe .none (.process fun _ => none) true,
        { plan with used := update plan.used filter true }) := by
    rw [planNode]
    show (planSequenceLoop _ [.single filter] (.start, plan)).bind _ = _
    rw [planSequenceLoop, planNode, planSingle_unused hunused, hfilter]
    rfl
  obtain ⟨plan1, hbranch, hunused1, hgroups1⟩ : ∃ plan', planNode definitions objects (fuel + 7)
      (.sequence { LogFlags.none with final := true } [element, .sequence .none [.single filter]])
      (sourcePlan source) =
      .ok (.pipe ⟨false, true, false⟩ (route ∘ throughHead .none (.process fun _ => none)) true, plan') ∧
      plan'.used other = false ∧ plan'.groups = [] := by
    refine ⟨{ plan with used := update plan.used filter true }, ?_,
      (update_of_ne hne _ _).trans hunused', hgroups⟩
    rw [planNode]
    show (planSequenceLoop _ [element, _] (.start, sourcePlan source)).bind _ = _
    rw [planSequenceLoop, helement]
    show ((planSequenceLoop _ [_] (.pipe .none route, plan)).bind _) = _
    rw [planSequenceLoop, hdrop]
    rfl
  obtain ⟨plan2, hbranch', hgroups2⟩ : ∃ plan', planNode definitions objects (fuel + 7)
      (.sequence .none [driverContents [other]]) plan1 =
      .ok (.pipe .none (inlineRoute objects [other]) true, plan') ∧ plan'.groups = [] := by
    refine ⟨{ plan1 with used := useDrivers plan1.used [other] }, ?_, hgroups1⟩
    rw [planNode]
    show (planSequenceLoop _ [_] (.start, plan1)).bind _ = _
    rw [planSequenceLoop, @plan_destination M definitions objects plan1 [] (fuel + 3) other fun m hm => by
      rw [mem_singleton.1 hm]
      exact ⟨dest, keepsNext, hother⟩, driversPlan, unusedDrivers, hunused1]
    rfl
  refine ⟨fun next => .flowControl false (.flowControl false (.multiplexer
    [(⟨false, true, false⟩, route (.flowControl false (.process (fun _ => none) next))),
      (.none, inlineRoute objects [other] next)] .drop)), plan2, ?_, hgroups2, ?_⟩
  · rw [finalContext, LogContext.fill, planNode]
    show (planSequenceLoop _ [driverContents [source], .junction [_, _]] (.start, Plan.start)).bind _ = _
    rw [planSequenceLoop, hfirst]
    show (planSequenceLoop _ [.junction [_, _]] (.source (driverEntries [source]) id, _)).bind _ = _
    rw [planSequenceLoop, planNode, planJunction, planJunctionLoop]
    rw [LogContext.fill]
    show ((((planNode definitions objects (fuel + 7) (.sequence _ [element, _]) _).bind _).map _).bind _).bind
      _ = _
    rw [hbranch]
    show ((((planJunctionLoop _ false [_] (.fork [_], plan1))).map _).bind _).bind _ = _
    rw [planJunctionLoop, hbranch']
    rfl
  · dsimp only
    rw [finalRoute, Route.flowControl_false, Route.flowControl_false, Route.flowControl_false]

theorem finalRoute_eq (route : Route M → Route M) (other : Route M) (msg : M) (flow : Bool) :
    (finalRoute route other msg flow).1 = (route (.process (fun _ => none) .drop) msg flow).1 ++
      (if (route (.process (fun _ => none) .drop) msg flow).2 then [] else (other msg flow).1) := by
  have hhop : Route.Hop.route (⟨false, true, false⟩, route (.process (fun _ => none) .drop)) =
      route (.process (fun _ => none) .drop) := Route.flowControl_false _
  have hround : (Route.round false msg flow
      [(⟨false, true, false⟩, route (.process (fun _ => none) .drop)), (.none, other)] false).1 =
      (route (.process (fun _ => none) .drop) msg flow).1 ++
        (if (route (.process (fun _ => none) .drop) msg flow).2 then [] else (other msg flow).1) := by
    rw [Route.round, if_neg fun h => h rfl, hhop]
    dsimp only
    cases (route (.process (fun _ => none) .drop) msg flow).2 with
    | true =>
      rw [Bool.and_self, if_pos rfl, if_pos rfl, append_nil]
    | false =>
      rw [Bool.false_and, if_neg Bool.false_ne_true, if_neg Bool.false_ne_true, round_one]
  show Route.branches _ msg flow ++ [] = _
  rw [append_nil, ← hround]
  rfl

theorem silent_process : Silent (Route.process (fun _ => none) (.drop : Route M)) := fun _ _ => rfl

theorem received_finalRoute {dest : Nat} {keepsNext : Bool} {other : Nat}
    (h : ∀ m ∈ drivers, ∃ id keepsNext, objects m = .destination id keepsNext)
    (hdest : ∀ m ∈ drivers, ∀ keepsNext, objects m ≠ .destination dest keepsNext)
    (hother : objects other = .destination dest keepsNext) (msg : M) (flow : Bool) :
    received dest (finalRoute (forkRoute objects drivers) (inlineRoute objects [other] .drop) msg flow).1 ≠
      received dest (finalRoute (inlineRoute objects drivers) (inlineRoute objects [other] .drop) msg flow).1 := by
  have hinline : ∀ (next : Route M), Silent next →
      received dest (inlineRoute objects drivers next msg flow).1 = [] := by
    intro next hnext
    refine filter_eq_nil_iff.2 fun d hd heq => ?_
    obtain ⟨m, hm, keepsNext, hobject⟩ := inlineRoute_destination h hnext hd
    exact hdest m hm keepsNext (of_decide_eq_true heq ▸ hobject)
  have hright : received dest
      (finalRoute (inlineRoute objects drivers) (inlineRoute objects [other] .drop) msg flow).1 = [] := by
    rw [finalRoute_eq]
    have hmatched : (inlineRoute objects drivers (.process (fun _ => none) .drop) msg flow).2 = true := rfl
    rw [hmatched, if_pos rfl, append_nil]
    exact hinline _ silent_process
  have hdelivered : (⟨dest, msg, flow⟩ : Delivery M) ∈ (inlineRoute objects [other] .drop msg flow).1 := by
    rw [inlineRoute, map_singleton, driverBranch, hother]
    show _ ∈ (Route.multiplexer [(.none, .deliver dest keepsNext .drop)] .drop msg flow).1
    rw [multiplexer_one]
    exact mem_cons_self
  rw [hright]
  refine ne_nil_of_mem (a := ⟨dest, msg, flow⟩) (mem_filter.2 ⟨?_, decide_eq_true rfl⟩)
  rw [finalRoute_eq]
  have hmatched : (forkRoute objects drivers (.process (fun _ => none) .drop) msg flow).2 = false := rfl
  rw [hmatched, if_neg Bool.false_ne_true]
  exact mem_append_right _ hdelivered

theorem emission_one {source : Nat} {behind : Route M → Route M} (hgroups : plan.groups = []) :
    (plan.addRule (.source [⟨.driver source, behind⟩])).emission source = behind .drop := by
  have hlist : (plan.addRule (.source [⟨.driver source, behind⟩])).groups =
      [(none, [⟨.driver source, behind⟩])] := by
    show plan.groups ++ _ = _
    rw [hgroups, nil_append]
  rw [Plan.emission, hlist]
  show (List.lookup (Origin.driver source) [(Origin.driver source, behind .drop)]).getD _ = _
  rw [lookup_cons_self]
  rfl

theorem planned_finalContext {element : LogExprNode} {route : Route M → Route M}
    {tailed keepsNext : Bool} {source filter other dest : Nat} (hsource : objects source = .source)
    (hfilter : objects filter = .process (fun _ => none) none)
    (hother : objects other = .destination dest keepsNext) (hne : other ≠ filter)
    (helement : planNode definitions objects 6 element (sourcePlan source) =
      .ok (.pipe .none route tailed, plan))
    (hgroups : plan.groups = []) (hunused : plan.used filter = false) (hunused' : plan.used other = false) :
    ∃ plan', Planned definitions objects [] [(finalContext source filter other).fill element] plan' ∧
      plan'.emission source = finalRoute route (inlineRoute objects [other] .drop) := by
  obtain ⟨behind, plan', hplan, hgroups', hbehind⟩ := @plan_finalContext M definitions objects plan element
    route tailed keepsNext source filter other dest 0 hsource hfilter hother hne helement hgroups hunused
    hunused'
  refine ⟨plan'.addRule (.source [⟨.driver source, behind⟩]), ⟨9, ?_⟩, ?_⟩
  · show (planNode definitions objects 9 ((finalContext source filter other).fill element)
      Plan.start).bind _ = _
    rw [hplan]
    rfl
  · rw [emission_one hgroups', hbehind]

theorem exists_gt (f : Nat → Nat) (l : List Nat) : ∃ bound, ∀ m ∈ l, f m < bound := by
  induction l with
  | nil => exact ⟨0, nofun⟩
  | cons n l ih =>
    obtain ⟨bound, hbound⟩ := ih
    refine ⟨max bound (f n + 1), fun m hm => ?_⟩
    rcases mem_cons.1 hm with rfl | hm
    · exact Nat.lt_of_lt_of_le (Nat.lt_succ_self _) (Nat.le_max_right _ _)
    · exact Nat.lt_of_lt_of_le (hbound m hm) (Nat.le_max_left _ _)

theorem mem_of_hasObject (h : HasObject n (driverContents drivers)) : n ∈ drivers := by
  cases h with
  | sequence _ hmem hchild =>
    obtain rfl := mem_singleton.1 hmem
    cases hchild with
    | junction hmem' hsingle =>
      obtain ⟨m, hm, rfl⟩ := mem_map.1 hmem'
      cases hsingle
      exact hm

theorem not_refers_sequence {name : String} {flags : LogFlags} {node : LogExprNode}
    (h : ¬Refers definitions content name node) :
    ¬Refers definitions content name (.sequence flags [node]) := by
  intro hr
  cases hr with
  | sequence _ hmem hchild => exact h (mem_singleton.1 hmem ▸ hchild)

theorem onlyUse_finalContext {name : String} (source filter other : Nat) :
    OnlyUse definitions [] content name [] [] (finalContext source filter other) := by
  refine ⟨nofun, fun node hmem => ?_⟩
  have hmem : node ∈ [driverContents [source], .sequence .none [driverContents [other]],
      .sequence .none [.single filter]] := hmem
  rcases mem_cons.1 hmem with rfl | hmem
  · exact not_refers_drivers _
  · rcases mem_cons.1 hmem with rfl | hmem
    · exact not_refers_sequence (not_refers_drivers _)
    · obtain rfl := mem_singleton.1 hmem
      exact not_refers_sequence nofun

def withOthers (kinds : Nat → ObjectKind M) (bound dest : Nat) (n : Nat) : ObjectKind M :=
  if n < bound then kinds n
  else if n = bound then .source
  else if n = bound + 1 then .process (fun _ => none) none
  else .destination dest true

theorem not_interchangeable_destination [Inhabited M] {kinds : Nat → ObjectKind M}
    (hnodup : (n :: drivers).Nodup)
    (hkinds : ∀ m ∈ n :: drivers, ∃ id keepsNext, kinds m = .destination id keepsNext) :
    ¬Interchangeable (fun _ => True) .destination (driverContents (n :: drivers)) kinds := by
  intro h
  obtain ⟨bound, hbound⟩ := exists_gt id (n :: drivers)
  obtain ⟨dest, hdest⟩ := exists_gt (fun m => match kinds m with
    | .destination id _ => id
    | _ => 0) (n :: drivers)
  have hold : ∀ m ∈ n :: drivers, withOthers kinds bound dest m = kinds m := fun m hm =>
    if_pos (hbound m hm)
  have hsource : withOthers kinds bound dest bound = .source := by
    rw [withOthers, if_neg (Nat.lt_irrefl _), if_pos rfl]
  have hfilter : withOthers kinds bound dest (bound + 1) = .process (fun _ => none) none := by
    rw [withOthers, if_neg (by omega), if_neg (by omega), if_pos rfl]
  have hother : withOthers kinds bound dest (bound + 2) = .destination dest true := by
    rw [withOthers, if_neg (by omega), if_neg (by omega), if_neg (by omega)]
  have hdrivers : ∀ m ∈ n :: drivers, ∃ id keepsNext,
      withOthers kinds bound dest m = .destination id keepsNext := fun m hm => by
    rw [hold m hm]
    exact hkinds m hm
  have hnew : ∀ m ∈ n :: drivers, ∀ keepsNext,
      withOthers kinds bound dest m ≠ .destination dest keepsNext := by
    intro m hm keepsNext heq
    rw [hold m hm] at heq
    have hlt := hdest m hm
    rw [heq] at hlt
    exact Nat.lt_irrefl _ hlt
  -- none of the pipes is in use when the element is compiled
  have hunused : unusedDrivers (sourcePlan (M := M) bound).used (n :: drivers) = true :=
    unusedDrivers_of_nodup hnodup fun m hm => by
      show update (fun _ => false) bound true m = false
      exact update_of_ne (Nat.ne_of_lt (hbound m hm)) ..
  have hfree : ∀ k, bound < k →
      useDrivers (sourcePlan (M := M) bound).used (n :: drivers) k = false := by
    intro k hk
    rw [useDrivers_of_not_mem fun hmem => Nat.lt_asymm hk (hbound k hmem)]
    show update (fun _ => false) bound true k = false
    exact update_of_ne (Nat.ne_of_gt hk) ..
  have hsame := h (onlyDefinition .destination (driverContents (n :: drivers)))
    (withOthers kinds bound dest) [] [] [] (finalContext bound (bound + 1) (bound + 2)) "d" rfl
    (fun m hm => hold m (mem_of_hasObject hm)) (onlyUse_finalContext _ _ _) trivial
  obtain ⟨p, hp, hpEmits⟩ := planned_finalContext hsource hfilter hother (by omega)
    ((@plan_fork M (onlyDefinition .destination (driverContents (n :: drivers))) _ "d" n drivers
      (sourcePlan bound) 2 rfl hdrivers rfl).trans (by rw [driversPlan, if_pos hunused]; rfl))
    rfl (hfree (bound + 1) (by omega)) (hfree (bound + 2) (by omega))
  obtain ⟨q, hq, hqEmits⟩ := planned_finalContext hsource hfilter hother (by omega)
    ((@plan_destination M (onlyDefinition .destination (driverContents (n :: drivers))) _
      (sourcePlan bound) drivers 3 n hdrivers).trans (by rw [driversPlan, if_pos hunused]))
    rfl (hfree (bound + 1) (by omega)) (hfree (bound + 2) (by omega))
  obtain ⟨tree, hcompiles⟩ := compiles_iff.2 ⟨p, hp⟩
  obtain ⟨tree', hcompiles'⟩ := compiles_iff.2 ⟨q, hq⟩
  obtain ⟨ds, ds', hds, hds', hreceived⟩ := hsame.2 tree tree' hcompiles hcompiles' bound hsource default
    false
  have heq := hds.unique (hcompiles.delivers hp hsource default false)
  have heq' := hds'.unique (hcompiles'.delivers hq hsource default false)
  have hthis := hreceived dest
  rw [heq, heq', hpEmits, hqEmits] at hthis
  exact received_finalRoute hdrivers hnew hother default false hthis

end

/-! ## Interchangeable definitions -/

theorem interchangeable_safe {node : LogExprNode} {kinds : Nat → ObjectKind M}
    (hnode : IsDefinition kinds content node) (hsafe : InlineSafe content node) (P : LogContext → Prop) :
    Interchangeable P content node kinds := by
  cases content with
  | source =>
    obtain ⟨drivers, rfl, -, hkinds⟩ := hnode
    cases drivers with
    | nil => exact absurd rfl hsafe
    | cons n drivers => exact interchangeable_source hkinds
  | destination =>
    obtain rfl : node = driverContents [] := hsafe
    exact interchangeable_empty kinds P
  | filter => exact @interchangeable_process M .filter nofun nofun node kinds P
  | parser => exact @interchangeable_process M .parser nofun nofun node kinds P
  | rewrite => exact @interchangeable_process M .rewrite nofun nofun node kinds P

/-- A definition can be written inline in every log statement if and only if it is a source that has
drivers, a destination that has none, or no source or destination; and a destination can be written
inline at the end of a log statement. -/
theorem inline_interchangeable [Inhabited M] {content : Content} {node : LogExprNode}
    {kinds : Nat → ObjectKind M} (hnode : IsDefinition kinds content node) :
    (Interchangeable (fun _ => True) content node kinds ↔ InlineSafe content node) ∧
      (content = .destination → Interchangeable LogContext.Last content node kinds) := by
  refine ⟨⟨fun h => ?_, fun hsafe => interchangeable_safe hnode hsafe _⟩, ?_⟩
  · cases content with
    | source =>
      rintro rfl
      exact not_interchangeable_source kinds h
    | destination =>
      obtain ⟨drivers, rfl, hnodup, hkinds⟩ := hnode
      cases drivers with
      | nil => exact rfl
      | cons n drivers => exact absurd h (not_interchangeable_destination hnodup hkinds)
    | filter => trivial
    | parser => trivial
    | rewrite => trivial
  · rintro rfl
    obtain ⟨drivers, rfl, -, hkinds⟩ := hnode
    exact interchangeable_last hkinds

/-- `log { source { s; }; destination { d1; d2; }; destination { d3; }; };`, with the first destination
written inline or as a reference. -/
def twoDestinations (element : LogExprNode) : List LogExprNode :=
  [.sequence .none [driverContents [0], element, driverContents [3]]]

def twoObjects : Nat → ObjectKind Unit
  | 0 => .source
  | n => .destination n true

theorem inline_interchangeable_two :
    (Interchangeable (fun _ => True) .destination (driverContents [1, 2]) twoObjects ↔
      InlineSafe .destination (driverContents [1, 2])) ∧
      Interchangeable LogContext.Last .destination (driverContents [1, 2]) twoObjects := by
  have h := @inline_interchangeable Unit _ .destination (driverContents [1, 2]) twoObjects
    ⟨[1, 2], rfl, by decide, fun n hn => by
      rcases mem_cons.1 hn with rfl | hn
      · exact ⟨1, true, rfl⟩
      · obtain rfl := mem_singleton.1 hn
        exact ⟨2, true, rfl⟩⟩
  exact ⟨h.1, h.2 rfl⟩

/-- Both drivers of the inline destination pass the message on, and `d3` gets it twice. -/
theorem twoDestinations_differ :
    IsDefinition twoObjects .destination (driverContents [1, 2]) ∧
    OnlyUse (onlyDefinition .destination (driverContents [1, 2])) [] .destination "d" [] []
      (.item .none [driverContents [0]] [driverContents [3]]) ∧
    ¬SameMeaning (onlyDefinition .destination (driverContents [1, 2])) twoObjects []
      (twoDestinations (.reference .destination "d")) (twoDestinations (driverContents [1, 2])) := by
  refine ⟨⟨[1, 2], rfl, by decide, fun n hn => ?_⟩, ⟨nofun, fun node hmem => ?_⟩, fun h => ?_⟩
  · rcases mem_cons.1 hn with rfl | hn
    · exact ⟨1, true, rfl⟩
    · obtain rfl := mem_singleton.1 hn
      exact ⟨2, true, rfl⟩
  · have hmem : node ∈ [driverContents [0], driverContents [3]] := hmem
    rcases mem_cons.1 hmem with rfl | hmem
    · exact not_refers_drivers _
    · obtain rfl := mem_singleton.1 hmem
      exact not_refers_drivers _
  · obtain ⟨ds, ds', hds, hds', hreceived⟩ := h.2 _ _ ⟨6, rfl⟩ ⟨6, rfl⟩ 0 rfl () false
    have hreference : ds = [⟨1, (), false⟩, ⟨2, (), false⟩, ⟨3, (), false⟩] :=
      hds.unique ⟨20, true, rfl⟩
    have hinline : ds' = [⟨1, (), false⟩, ⟨3, (), false⟩, ⟨2, (), false⟩, ⟨3, (), false⟩] :=
      hds'.unique ⟨20, true, rfl⟩
    have hthree := congrArg List.length (hreceived 3)
    rw [hreference, hinline] at hthree
    exact absurd hthree (by decide)

end SyslogNg.CfgTree
