import SyslogNg.CfgTree.Drivers

/-!
# Which definitions can be written inline

Filters, parsers and rewrite rules are compiled where they are referred to. The entries of a source are
found at the place where it is attached. A destination goes on differently: each driver that is written
inline passes the message on, a reference passes it on once.
-/

namespace SyslogNg.CfgTree

open List Function Except

variable {M : Type}

/-! ## Sources -/

structure NoSource (name : String) (groups : List (Group M)) : Prop where
  owner : ∀ group ∈ groups, group.1 ≠ some name
  place : ∀ group ∈ groups, ∀ entry ∈ group.2, entry.origin ≠ .attach name 0

def expandEntry (name : String) (drivers : List Nat) (entry : Entry M) : List (Entry M) :=
  if entry.origin = .attach name 0 then drivers.map fun n => ⟨.driver n, entry.route⟩ else [entry]

def expand (name : String) (drivers : List Nat) (entries : List (Entry M)) : List (Entry M) :=
  entries.flatMap (expandEntry name drivers)

section

variable {name : String} {drivers : List Nat} {entries : List (Entry M)}

theorem expand_of_no_place (h : ∀ entry ∈ entries, entry.origin ≠ .attach name 0) :
    expand name drivers entries = entries := by
  induction entries with
  | nil => rfl
  | cons entry entries ih =>
    rw [expand, flatMap_cons, expandEntry, if_neg (h entry mem_cons_self), singleton_append]
    exact congrArg _ (ih fun e he => h e (mem_cons_of_mem _ he))

theorem expand_andThen (entries : List (Entry M)) (route : Route M → Route M) :
    expand name drivers (entries.map fun entry => entry.andThen route) =
      (expand name drivers entries).map fun entry => entry.andThen route := by
  rw [expand, expand, map_flatMap, flatMap_map]
  refine flatMap_congr fun entry _ => ?_
  have horigin : (entry.andThen route).origin = entry.origin := rfl
  rw [expandEntry, expandEntry, horigin]
  by_cases h : entry.origin = .attach name 0
  · rw [if_pos h, if_pos h, map_map]
    rfl
  · rw [if_neg h, if_neg h]
    rfl

theorem ne_of_source_ne {y : String} (h : (Content.source, name) ≠ (.source, y)) : y ≠ name := by
  rintro rfl
  exact h rfl

end

def sourceBefore (objects : Nat → ObjectKind M) (name : String) : Lockstep objects .source name where
  plan p q := p = q ∧ p.sources name = none ∧ NoSource name p.groups
  entries a b := a = b ∧ ∀ entry ∈ a, entry.origin ≠ .attach name 0
  used h := by rw [h.1]
  source h _ _ := by rw [h.1]
  destination h _ _ := by rw [h.1]
  use h n _ := by
    obtain ⟨rfl, hnone, hno⟩ := h
    exact ⟨rfl, hnone, hno⟩
  driver _ n _ _ := ⟨rfl, fun entry hmem => by
    rw [mem_singleton.1 hmem]
    nofun⟩
  attach h y i hne := by
    obtain ⟨rfl, hnone, hno⟩ := h
    exact ⟨rfl, (attach_sources_of_ne (ne_of_source_ne hne).symm _ i).trans hnone, hno⟩
  place y i hne := ⟨rfl, fun entry hmem heq => by
    rw [mem_singleton.1 hmem] at heq
    exact ne_of_source_ne hne (Origin.attach.inj heq).1⟩
  group h hentries owner howner := by
    obtain ⟨rfl, hnone, hno⟩ := h
    obtain ⟨rfl, hplace⟩ := hentries
    refine ⟨rfl, hnone, fun g hg => ?_, fun g hg => ?_⟩
    · rcases mem_append.1 hg with hg | hg
      · exact hno.owner g hg
      · rw [mem_singleton.1 hg]
        exact fun heq => howner name heq rfl
    · rcases mem_append.1 hg with hg | hg
      · exact hno.place g hg
      · rw [mem_singleton.1 hg]
        exact hplace
  setDestination h y hop _ := by
    obtain ⟨rfl, hnone, hno⟩ := h
    exact ⟨rfl, hnone, hno⟩
  nil := ⟨rfl, nofun⟩
  append h h' := ⟨by rw [h.1, h'.1], fun entry hmem =>
    (mem_append.1 hmem).elim (h.2 entry) (h'.2 entry)⟩
  andThen h route := ⟨by rw [h.1], fun entry hmem => by
    obtain ⟨entry', hmem', rfl⟩ := mem_map.1 hmem
    exact h.2 entry' hmem'⟩

/-- A source that comes later: the drivers are entries of it on the one side, and the place where they
are attached is on the other. -/
def LaterGroup (name : String) (drivers : List Nat) (g g' : Group M) : Prop :=
  g.1 = g'.1 ∧ g.1 ≠ some name ∧ g'.2 = expand name drivers g.2

/-- After the source has been referred to, or its drivers have been compiled instead. -/
structure SourcePlans (name : String) (drivers : List Nat) (p q : Plan M) : Prop where
  used : p.used = q.used
  destinations : p.destinations = q.destinations
  sources : ∀ y, y ≠ name → p.sources y = q.sources y
  once : p.sources name = some 1
  groups : ∃ before after after', p.groups = before ++ (some name, driverEntries drivers) :: after ∧
    q.groups = before ++ after' ∧ NoSource name before ∧
    List.Forall₂ (LaterGroup name drivers) after after'

def sourceAfter (objects : Nat → ObjectKind M) (name : String) (drivers : List Nat) :
    Lockstep objects .source name where
  plan := SourcePlans name drivers
  entries a b := b = expand name drivers a
  used h := h.used
  source h y hne := h.sources y (ne_of_source_ne hne)
  destination h y _ := congrFun h.destinations y
  use h n _ := { h with used := rfl }
  driver _ n _ _ := rfl
  attach h y i hne := { h with
    sources := fun y' hy' => by
      by_cases heq : y' = y
      · rw [heq, attach_sources_self, attach_sources_self]
      · rw [attach_sources_of_ne heq, attach_sources_of_ne heq, h.sources y' hy']
    once := (attach_sources_of_ne (ne_of_source_ne hne).symm _ i).trans h.once }
  place y i hne := by
    have hplace : (Origin.attach y i) ≠ .attach name 0 := fun heq =>
      ne_of_source_ne hne (Origin.attach.inj heq).1
    rw [expand, flatMap_singleton, expandEntry, if_neg hplace]
  group := fun {p q a b} h hentries owner howner => { h with
    groups := by
      obtain ⟨before, after, after', hp, hq, hno, hafter⟩ := h.groups
      refine ⟨before, after ++ [(owner, a)], after' ++ [(owner, b)], ?_, ?_, hno,
        rel_append hafter (.cons ⟨rfl, fun heq => howner name heq rfl, hentries⟩ .nil)⟩
      · rw [hp, append_assoc]
        rfl
      · rw [hq, append_assoc] }
  setDestination h y hop _ := { h with destinations := by rw [h.destinations] }
  nil := rfl
  append h h' := by rw [h, h', expand, expand, expand, flatMap_append]
  andThen h route := by rw [h, expand_andThen]

section

variable {definitions : Content → String → Option LogExprNode} {objects : Nat → ObjectKind M}
  {name : String} {drivers : List Nat} {p q : Plan M} {n : Nat}

theorem entries_before_after {a b : List (Entry M)} (h : (sourceBefore objects name).entries a b) :
    (sourceAfter objects name drivers).entries a b := by
  obtain ⟨rfl, hplace⟩ := h
  exact (expand_of_no_place hplace).symm

theorem goesOn_source (hdef : definitions .source name = some (driverContents (n :: drivers)))
    (h : ∀ m ∈ n :: drivers, objects m = .source) :
    GoesOn (sourceBefore objects name) (sourceAfter objects name (n :: drivers)) definitions 4
      (.reference .source name) (driverContents (n :: drivers)) := by
  intro fuel hfuel p q hplan
  obtain ⟨rfl, hnone, hno⟩ := hplan
  obtain ⟨fuel, rfl⟩ : ∃ m, fuel = m + 4 := ⟨fuel - 4, by omega⟩
  have hnode := fun fuel => @plan_source M definitions objects p drivers fuel n h
  rw [hnode (fuel + 1), planNode, planReference, hdef]
  dsimp only
  rw [hnone]
  dsimp only
  rw [hnode fuel, driversPlan]
  split
  · refine .ok ⟨⟨rfl, rfl, fun y hy => attach_sources_of_ne hy _ 0, attach_sources_self _ name 0, p.groups,
      [], [], rfl, (append_nil _).symm, hno, .nil⟩, fun s s' hs => ?_⟩
    have hentries : driverEntries (n :: drivers) =
        expand name (n :: drivers) [(⟨.attach name 0, id⟩ : Entry M)] := by
      rw [expand, flatMap_singleton, expandEntry, if_pos rfl]
      rfl
    exact (PartRel.source (E := (sourceAfter objects name (n :: drivers)).entries) hentries).add
      (hs.weaken fun a b => entries_before_after)
  · exact .error _

/-! ## What the sources emit -/

theorem behindGroup_congr {table table' : List (Origin × Route M)} {owner : Option String}
    (h : ∀ y, owner = some y → p.sources y = q.sources y ∧
      ∀ i, table.lookup (.attach y i) = table'.lookup (.attach y i)) :
    p.behindGroup table owner = q.behindGroup table' owner := by
  cases owner with
  | none => rfl
  | some y =>
    obtain ⟨hsources, hlookup⟩ := h y rfl
    rw [Plan.behindGroup, Plan.behindGroup, Plan.behind, Plan.behind, hsources]
    refine congrArg (Route.multiplexer · .drop) (map_congr_left fun i _ => ?_)
    rw [routeFrom, routeFrom, hlookup i]

theorem lookup_expand (entries : List (Entry M)) (next : Route M) {o : Origin}
    (hplace : o ≠ .attach name 0) (hdrivers : ∀ m ∈ drivers, o ≠ .driver m) :
    ((expand name drivers entries).map fun entry => (entry.origin, entry.route next)).lookup o =
      (entries.map fun entry => (entry.origin, entry.route next)).lookup o := by
  induction entries with
  | nil => rfl
  | cons entry entries ih =>
    rw [expand, flatMap_cons, map_append, lookup_append, map_cons, lookup_cons]
    rw [expand] at ih
    rw [ih, expandEntry]
    by_cases h : entry.origin = .attach name 0
    · have hnone : ((drivers.map fun m => (⟨.driver m, entry.route⟩ : Entry M)).map fun entry =>
          (entry.origin, entry.route next)).lookup o = none := by
        rw [lookup_eq_none_iff]
        intro x hx
        obtain ⟨e, he, rfl⟩ := mem_map.1 hx
        obtain ⟨m, hm, rfl⟩ := mem_map.1 he
        exact bne_iff_ne.2 (hdrivers m hm)
      rw [if_pos h, hnone, Option.none_or, h, beq_false_of_ne hplace]
    · rw [if_neg h, map_singleton, lookup_cons]
      cases o == entry.origin <;> rfl

theorem lookup_after (hsources : ∀ y, y ≠ name → p.sources y = q.sources y)
    {after after' : List (Group M)} (h : List.Forall₂ (LaterGroup name drivers) after after') {o : Origin}
    (hplace : o ≠ .attach name 0) (hdrivers : ∀ m ∈ drivers, o ≠ .driver m) :
    (p.table after).lookup o = (q.table after').lookup o := by
  induction h generalizing o with
  | nil => rfl
  | @cons g g' after after' hgroup _ ih =>
    obtain ⟨owner, entries⟩ := g
    obtain ⟨owner', entries'⟩ := g'
    obtain ⟨rfl, howner, rfl⟩ := hgroup
    have hbehind : p.behindGroup (p.table after) owner = q.behindGroup (q.table after') owner := by
      refine behindGroup_congr fun y hy => ?_
      have hne : y ≠ name := by
        rintro rfl
        exact howner hy
      exact ⟨hsources y hne, fun i => ih (fun heq => hne (Origin.attach.inj heq).1) nofun⟩
    rw [Plan.table, Plan.table, lookup_append, lookup_append, ih hplace hdrivers, hbehind]
    exact congrArg (Option.or · _) (lookup_expand entries _ hplace hdrivers).symm

theorem lookup_driverEntries (next : Route M) {o : Origin} (hdrivers : ∀ m ∈ drivers, o ≠ .driver m) :
    ((driverEntries drivers).map fun entry : Entry M => (entry.origin, entry.route next)).lookup o =
      none := by
  rw [lookup_eq_none_iff]
  intro x hx
  obtain ⟨e, he, rfl⟩ := mem_map.1 hx
  obtain ⟨m, hm, rfl⟩ := mem_map.1 he
  exact bne_iff_ne.2 (hdrivers m hm)

theorem lookup_before (hsources : ∀ y, y ≠ name → p.sources y = q.sources y)
    {before after after' : List (Group M)} (h : List.Forall₂ (LaterGroup name drivers) after after')
    (hno : NoSource name before) {o : Origin} (hplace : o ≠ .attach name 0)
    (hdrivers : ∀ m ∈ drivers, o ≠ .driver m) :
    (p.table (before ++ (some name, driverEntries drivers) :: after)).lookup o =
      (q.table (before ++ after')).lookup o := by
  induction before generalizing o with
  | nil =>
    rw [nil_append, nil_append, Plan.table, lookup_append]
    rw [lookup_driverEntries _ hdrivers, Option.none_or]
    exact lookup_after hsources h hplace hdrivers
  | cons g before ih =>
    obtain ⟨owner, entries⟩ := g
    have hno' : NoSource name before := ⟨fun g hg => hno.owner g (mem_cons_of_mem _ hg),
      fun g hg => hno.place g (mem_cons_of_mem _ hg)⟩
    have hbehind : p.behindGroup (p.table (before ++ (some name, driverEntries drivers) :: after)) owner =
        q.behindGroup (q.table (before ++ after')) owner := by
      refine behindGroup_congr fun y hy => ?_
      have hne : y ≠ name := by
        rintro rfl
        exact hno.owner _ mem_cons_self hy
      exact ⟨hsources y hne, fun i => ih hno' (fun heq => hne (Origin.attach.inj heq).1) nofun⟩
    rw [cons_append, cons_append, Plan.table, Plan.table, lookup_append,
      lookup_append, ih hno' hplace hdrivers, hbehind]

theorem mem_table_after (hsources : ∀ y, y ≠ name → p.sources y = q.sources y)
    {after after' : List (Group M)} (h : List.Forall₂ (LaterGroup name drivers) after after')
    {route : Route M} (hroute : (p.table after).lookup (.attach name 0) = some route)
    (hn : n ∈ drivers) : (.driver n, route) ∈ q.table after' := by
  induction h with
  | nil => cases hroute
  | @cons g g' after after' hgroup hlater ih =>
    obtain ⟨owner, entries⟩ := g
    obtain ⟨owner', entries'⟩ := g'
    obtain ⟨rfl, howner, rfl⟩ := hgroup
    have hbehind : p.behindGroup (p.table after) owner = q.behindGroup (q.table after') owner := by
      refine behindGroup_congr fun y hy => ?_
      have hne : y ≠ name := by
        rintro rfl
        exact howner hy
      exact ⟨hsources y hne, fun i =>
        lookup_after hsources hlater (fun heq => hne (Origin.attach.inj heq).1) nofun⟩
    rw [Plan.table, lookup_append, Option.or_eq_some_iff] at hroute
    rcases hroute with hfound | ⟨-, hrest⟩
    · obtain ⟨before, behind, heq, -⟩ := lookup_eq_some_iff.1 hfound
      have hmem : (Origin.attach name 0, route) ∈ entries.map fun entry =>
          (entry.origin, entry.route (p.behindGroup (p.table after) owner)) := by
        rw [heq]
        exact mem_append_right _ mem_cons_self
      obtain ⟨entry, hentry, heq⟩ := mem_map.1 hmem
      obtain ⟨horigin, rfl⟩ := Prod.mk.inj heq
      refine mem_append_left _ (mem_map.2 ⟨⟨.driver n, entry.route⟩, ?_, by rw [hbehind]⟩)
      refine mem_flatMap.2 ⟨entry, hentry, ?_⟩
      rw [expandEntry, if_pos horigin]
      exact mem_map.2 ⟨n, hn, rfl⟩
    · exact mem_append_right _ (ih hrest)

theorem mem_table_append {x : Origin × Route M} {a b : List (Group M)} (h : x ∈ p.table b) :
    x ∈ p.table (a ++ b) := by
  induction a with
  | nil => exact h
  | cons g a ih => exact mem_append_right _ ih

theorem Runs.unique {pipes : PipeId → LogPipe M} {s : PipeId} {route route' : Route M}
    (h : Runs pipes s route) (h' : Runs pipes s route') : route = route' := by
  funext msg flow
  obtain ⟨fuel, hfuel⟩ := h msg flow
  obtain ⟨fuel', hfuel'⟩ := h' msg flow
  have heq := logPipeQueue_mono (Nat.le_max_left fuel fuel') hfuel
  rw [logPipeQueue_mono (Nat.le_max_right fuel fuel') hfuel'] at heq
  exact (Option.some.inj heq).symm

theorem RulesRefined.emission_eq {tree : CfgTree M} (h : RulesRefined definitions objects tree p)
    (hn : objects n = .source) {route : Route M} (hmem : (.driver n, route) ∈ p.table p.groups) :
    p.emission n = route :=
  (h.runs hn).unique (runs_table h.inv h.inv.group h.placed.ordered hmem rfl).2

theorem round_one (route : Route M) (msg : M) (flow delivered : Bool) :
    Route.round false msg flow [(.none, route)] delivered =
      ((route msg flow).1, delivered || (route msg flow).2) := by
  have hhop : Route.Hop.route (.none, route) = route := Route.flowControl_false route
  rw [Route.round, if_neg fun h => h rfl, hhop]
  dsimp only
  rw [BranchFlags.none, Bool.and_false, if_neg Bool.false_ne_true, Route.round, append_nil]

theorem multiplexer_one (route : Route M) (msg : M) (flow : Bool) :
    (Route.multiplexer [(.none, route)] .drop msg flow).1 = (route msg flow).1 := by
  show Route.branches [(.none, route)] msg flow ++ [] = _
  rw [append_nil, Route.branches, round_one]
  rfl

theorem SourcePlans.emitsSame {tree tree' : CfgTree M} (hp : RulesRefined definitions objects tree p)
    (hq : RulesRefined definitions objects tree' q) (h : SourcePlans name drivers p q) :
    EmitsSame objects p q := by
  intro n hn msg flow
  obtain ⟨before, after, after', hgroups, hgroups', hno, hlater⟩ := h.groups
  by_cases hmem : n ∈ drivers
  · have hplace : .attach name 0 ∈ groupOrigins after := by
      have hordered := hp.placed.ordered
      rw [hgroups] at hordered
      have hsplit : ∀ before, Ordered p.sources ∅ (before ++ (some name, driverEntries drivers) :: after) →
          Ordered p.sources ∅ ((some name, driverEntries drivers) :: after) := by
        intro before h
        induction before with
        | nil => exact h
        | cons g before ih => exact ih h.2
      exact ((hsplit before hordered).1 name 1 0 rfl h.once Nat.one_pos).resolve_left
        (Set.notMem_empty _)
    obtain ⟨route, hroute⟩ := @lookup_table M p after _ hplace
    have hleft : p.emission n = .multiplexer [(.none, route)] .drop := by
      refine hp.emission_eq hn ?_
      rw [hgroups]
      refine mem_table_append (mem_append_left _ (mem_map.2
        ⟨⟨.driver n, id⟩, mem_map.2 ⟨n, hmem, rfl⟩, ?_⟩))
      show (Origin.driver n, p.behind (p.table after) name) = _
      rw [Plan.behind, h.once]
      show (Origin.driver n, Route.multiplexer [(.none, routeFrom (p.table after) (.attach name 0))] .drop) = _
      rw [routeFrom, hroute]
      rfl
    have hright : q.emission n = route := by
      refine hq.emission_eq hn ?_
      rw [hgroups']
      exact mem_table_append (mem_table_after h.sources hlater hroute hmem)
    rw [hleft, hright, multiplexer_one]
  · have hlookup := @lookup_before M name drivers p q h.sources before after after' hlater hno (.driver n)
      (by simp) fun m hm heq => hmem (Origin.driver.inj heq ▸ hm)
    rw [Plan.emission, Plan.emission, hgroups, hgroups', routeFrom, routeFrom, hlookup]

theorem interchangeable_source {kinds : Nat → ObjectKind M} {P : LogContext → Prop}
    (hkinds : ∀ m ∈ n :: drivers, kinds m = .source) :
    Interchangeable P .source (driverContents (n :: drivers)) kinds := by
  intro definitions objects sources before after context name hdef hobjects huse _
  have hsource : ∀ m ∈ n :: drivers, objects m = .source := by
    intro m hm
    rw [hobjects m (.sequence _ (mem_singleton_self _)
      (.junction (mem_map.2 ⟨m, hm, rfl⟩) .single)), hkinds m hm]
  refine sameMeaning_of_agrees (fun fuel hfuel => (goesOn_source hdef hsource).rules
    (fun a b => entries_before_after) huse hfuel ⟨rfl, rfl, nofun, nofun⟩) fun p q hp hq hplans => ?_
  obtain ⟨tree, hp⟩ := hp.refined
  obtain ⟨tree', hq⟩ := hq.refined
  exact SourcePlans.emitsSame hp hq hplans

end

/-! ## Filters, parsers and rewrite rules -/

theorem interchangeable_process {content : Content} (hsource : content ≠ .source)
    (hdestination : content ≠ .destination) (node : LogExprNode) (kinds : Nat → ObjectKind M)
    (P : LogContext → Prop) : Interchangeable P content node kinds := by
  intro definitions objects sources before after context name hdef _ _ _
  have hreference : ∀ (fuel : Nat) (plan : Plan M), planNode definitions objects (fuel + 1)
      (.reference content name) plan = planNode definitions objects fuel node plan := by
    intro fuel plan
    rw [planNode, planReference, hdef]
    cases content with
    | source => exact absurd rfl hsource
    | destination => exact absurd rfl hdestination
    | filter => rfl
    | parser => rfl
    | rewrite => rfl
  have hinline : ∀ fuel, Yields (planNode definitions objects fuel)
      (planNode definitions objects (fuel + 0)) (.reference content name) node := by
    intro fuel plan r h
    cases fuel with
    | zero => cases h
    | succ fuel =>
      rw [hreference] at h
      exact planNode_mono (Nat.le_succ _) node plan r h
  have hnamed : ∀ fuel, Yields (planNode definitions objects fuel)
      (planNode definitions objects (fuel + 1)) node (.reference content name) := by
    intro fuel plan r h
    rw [hreference]
    exact h
  have hrules : ∀ (node node' : LogExprNode) (slack : Nat), (∀ fuel, Yields (planNode definitions objects fuel)
      (planNode definitions objects (fuel + slack)) node node') → ∀ plan,
      Planned definitions objects sources (before ++ context.fill node :: after) plan →
      Planned definitions objects sources (before ++ context.fill node' :: after) plan := by
    rintro node node' slack hyields plan ⟨fuel, h⟩
    refine ⟨fuel + slack, planRules_yields (rel_append ?_ (.cons ?_ ?_)) h⟩
    · exact forall₂_same.2 fun rule _ => planNode_mono (Nat.le_add_right _ _) _
    · rw [LogContext.catchAll_fill, LogContext.catchAll_fill]
      exact yields_context hyields _
    · exact forall₂_same.2 fun rule _ => planNode_mono (Nat.le_add_right _ _) _
  exact sameMeaning_of_plans (fun p hp => ⟨p, hrules _ _ 0 hinline p hp, fun _ _ _ _ => rfl⟩)
    fun q hq => ⟨q, hrules _ _ 1 hnamed q hq⟩

/-! ## Destinations -/

def destinationBefore (objects : Nat → ObjectKind M) (name : String) :
    Lockstep objects .destination name where
  plan p q := p = q ∧ p.destinations name = none
  entries := Eq
  used h := by rw [h.1]
  source h _ _ := by rw [h.1]
  destination h _ _ := by rw [h.1]
  use h n _ := by
    obtain ⟨rfl, hnone⟩ := h
    exact ⟨rfl, hnone⟩
  driver _ _ _ _ := rfl
  attach h _ _ _ := by
    obtain ⟨rfl, hnone⟩ := h
    exact ⟨rfl, hnone⟩
  place _ _ _ := rfl
  group h hentries _ _ := by
    obtain ⟨rfl, hnone⟩ := h
    exact ⟨by rw [hentries], hnone⟩
  setDestination h y hop hne := by
    obtain ⟨rfl, hnone⟩ := h
    have hy : name ≠ y := by
      rintro rfl
      exact hne rfl
    exact ⟨rfl, (update_of_ne hy _ _).trans hnone⟩
  nil := rfl
  append h h' := by rw [h, h']
  andThen h _ := by rw [h]

/-- The same sources; where nothing comes after them, only what they do there has to be the same. -/
def LikeGroup (g g' : Group M) : Prop :=
  g.1 = g'.1 ∧ (g.2 = g'.2 ∨ g.1 = none ∧
    (g.2.map fun entry => (entry.origin, entry.route .drop)) =
      g'.2.map fun entry => (entry.origin, entry.route .drop))

structure DestinationPlans (name : String) (p q : Plan M) : Prop where
  used : p.used = q.used
  sources : p.sources = q.sources
  destinations : ∀ y, y ≠ name → p.destinations y = q.destinations y
  groups : List.Forall₂ LikeGroup p.groups q.groups

theorem likeGroup_refl (groups : List (Group M)) : List.Forall₂ LikeGroup groups groups :=
  forall₂_same.2 fun _ _ => ⟨rfl, .inl rfl⟩

def destinationAfter (objects : Nat → ObjectKind M) (name : String) :
    Lockstep objects .destination name where
  plan := DestinationPlans name
  entries := Eq
  used h := h.used
  source h y _ := congrFun h.sources y
  destination h y hne := h.destinations y fun heq => hne (heq ▸ rfl)
  use h _ _ := { h with used := rfl }
  driver _ _ _ _ := rfl
  attach h _ _ _ := { h with sources := by rw [Plan.attach, Plan.attach, h.sources] }
  place _ _ _ := rfl
  group h hentries _ _ := { h with groups := rel_append h.groups (.cons ⟨rfl, .inl hentries⟩ .nil) }
  setDestination h y hop _ := { h with
    destinations := fun y' hy' => by
      show update (Plan.destinations _) y hop y' = update (Plan.destinations _) y hop y'
      by_cases heq : y' = y
      · rw [heq, update_self, update_self]
      · rw [update_of_ne heq, update_of_ne heq, h.destinations y' hy'] }
  nil := rfl
  append h h' := by rw [h, h']
  andThen h _ := by rw [h]

theorem table_like {p q : Plan M} (hsources : p.sources = q.sources) {groups groups' : List (Group M)}
    (h : List.Forall₂ LikeGroup groups groups') : p.table groups = q.table groups' := by
  induction h with
  | nil => rfl
  | @cons g g' groups groups' hgroup _ ih =>
    obtain ⟨owner, entries⟩ := g
    obtain ⟨owner', entries'⟩ := g'
    obtain ⟨rfl, hentries⟩ := hgroup
    have hbehind : p.behindGroup (q.table groups') owner = q.behindGroup (q.table groups') owner :=
      behindGroup_congr fun y _ => ⟨congrFun hsources y, fun _ => rfl⟩
    rw [Plan.table, Plan.table, ih, hbehind]
    rcases hentries with heq | ⟨hnone, heq⟩
    · obtain rfl : entries = entries' := heq
      rfl
    · obtain rfl : owner = none := hnone
      exact congrArg (· ++ q.table groups') heq

theorem DestinationPlans.emitsSame {name : String} {p q : Plan M} (h : DestinationPlans name p q)
    (objects : Nat → ObjectKind M) : EmitsSame objects p q := by
  intro n _ msg flow
  rw [Plan.emission, Plan.emission, table_like h.sources h.groups]

theorem interchangeable_empty (kinds : Nat → ObjectKind M) (P : LogContext → Prop) :
    Interchangeable P .destination (driverContents []) kinds := by
  intro definitions objects sources before after context name hdef _ huse _
  have hgoes : GoesOn (destinationBefore objects name) (destinationAfter objects name) definitions 4
      (.reference .destination name) (driverContents []) := by
    intro fuel hfuel p q hplan
    obtain ⟨rfl, hnone⟩ := hplan
    obtain ⟨fuel, rfl⟩ : ∃ m, fuel = m + 4 := ⟨fuel - 4, by omega⟩
    have hnode := fun fuel => @plan_empty M definitions objects p fuel
    rw [hnode (fuel + 1), planNode, planReference, hdef]
    dsimp only
    rw [hnone]
    dsimp only
    rw [hnode fuel]
    have hroute : (fun next : Route M => Route.multiplexer [(.none, .drop)] next) = id := by
      funext next msg flow
      rfl
    refine .ok ⟨⟨rfl, rfl, fun y hy => update_of_ne hy _ _, likeGroup_refl _⟩, fun s s' hs => ?_⟩
    show Agrees _ (s.add (.pipe .none (fun next => Route.multiplexer [(.none, .drop)] next) false)) _
    rw [hroute]
    have hadd : s.add (.pipe .none id false) = s.add (.pipe .none id true) := by
      cases s <;> rfl
    rw [hadd]
    exact (PartRel.pipe (E := (destinationAfter objects name).entries) .none id true).add hs
  exact sameMeaning_of_agrees (fun fuel hfuel => hgoes.rules (fun a b h => h) huse hfuel ⟨rfl, rfl⟩)
    fun p q _ _ hplans => hplans.emitsSame objects

def forkHop (objects : Nat → ObjectKind M) (drivers : List Nat) : Route.Hop M :=
  (.none, inlineRoute objects drivers .drop)

/-- The part that a reference to a destination is. -/
def forkRoute (objects : Nat → ObjectKind M) (drivers : List Nat) (next : Route M) : Route M :=
  .multiplexer [forkHop objects drivers] next

theorem plan_fork {definitions : Content → String → Option LogExprNode} {objects : Nat → ObjectKind M}
    {name : String} {n : Nat} {drivers : List Nat} {plan : Plan M} {fuel : Nat}
    (hdef : definitions .destination name = some (driverContents (n :: drivers)))
    (h : ∀ m ∈ n :: drivers, ∃ id keepsNext, objects m = .destination id keepsNext)
    (hnone : plan.destinations name = none) :
    planNode definitions objects (fuel + 4) (.reference .destination name) plan =
      (driversPlan (n :: drivers) plan (.pipe .none (forkRoute objects (n :: drivers)) false)).map
        fun r => (r.1, { r.2 with
          destinations := update plan.destinations name (some (forkHop objects (n :: drivers))) }) := by
  rw [planNode, planReference, hdef]
  dsimp only
  rw [hnone]
  dsimp only
  rw [plan_destination h, driversPlan, driversPlan]
  split
  · rfl
  · rfl

theorem forkRoute_drop (objects : Nat → ObjectKind M) (drivers : List Nat) :
    forkRoute objects drivers .drop = inlineRoute objects drivers .drop := by
  funext msg flow
  exact Prod.ext (multiplexer_one _ msg flow) rfl

theorem Except.bind_bind {ε α β γ : Type} (x : Except ε α) (f : α → Except ε β) (g : β → Except ε γ) :
    (x.bind f).bind g = x.bind fun a => (f a).bind g := by
  cases x <;> rfl

theorem addRule_last {flags : LogFlags} {name : String} {p q : Plan M} (hplans : DestinationPlans name p q)
    {route route' : Route M → Route M} (hroute : route .drop = route' .drop) (s : SequencePart M)
    (tailed tailed' : Bool) :
    Agrees (fun a b => DestinationPlans name (a.2.addRule a.1) (b.2.addRule b.1))
      ((s.add (.pipe .none route tailed)).bind fun s => (s.finish flags).map fun part => (part, p))
      ((s.add (.pipe .none route' tailed')).bind fun s => (s.finish flags).map fun part => (part, q)) := by
  cases s with
  | start => exact .ok hplans
  | pipe first before => exact .ok hplans
  | source entries rest =>
    refine .ok { hplans with groups := rel_append hplans.groups (.cons ⟨rfl, .inr ⟨rfl, ?_⟩⟩ .nil) }
    rw [map_map, map_map]
    refine map_congr_left fun entry _ => ?_
    show (entry.origin, entry.route (.flowControl _ (rest (.flowControl _ (route .drop))))) = _
    rw [hroute]
    rfl

theorem agrees_last {definitions : Content → String → Option LogExprNode} {objects : Nat → ObjectKind M}
    {name : String} {n : Nat} {drivers : List Nat} {plan : Plan M} {fuel : Nat} {flags : LogFlags}
    {items : List LogExprNode} (hdef : definitions .destination name = some (driverContents (n :: drivers)))
    (h : ∀ m ∈ n :: drivers, ∃ id keepsNext, objects m = .destination id keepsNext)
    (hitems : ∀ item ∈ items, ¬Refers definitions .destination name item)
    (hnone : plan.destinations name = none) :
    Agrees (fun a b => DestinationPlans name (a.2.addRule a.1) (b.2.addRule b.1))
      (planNode definitions objects (fuel + 5)
        (.sequence flags (items ++ [.reference .destination name])) plan)
      (planNode definitions objects (fuel + 5)
        (.sequence flags (items ++ [driverContents (n :: drivers)])) plan) := by
  have hkept : KeptBy (destinationBefore objects name) (planNode definitions objects (fuel + 4)) items :=
    fun item hmem p q hplan => (destinationBefore objects name).keeps hplan (hitems item hmem)
  rw [planNode, planNode, planSequence, planSequence]
  split
  · exact .error _
  · rw [planSequenceLoop_append, planSequenceLoop_append, bind_bind, bind_bind]
    refine (hkept.sequenceLoop (p := plan) (q := plan) ⟨rfl, hnone⟩ .start).bind fun a b _ hab => ?_
    obtain ⟨s, p⟩ := a
    obtain ⟨s', p'⟩ := b
    obtain ⟨hs, hp, hnone⟩ := hab
    obtain rfl : p = p' := hp
    obtain rfl : s = s' := by
      cases hs with
      | start => rfl
      | source rest hentries => rw [hentries]
      | pipe flags route => rfl
    rw [planSequenceLoop, planSequenceLoop, plan_fork hdef h hnone,
      @plan_destination M definitions objects p drivers (fuel + 1) n h, driversPlan, driversPlan]
    split
    · have hplans : DestinationPlans name
          ({ p with
            used := useDrivers p.used (n :: drivers)
            destinations := update p.destinations name (some (forkHop objects (n :: drivers))) })
          { p with used := useDrivers p.used (n :: drivers) } :=
        ⟨rfl, rfl, fun y hy => update_of_ne hy _ _, likeGroup_refl _⟩
      show Agrees _ (((s.add _).bind _).bind _) (((s.add _).bind _).bind _)
      rw [bind_bind, bind_bind]
      exact addRule_last hplans (forkRoute_drop objects (n :: drivers)) s false true
    · exact .error _

theorem interchangeable_last {kinds : Nat → ObjectKind M} {drivers : List Nat}
    (hkinds : ∀ m ∈ drivers, ∃ id keepsNext, kinds m = .destination id keepsNext) :
    Interchangeable LogContext.Last .destination (driverContents drivers) kinds := by
  cases drivers with
  | nil => exact interchangeable_empty kinds _
  | cons n drivers =>
    intro definitions objects sources before after context name hdef hobjects huse hlast
    have hdest : ∀ m ∈ n :: drivers, ∃ id keepsNext, objects m = .destination id keepsNext := by
      intro m hm
      rw [hobjects m (.sequence _ (mem_singleton_self _) (.junction (mem_map.2 ⟨m, hm, rfl⟩) .single))]
      exact hkinds m hm
    cases context with
    | sequence flags before context after => exact hlast.elim
    | junction before context after => exact hlast.elim
    | item flags items items' =>
      obtain rfl : items' = [] := hlast
      obtain ⟨flags', items', hcatchall⟩ : ∃ flags' items',
          (LogContext.item flags items []).catchAll sources = .item flags' items' [] := by
        rw [LogContext.catchAll]
        split
        · exact ⟨_, _, rfl⟩
        · exact ⟨_, _, rfl⟩
      have hitems : ∀ item ∈ items', ¬Refers definitions .destination name item := by
        intro item hmem
        refine huse.2 item ?_
        rw [hcatchall]
        exact mem_append_left _ hmem
      refine @sameMeaning_of_agrees M definitions objects sources _ _ (DestinationPlans name) 5
        (fun fuel hfuel => ?_) fun p q _ _ hplans => hplans.emitsSame objects
      obtain ⟨fuel, rfl⟩ : ∃ m, fuel = m + 5 := ⟨fuel - 5, by omega⟩
      rw [planRules_append, planRules_append]
      have hstart : (destinationBefore objects name).plan Plan.start Plan.start := ⟨rfl, rfl⟩
      have hbefore := @Lockstep.rules M objects _ name _ _ (fuel + 5) definitions
        (destinationBefore objects name) sources before hstart fun rule hr =>
          huse.1 rule (mem_append_left _ hr)
      refine hbefore.bind fun p p' _ hp => ?_
      obtain ⟨rfl, hnone⟩ := hp
      rw [planRules, planRules, LogContext.catchAll_fill, LogContext.catchAll_fill, hcatchall]
      refine (agrees_last hdef hdest hitems hnone).bind fun a b _ hab => ?_
      exact (destinationAfter objects name).rules hab fun rule hr =>
        huse.1 rule (mem_append_right _ hr)

end SyslogNg.CfgTree
