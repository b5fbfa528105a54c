import SyslogNg.CfgTree.Junctions

/-!
# What the compiled configuration does

Every place where a source is attached belongs to a source that comes later, so the routes of all sources
can be told, and the messages of the source drivers take them.
-/

namespace SyslogNg.CfgTree

open List Function Option Set Except

variable {M : Type}

/-! ## The order of the sources -/

def entryOrigins (entries : List (Entry M)) : Set Origin := {o | ∃ entry ∈ entries, entry.origin = o}

def groupOrigins (groups : List (Group M)) : Set Origin := {o | ∃ group ∈ groups, o ∈ entryOrigins group.2}

def Part.origins : Part M → Set Origin
  | .source entries => entryOrigins entries
  | _ => ∅

def SequencePart.origins : SequencePart M → Set Origin
  | .source entries _ => entryOrigins entries
  | _ => ∅

def JunctionPart.origins : JunctionPart M → Set Origin
  | .source entries => entryOrigins entries
  | _ => ∅

/-- Behind a source there are only sources that come later, and those that are not placed yet. -/
def Ordered (sources : String → Option Nat) (pending : Set Origin) : List (Group M) → Prop
  | [] => True
  | (owner, _) :: groups => (∀ name n i, owner = some name → sources name = some n → i < n →
      .attach name i ∈ pending ∪ groupOrigins groups) ∧ Ordered sources pending groups

/-- All origins are there, but for those of the parts that are not placed yet. -/
structure Placed (objects : Nat → ObjectKind M) (plan : Plan M) (pending : Set Origin) : Prop where
  ordered : Ordered plan.sources pending plan.groups
  driver : ∀ n, objects n = .source → plan.used n = true → .driver n ∈ pending ∪ groupOrigins plan.groups

section

variable {objects : Nat → ObjectKind M} {plan plan' : Plan M} {pending pending' : Set Origin}
  {groups : List (Group M)} {sources : String → Option Nat} {entries : List (Entry M)}
  {definitions : Content → String → Option LogExprNode} {node : LogExprNode} {part : Part M} {fuel : Nat}

theorem entryOrigins_append (a b : List (Entry M)) :
    entryOrigins (a ++ b) = entryOrigins a ∪ entryOrigins b := by
  ext o
  constructor
  · rintro ⟨entry, hmem, ho⟩
    exact (mem_append.1 hmem).imp (fun h => ⟨entry, h, ho⟩) fun h => ⟨entry, h, ho⟩
  · rintro (⟨entry, hmem, ho⟩ | ⟨entry, hmem, ho⟩)
    · exact ⟨entry, mem_append_left _ hmem, ho⟩
    · exact ⟨entry, mem_append_right _ hmem, ho⟩

theorem entryOrigins_andThen (entries : List (Entry M)) (route : Route M → Route M) :
    entryOrigins (entries.map fun entry => entry.andThen route) = entryOrigins entries := by
  ext o
  constructor
  · rintro ⟨entry, hmem, ho⟩
    obtain ⟨entry', hmem', rfl⟩ := mem_map.1 hmem
    exact ⟨entry', hmem', ho⟩
  · rintro ⟨entry, hmem, ho⟩
    exact ⟨entry.andThen route, mem_map.2 ⟨entry, hmem, rfl⟩, ho⟩

theorem groupOrigins_concat (groups : List (Group M)) (group : Group M) :
    groupOrigins (groups ++ [group]) = groupOrigins groups ∪ entryOrigins group.2 := by
  ext o
  constructor
  · rintro ⟨g, hmem, ho⟩
    rcases mem_append.1 hmem with hmem | hmem
    · exact .inl ⟨g, hmem, ho⟩
    · exact .inr (mem_singleton.1 hmem ▸ ho)
  · rintro (⟨g, hmem, ho⟩ | ho)
    · exact ⟨g, mem_append_left _ hmem, ho⟩
    · exact ⟨group, mem_append_right _ (mem_singleton_self group), ho⟩

theorem Ordered.mono (h : Ordered sources pending groups) (hsub : pending ⊆ pending') :
    Ordered sources pending' groups := by
  induction groups with
  | nil => trivial
  | cons group groups ih =>
    exact ⟨fun name n i ho hn hi => (h.1 name n i ho hn hi).imp (fun h => hsub h) id, ih h.2⟩

theorem Ordered.addGroup {owner : Option String}
    (h : Ordered sources (pending ∪ entryOrigins entries) groups)
    (howner : ∀ name n i, owner = some name → sources name = some n → i < n → .attach name i ∈ pending) :
    Ordered sources pending (groups ++ [(owner, entries)]) := by
  induction groups with
  | nil => exact ⟨fun name n i ho hn hi => .inl (howner name n i ho hn hi), trivial⟩
  | cons group groups ih =>
    refine ⟨fun name n i ho hn hi => ?_, ih h.2⟩
    show _ ∈ pending ∪ groupOrigins (groups ++ [(owner, entries)])
    rw [groupOrigins_concat]
    rcases h.1 name n i ho hn hi with (hpending | hentry) | hlater
    · exact .inl hpending
    · exact .inr (.inr hentry)
    · exact .inr (.inl hlater)

theorem Placed.mono (h : Placed objects plan pending) (hsub : pending ⊆ pending') :
    Placed objects plan pending' :=
  ⟨h.ordered.mono hsub, fun n hn hu => (h.driver n hn hu).imp (fun h => hsub h) id⟩

theorem Placed.addGroup {owner : Option String} (h : Placed objects plan (pending ∪ entryOrigins entries))
    (howner : ∀ name n i, owner = some name → plan.sources name = some n → i < n →
      .attach name i ∈ pending) :
    Placed objects { plan with groups := plan.groups ++ [(owner, entries)] } pending := by
  refine ⟨h.ordered.addGroup howner, fun n hn hu => ?_⟩
  show _ ∈ pending ∪ groupOrigins (plan.groups ++ [(owner, entries)])
  rw [groupOrigins_concat]
  rcases h.driver n hn hu with (hpending | hentry) | hlater
  · exact .inl hpending
  · exact .inr (.inr hentry)
  · exact .inr (.inl hlater)

variable {name : String}

theorem Ordered.attach {index : Nat} (h : Ordered sources pending groups)
    (hindex : ∀ i < index, ∃ n, sources name = some n ∧ i < n) :
    Ordered (update sources name (some (index + 1))) (pending ∪ {.attach name index}) groups := by
  induction groups with
  | nil => trivial
  | cons group groups ih =>
    refine ⟨fun name' n i ho hn hi => ?_, ih h.2⟩
    by_cases heq : name' = name
    · subst heq
      rw [update_self] at hn
      obtain rfl := some.inj hn
      rcases Nat.lt_succ_iff_lt_or_eq.1 hi with hlt | rfl
      · obtain ⟨n, hn, hlt'⟩ := hindex i hlt
        exact (h.1 name' n i ho hn hlt').imp .inl id
      · exact .inl (.inr rfl)
    · rw [update_of_ne heq] at hn
      exact (h.1 name' n i ho hn hi).imp .inl id

theorem Placed.attach {index : Nat} (h : Placed objects plan pending)
    (hindex : ∀ i < index, ∃ n, plan.sources name = some n ∧ i < n) :
    Placed objects (plan.attach name index).2 (pending ∪ {.attach name index}) :=
  ⟨h.ordered.attach hindex, fun n hn hu => (h.driver n hn hu).imp .inl id⟩

theorem attach_origins (plan : Plan M) (name : String) (index : Nat) :
    (plan.attach name index).1.origins = {.attach name index} := by
  ext o
  constructor
  · rintro ⟨entry, hmem, rfl⟩
    rw [mem_singleton.1 hmem]
    rfl
  · rintro rfl
    exact ⟨_, mem_singleton_self _, rfl⟩

theorem Placed.addSource {name : String} (h : Placed objects plan (pending ∪ part.origins))
    (hname : plan.sources name = none) :
    Placed objects (plan.addSource name part).2 (pending ∪ (plan.addSource name part).1.origins) := by
  -- the place is there before the source is
  have hattach : ∀ entries, Placed objects plan (pending ∪ entryOrigins entries) →
      Placed objects ({ plan with groups := plan.groups ++ [(some name, entries)] }.attach name 0).2
        (pending ∪ {.attach name 0}) := by
    intro entries h
    have hplace : Placed objects (plan.attach name 0).2
        (pending ∪ {.attach name 0} ∪ entryOrigins entries) :=
      (h.attach fun i hi => absurd hi (Nat.not_lt_zero i)).mono (union_right_comm .. ▸ subset_rfl)
    refine hplace.addGroup fun name' n i ho hn hi => ?_
    obtain rfl := some.inj ho
    rw [attach_sources_self] at hn
    obtain rfl := some.inj hn
    obtain rfl := Nat.lt_one_iff.1 hi
    exact .inr rfl
  have hnone : Placed objects plan pending → Placed objects plan (pending ∪ entryOrigins ([] : List (Entry M))) :=
    fun h => h.mono subset_union_left
  cases part with
  | nothing => exact hnone (h.mono (union_empty _).subset)
  | source entries =>
    show Placed objects (Plan.attach _ name 0).2 (pending ∪ (Plan.attach _ name 0).1.origins)
    rw [attach_origins]
    exact hattach entries h
  | pipe flags route tailed =>
    cases tailed with
    | false => exact hnone (h.mono (union_empty _).subset)
    | true =>
      show Placed objects (Plan.attach _ name 0).2 (pending ∪ (Plan.attach _ name 0).1.origins)
      rw [attach_origins]
      exact hattach [] (hnone (h.mono (union_empty _).subset))

theorem Placed.setDestinations (h : Placed objects plan pending)
    (destinations : String → Option (Route.Hop M)) :
    Placed objects { plan with destinations := destinations } pending := ⟨h.ordered, h.driver⟩

theorem Placed.addDestination (h : Placed objects plan (pending ∪ part.origins)) :
    Placed objects (plan.addDestination name part).2 pending := by
  cases part with
  | nothing => exact (h.mono (union_empty _).subset).setDestinations _
  | source entries =>
    exact (@Placed.addGroup M objects plan pending entries none h nofun).setDestinations _
  | pipe flags route tailed => exact (h.mono (union_empty _).subset).setDestinations _

theorem addDestination_origins (plan : Plan M) (name : String) (part : Part M) :
    (plan.addDestination name part).1.origins = ∅ := by
  cases part <;> rfl

theorem SequencePart.add_origins {s s' : SequencePart M} (h : s.add part = .ok s') :
    s'.origins = s.origins ∪ part.origins := by
  cases s with
  | start =>
    cases part with
    | nothing => cases h; exact (union_empty _).symm
    | source entries => cases h; exact (empty_union _).symm
    | pipe flags route tailed => cases h; exact (union_empty _).symm
  | source entries rest =>
    cases part with
    | nothing => cases h; exact (union_empty _).symm
    | source more => cases h; exact entryOrigins_append ..
    | pipe flags route tailed => cases h; exact (union_empty _).symm
  | pipe first route =>
    cases part with
    | nothing => cases h; exact (union_empty _).symm
    | source entries => cases h
    | pipe flags route tailed => cases h; exact (union_empty _).symm

theorem SequencePart.finish_origins {s : SequencePart M} {flags : LogFlags}
    (h : s.finish flags = .ok part) : part.origins = s.origins := by
  cases s with
  | start =>
    rw [SequencePart.finish] at h
    split at h
    · cases h
    · cases h
      rfl
  | source entries rest => cases h; exact entryOrigins_andThen ..
  | pipe first route => cases h; rfl

theorem JunctionPart.add_origins {s s' : JunctionPart M} {isFirst : Bool}
    (h : s.add isFirst part = .ok s') : s'.origins = s.origins ∪ part.origins := by
  cases s with
  | start =>
    cases part with
    | nothing => cases h; exact (union_empty _).symm
    | source entries => cases h; exact (empty_union _).symm
    | pipe flags route tailed =>
      rw [JunctionPart.add] at h
      split at h
      · cases h; exact (union_empty _).symm
      · cases h
  | source entries =>
    cases part with
    | nothing => cases h; exact (union_empty _).symm
    | source more => cases h; exact entryOrigins_append ..
    | pipe flags route tailed => cases h
  | fork branches =>
    cases part with
    | nothing => cases h
    | source entries => cases h
    | pipe flags route tailed => cases h; exact (union_empty _).symm

theorem JunctionPart.finish_origins (s : JunctionPart M) : s.finish.origins = s.origins := by
  cases s <;> rfl

theorem planSingle_placed {object : Nat} (h : Placed objects plan pending)
    (hplan : planSingle objects object plan = .ok (part, plan')) :
    Placed objects plan' (pending ∪ part.origins) := by
  rw [planSingle] at hplan
  split at hplan
  · cases hplan
    refine ⟨h.ordered.mono subset_union_left, fun n hn hu => ?_⟩
    by_cases heq : n = object
    · subst heq
      rw [hn]
      exact .inl (.inr ⟨_, mem_singleton_self _, rfl⟩)
    · have hu : update plan.used object true n = true := hu
      rw [update_of_ne heq] at hu
      exact (h.driver n hn hu).imp .inl id
  · split at hplan
    · cases hplan
      exact h.mono subset_union_left
    · cases hplan

theorem planNode_placed (h : Placed objects plan pending) (hcached : Cached definitions plan)
    (hplan : planNode definitions objects fuel node plan = .ok (part, plan')) :
    Placed objects plan' (pending ∪ part.origins) := by
  induction fuel generalizing node plan part plan' pending with
  | zero => cases hplan
  | succ fuel ih =>
    cases node with
    | single object => exact planSingle_placed h hplan
    | sequence flags children =>
      rw [planNode, planSequence] at hplan
      split at hplan
      · cases hplan
      · obtain ⟨⟨s, plan1⟩, hloop, hfinish⟩ := bind_eq_ok.1 hplan
        obtain ⟨part', hpart, heq⟩ := map_eq_ok.1 hfinish
        cases heq
        have hstart : Placed objects plan (pending ∪ (SequencePart.start : SequencePart M).origins) :=
          h.mono subset_union_left
        have hend := (@planSequenceLoop_invariant M _ children
          (fun s plan => Placed objects plan (pending ∪ s.origins) ∧ Cached definitions plan)
          (fun child _ s plan part plan' s' hc hchild hadd => ⟨by
            rw [SequencePart.add_origins hadd, ← union_assoc]
            exact ih hc.1 hc.2 hchild, (planNode_unfolds hc.2 hchild).2⟩) _ _ _ _ ⟨hstart, hcached⟩ hloop).1.1
        rw [SequencePart.finish_origins hpart]
        exact hend
    | junction children =>
      obtain ⟨⟨s, plan1⟩, hloop, heq⟩ := map_eq_ok.1 hplan
      cases heq
      have hstart : Placed objects plan (pending ∪ (JunctionPart.start : JunctionPart M).origins) :=
        h.mono subset_union_left
      have hend := (@planJunctionLoop_invariant M _ children
        (fun s plan => Placed objects plan (pending ∪ s.origins) ∧ Cached definitions plan)
        (fun child _ _ s plan part plan' s' hc hchild hadd => ⟨by
          rw [JunctionPart.add_origins hadd, ← union_assoc]
          exact ih hc.1 hc.2 hchild, (planNode_unfolds hc.2 hchild).2⟩) _ _ _ _ _ ⟨hstart, hcached⟩
          hloop).1.1
      rw [JunctionPart.finish_origins]
      exact hend
    | reference content name =>
      rw [planNode, planReference] at hplan
      split at hplan
      · cases hplan
      · rename_i target hdef
        split at hplan
        · split at hplan
          · rename_i index hindex
            cases hplan
            have horigins := attach_origins plan name index
            rw [Plan.attach] at horigins
            rw [horigins]
            exact h.attach fun i hi => ⟨index, hindex, hi⟩
          · rename_i hnone
            obtain ⟨⟨part1, plan1⟩, hnode, heq⟩ := map_eq_ok.1 hplan
            have hpart : part = (plan1.addSource name part1).1 := (congrArg Prod.fst heq).symm
            have hplan' : plan' = (plan1.addSource name part1).2 := (congrArg Prod.snd heq).symm
            rw [hpart, hplan']
            exact (ih h hcached hnode).addSource
              ((planNode_sources_self hcached hdef hnode).trans hnone)
        · split at hplan
          · cases hplan
            exact h.mono subset_union_left
          · obtain ⟨⟨part1, plan1⟩, hnode, heq⟩ := map_eq_ok.1 hplan
            have hpart : part = (plan1.addDestination name part1).1 := (congrArg Prod.fst heq).symm
            have hplan' : plan' = (plan1.addDestination name part1).2 := (congrArg Prod.snd heq).symm
            rw [hpart, hplan', addDestination_origins, union_empty]
            exact (ih h hcached hnode).addDestination
        · exact ih h hcached hplan

theorem Placed.addRule (h : Placed objects plan part.origins) : Placed objects (plan.addRule part) ∅ := by
  cases part with
  | nothing => exact h
  | source entries =>
    exact @Placed.addGroup M objects plan ∅ entries none (h.mono (empty_union _).superset) nofun
  | pipe flags route tailed => exact h

theorem Cached.addRule (h : Cached definitions plan) (part : Part M) :
    Cached definitions (plan.addRule part) := by
  cases part with
  | nothing => exact h
  | source entries => exact ⟨h.source, h.destination⟩
  | pipe flags route tailed => exact h

/-! ## Log statements -/

/-- The pipes and the plan after some log statements. -/
structure RulesRefined (definitions : Content → String → Option LogExprNode)
    (objects : Nat → ObjectKind M) (tree : CfgTree M) (plan : Plan M) : Prop where
  inv : Inv objects tree plan ∅
  cached : Cached definitions plan
  placed : Placed objects plan ∅

variable {tree : CfgTree M}

theorem Inv.addRule {before : CfgTree M} {head tail : Option PipeId}
    (h : Refined objects before ∅ (head, tail, tree) (part, plan)) :
    Inv objects tree (plan.addRule part) ∅ := by
  obtain ⟨-, hends, hpart⟩ := h
  have hinv : Inv objects tree plan ∅ := hends.release subset_union_left
  cases part with
  | nothing => exact hinv
  | pipe flags route tailed => exact hinv
  | source entries =>
    obtain ⟨region, last, -, -, hregion, hin, -, hnext, hentries⟩ := hpart
    exact hinv.addGroup ⟨region, last, hregion, hin, hnext, hentries⟩

theorem refines_rules (sources : List String) (rules : List LogExprNode) {tree : CfgTree M}
    (h : RulesRefined definitions objects tree plan) :
    Agrees (RulesRefined definitions objects) (compileRules definitions fuel sources rules tree)
      (planRules definitions objects fuel sources rules plan) := by
  induction rules generalizing tree plan with
  | nil => exact .ok h
  | cons rule rules ih =>
    rw [compileRules, planRules]
    refine (refines_node fuel (catchAll sources rule) tree plan ∅ h.inv h.cached).bind
      fun compiled planned hplan hrefined => ?_
    have hplaced := planNode_placed h.placed h.cached hplan
    rw [empty_union] at hplaced
    exact ih ⟨.addRule hrefined, (planNode_unfolds h.cached hplan).2.addRule _, hplaced.addRule⟩

theorem rulesRefined_start (definitions : Content → String → Option LogExprNode)
    (objects : Nat → ObjectKind M) : RulesRefined definitions objects (objectTree objects) Plan.start := by
  refine ⟨?_, ⟨nofun, nofun⟩, trivial, nofun⟩
  exact {
    kind := fun _ => rfl
    used := fun _ => rfl
    unused := fun _ _ => rfl
    inUse := nofun
    destination := fun _ => trivial
    noSource := fun _ _ => rfl
    attached := nofun
    sourceTail := nofun
    distinct := nofun
    group := nofun }

/-! ## The messages of the sources -/

theorem EntryAt.unique {origin : Origin} {s s' : PipeId} (h : EntryAt tree origin s)
    (h' : EntryAt tree origin s') : s = s' := by
  cases origin with
  | driver n => exact h.trans h'.symm
  | attach name index =>
    obtain ⟨mpx, hops, ha, hindex⟩ := h
    obtain ⟨mpx', hops', ha', hindex'⟩ := h'
    obtain ⟨tail, ht, hm⟩ := ha.tail
    obtain ⟨tail', ht', hm'⟩ := ha'.tail
    rw [ht] at ht'
    obtain rfl := some.inj ht'
    rw [hm] at hm'
    obtain rfl := some.inj hm'
    have hk := ha.kind.symm.trans ha'.kind
    obtain rfl := PipeKind.multiplexer.inj hk
    exact some.inj (hindex.symm.trans hindex')

theorem mem_table {origin : Origin} {route : Route M} (h : (plan.table groups).lookup origin = some route) :
    (origin, route) ∈ plan.table groups := by
  obtain ⟨before, after, heq, -⟩ := lookup_eq_some_iff.1 h
  rw [heq]
  exact mem_append_right _ mem_cons_self

theorem lookup_table {groups : List (Group M)} {origin : Origin} (h : origin ∈ groupOrigins groups) :
    ∃ route, (plan.table groups).lookup origin = some route := by
  cases hl : (plan.table groups).lookup origin with
  | some route => exact ⟨route, rfl⟩
  | none =>
    exfalso
    rw [lookup_eq_none_iff] at hl
    have hmem : ∃ route, (origin, route) ∈ plan.table groups := by
      obtain ⟨group, hg, entry, he, rfl⟩ := h
      clear hl
      induction groups with
      | nil => cases hg
      | cons g groups ih =>
        rcases mem_cons.1 hg with rfl | hg
        · exact ⟨_, mem_append_left _ (mem_map.2 ⟨entry, he, rfl⟩)⟩
        · obtain ⟨route, hroute⟩ := ih hg
          exact ⟨route, mem_append_right _ hroute⟩
    obtain ⟨route, hroute⟩ := hmem
    simpa using hl _ hroute

theorem runsNext_behind {tail : PipeId} {table : List (Origin × Route M)}
    (h : Inv objects tree plan ∅) (ht : tree.aux .source name = some tail)
    (hentries : ∀ n, plan.sources name = some n → ∀ i < n, ∀ s, EntryAt tree (.attach name i) s →
      (tree.pipes s).flags = .none ∧ Runs tree.pipes s (routeFrom table (.attach name i))) :
    RunsNext tree.pipes (tree.pipes tail).pipeNext (plan.behind table name) := by
  cases hn : plan.sources name with
  | none =>
    rw [h.noSource name hn] at ht
    cases ht
  | some n =>
    obtain ⟨mpx, hops, ha, hlen⟩ := h.attached name n hn
    obtain ⟨tail', ht', hm⟩ := ha.tail
    obtain rfl := some.inj (ht.symm.trans ht')
    rw [hm]
    have hnext : RunsNext tree.pipes (tree.pipes mpx).pipeNext .drop := by
      rw [ha.next]
      rfl
    have hhops : RunsHops tree.pipes hops ((List.range n).map fun index =>
        (.none, routeFrom table (.attach name index))) := by
      rw [RunsHops, forall₂_iff_get]
      refine ⟨by rw [length_map, length_range, hlen], fun i hi hi' => ?_⟩
      rw [get_eq_getElem, get_eq_getElem, getElem_map, getElem_range]
      obtain ⟨hflags, hruns⟩ := hentries n hn i (hlen ▸ hi) hops[i]
        ⟨mpx, hops, ha, getElem?_eq_getElem hi⟩
      refine ⟨hflags, ?_⟩
      show Runs tree.pipes hops[i] (.flowControl false (routeFrom table (.attach name i)))
      rw [Route.flowControl_false]
      exact hruns
    have hrun := runs_multiplexer ha.kind hhops hnext
    rw [RunsBody, ha.flags] at hrun
    show Runs tree.pipes mpx _
    rw [Plan.behind, hn]
    exact Route.flowControl_false (Route.multiplexer _ _) ▸ hrun

theorem runs_table (h : Inv objects tree plan ∅) (hgroups : ∀ group ∈ groups, GroupOk tree ∅ group)
    (hordered : Ordered plan.sources ∅ groups) {origin : Origin} {route : Route M}
    (hmem : (origin, route) ∈ plan.table groups) {s : PipeId} (hat : EntryAt tree origin s) :
    (tree.pipes s).flags = .none ∧ Runs tree.pipes s route := by
  induction groups generalizing origin route s with
  | nil => cases hmem
  | cons group groups ih =>
    obtain ⟨owner, entries⟩ := group
    have ih' := fun {origin route} (hmem : (origin, route) ∈ plan.table groups) {s} hat =>
      @ih (fun g hg => hgroups g (mem_cons_of_mem _ hg)) hordered.2 origin route hmem s hat
    rcases mem_append.1 hmem with hmem | hmem
    · obtain ⟨entry, hentry, heq⟩ := mem_map.1 hmem
      obtain ⟨rfl, rfl⟩ := Prod.mk.inj heq
      obtain ⟨region, tail, -, htail, howner, hentries⟩ := hgroups _ mem_cons_self
      obtain ⟨s', -, hat', hflags, htakes⟩ := (hentries entry hentry).pipe
      obtain rfl := hat'.unique hat
      refine ⟨hflags, ?_⟩
      have hnext : RunsNext tree.pipes (tree.pipes tail).pipeNext
          (plan.behindGroup (plan.table groups) owner) := by
        cases owner with
        | none =>
          rw [howner]
          rfl
        | some name =>
          refine runsNext_behind h howner fun n hn i hi s hat => ?_
          obtain ⟨route, hroute⟩ := lookup_table
            ((hordered.1 name n i rfl hn hi).resolve_left (notMem_empty _))
          have hthis := ih' (mem_table hroute) hat
          rw [routeFrom, hroute]
          exact hthis
      have hrun := htakes tree.pipes (Fits.refl tree.pipes region none tail) _ hnext
      rw [RunsBody, hflags] at hrun
      exact Route.flowControl_false (entry.route _) ▸ hrun
    · exact ih' hmem hat

theorem RulesRefined.runs (h : RulesRefined definitions objects tree plan) {n : Nat}
    (hn : objects n = .source) : Runs tree.pipes (.object n) (plan.emission n) := by
  rw [Plan.emission, routeFrom]
  cases hl : (plan.table plan.groups).lookup (.driver n) with
  | some route =>
    exact (runs_table h.inv h.inv.group h.placed.ordered (mem_table hl) rfl).2
  | none =>
    -- the driver is not in use
    have hunused : plan.used n = false := by
      rw [← Bool.not_eq_true]
      intro hu
      obtain ⟨route, hroute⟩ := lookup_table
        ((h.placed.driver n hn hu).resolve_left (notMem_empty _))
      rw [hl] at hroute
      cases hroute
    have hpipe := h.inv.unused n hunused
    have hnext : RunsNext tree.pipes (tree.pipes (.object n)).pipeNext .drop := by
      rw [hpipe]
      rfl
    have hrun := runs_forward (.inr ((congrArg LogPipe.kind hpipe).trans (hn ▸ rfl))) hnext
    rw [RunsBody, hpipe] at hrun
    exact Route.flowControl_false (Route.drop (M := M)) ▸ hrun

theorem cfgTreeCompile_refines (definitions : Content → String → Option LogExprNode)
    (objects : Nat → ObjectKind M) (sources : List String) (rules : List LogExprNode) (fuel : Nat) :
    Agrees (fun tree plan => ∀ n, objects n = .source → Runs tree.pipes (.object n) (plan.emission n))
      (cfgTreeCompile definitions objects sources rules fuel)
      (planRules definitions objects fuel sources rules Plan.start) := by
  exact (refines_rules sources rules (rulesRefined_start definitions objects)).imp
    fun tree plan hrefined n hn => hrefined.runs hn

end

end SyslogNg.CfgTree
