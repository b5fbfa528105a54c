import SyslogNg.CfgTree.Plan

/-!
# References

What is compiled can be unfolded: the definitions that it refers to, and those that they refer to, come
to an end. So a definition is not compiled while it is being compiled.
-/

namespace SyslogNg.CfgTree

open List

variable {M : Type}

/-! ## The loops -/

theorem Except.bind_eq_ok {ε α β : Type} {x : Except ε α} {f : α → Except ε β} {b : β} :
    x.bind f = .ok b ↔ ∃ a, x = .ok a ∧ f a = .ok b := by
  cases x with
  | error e => exact ⟨nofun, fun ⟨_, h, _⟩ => nomatch h⟩
  | ok a => exact ⟨fun h => ⟨a, rfl, h⟩, fun ⟨_, h, h'⟩ => by cases h; exact h'⟩

theorem Except.map_eq_ok {ε α β : Type} {x : Except ε α} {f : α → β} {b : β} :
    x.map f = .ok b ↔ ∃ a, x = .ok a ∧ f a = b := by
  cases x with
  | error e => exact ⟨nofun, fun ⟨_, h, _⟩ => nomatch h⟩
  | ok a =>
    exact ⟨fun h => ⟨a, rfl, Except.ok.inj h⟩, fun ⟨_, h, h'⟩ => by cases h; exact congrArg _ h'⟩

section

variable {compile : LogExprNode → Plan M → Except CompileError (Part M × Plan M)}
  {children : List LogExprNode}

theorem planSequenceLoop_invariant {I : SequencePart M → Plan M → Prop}
    (hstep : ∀ child ∈ children, ∀ s plan part plan' s', I s plan →
      compile child plan = .ok (part, plan') → s.add part = .ok s' → I s' plan')
    {s s' : SequencePart M} {plan plan' : Plan M} (hs : I s plan)
    (h : planSequenceLoop compile children (s, plan) = .ok (s', plan')) :
    I s' plan' ∧ ∀ child ∈ children, ∃ s plan part plan', I s plan ∧
      compile child plan = .ok (part, plan') := by
  induction children generalizing s plan with
  | nil =>
    cases h
    exact ⟨hs, nofun⟩
  | cons child children ih =>
    obtain ⟨⟨part, plan1⟩, hchild, hrest⟩ := Except.bind_eq_ok.1 h
    obtain ⟨s1, hadd, hloop⟩ := Except.bind_eq_ok.1 hrest
    have hnext := hstep child mem_cons_self s plan part plan1 s1 hs hchild hadd
    obtain ⟨hend, hall⟩ := ih (fun c hc => hstep c (mem_cons_of_mem _ hc)) hnext hloop
    refine ⟨hend, fun c hc => ?_⟩
    rcases mem_cons.1 hc with rfl | hc
    · exact ⟨s, plan, part, plan1, hs, hchild⟩
    · exact hall c hc

theorem planJunctionLoop_invariant {I : JunctionPart M → Plan M → Prop}
    (hstep : ∀ child ∈ children, ∀ isFirst s plan part plan' s', I s plan →
      compile child plan = .ok (part, plan') → s.add isFirst part = .ok s' → I s' plan')
    {isFirst : Bool} {s s' : JunctionPart M} {plan plan' : Plan M} (hs : I s plan)
    (h : planJunctionLoop compile isFirst children (s, plan) = .ok (s', plan')) :
    I s' plan' ∧ ∀ child ∈ children, ∃ s plan part plan', I s plan ∧
      compile child plan = .ok (part, plan') := by
  induction children generalizing isFirst s plan with
  | nil =>
    cases h
    exact ⟨hs, nofun⟩
  | cons child children ih =>
    obtain ⟨⟨part, plan1⟩, hchild, hrest⟩ := Except.bind_eq_ok.1 h
    obtain ⟨s1, hadd, hloop⟩ := Except.bind_eq_ok.1 hrest
    have hnext := hstep child mem_cons_self isFirst s plan part plan1 s1 hs hchild hadd
    obtain ⟨hend, hall⟩ := ih (fun c hc => hstep c (mem_cons_of_mem _ hc)) hnext hloop
    refine ⟨hend, fun c hc => ?_⟩
    rcases mem_cons.1 hc with rfl | hc
    · exact ⟨s, plan, part, plan1, hs, hchild⟩
    · exact hall c hc

end

/-! ## Unfolding -/

section

variable (definitions : Content → String → Option LogExprNode)

inductive Unfolds : LogExprNode → Prop where
  | single (object : Nat) : Unfolds (.single object)
  | reference {content : Content} {name : String} :
      (∀ node, definitions content name = some node → Unfolds node) →
      Unfolds (.reference content name)
  | sequence (flags : LogFlags) {children : List LogExprNode} :
      (∀ child ∈ children, Unfolds child) → Unfolds (.sequence flags children)
  | junction {children : List LogExprNode} :
      (∀ child ∈ children, Unfolds child) → Unfolds (.junction children)

/-- The node refers to a definition, or one that it refers to does. -/
inductive Refers (content : Content) (name : String) : LogExprNode → Prop where
  | here : Refers content name (.reference content name)
  | through {content' : Content} {name' : String} {node : LogExprNode} :
      definitions content' name' = some node → Refers content name node →
      Refers content name (.reference content' name')
  | sequence (flags : LogFlags) {child : LogExprNode} {children : List LogExprNode} :
      child ∈ children → Refers content name child → Refers content name (.sequence flags children)
  | junction {child : LogExprNode} {children : List LogExprNode} :
      child ∈ children → Refers content name child → Refers content name (.junction children)

/-- The definitions that are compiled can be unfolded. -/
structure Cached (plan : Plan M) : Prop where
  source : ∀ name index, plan.sources name = some index →
    Unfolds definitions (.reference .source name)
  destination : ∀ name hop, plan.destinations name = some hop →
    Unfolds definitions (.reference .destination name)

end

section

variable {definitions : Content → String → Option LogExprNode} {objects : Nat → ObjectKind M}
  {content : Content} {name : String} {node target : LogExprNode} {plan plan' : Plan M}
  {part : Part M} {fuel : Nat}

theorem Unfolds.not_refers (h : Unfolds definitions node)
    (htarget : definitions content name = some target) (hnode : Refers definitions content name node) :
    ¬Refers definitions content name target := by
  intro hself
  induction h with
  | single object => cases hnode
  | reference _ ih =>
    cases hnode with
    | here => exact ih target htarget hself
    | through hdef hrefers => exact ih _ hdef hrefers
  | sequence flags _ ih =>
    cases hnode with
    | sequence _ hmem hrefers => exact ih _ hmem hrefers
  | junction _ ih =>
    cases hnode with
    | junction hmem hrefers => exact ih _ hmem hrefers

theorem Unfolds.self (h : Unfolds definitions target) (htarget : definitions content name = some target) :
    ¬Refers definitions content name target :=
  fun hself => h.not_refers htarget hself hself

theorem Cached.attach (h : Cached definitions plan)
    (hnode : Unfolds definitions (.reference .source name)) (index : Nat) :
    Cached definitions (plan.attach name index).2 where
  source name' index' hsome := by
    by_cases heq : name' = name
    · exact heq ▸ hnode
    · exact h.source name' index' ((attach_sources_of_ne heq plan index).symm.trans hsome)
  destination := h.destination

theorem Cached.addSource (h : Cached definitions plan)
    (hnode : Unfolds definitions (.reference .source name)) (part : Part M) :
    Cached definitions (plan.addSource name part).2 := by
  have hgroups : ∀ groups, Cached definitions { plan with groups := groups } :=
    fun groups => ⟨h.source, h.destination⟩
  cases part with
  | nothing => exact h
  | source entries => exact (hgroups _).attach hnode 0
  | pipe flags route tailed =>
    cases tailed with
    | false => exact h
    | true => exact (hgroups _).attach hnode 0

theorem Cached.addDestination (h : Cached definitions plan)
    (hnode : Unfolds definitions (.reference .destination name)) (part : Part M) :
    Cached definitions (plan.addDestination name part).2 := by
  have hupdate : ∀ hop groups, Cached definitions { plan with
      destinations := Function.update plan.destinations name hop, groups := groups } := by
    refine fun hop groups => ⟨h.source, fun name' hop' hsome => ?_⟩
    by_cases heq : name' = name
    · exact heq ▸ hnode
    · exact h.destination name' hop' ((Function.update_of_ne heq _ _).symm.trans hsome)
  cases part with
  | nothing => exact hupdate _ _
  | source entries => exact hupdate _ _
  | pipe flags route tailed => exact hupdate _ _

theorem planNode_unfolds (h : Cached definitions plan)
    (hplan : planNode definitions objects fuel node plan = .ok (part, plan')) :
    Unfolds definitions node ∧ Cached definitions plan' := by
  induction fuel generalizing node plan part plan' with
  | zero => cases hplan
  | succ fuel ih =>
    cases node with
    | single object =>
      refine ⟨.single object, ?_⟩
      rw [planNode, planSingle] at hplan
      split at hplan
      · cases hplan
        exact ⟨h.source, h.destination⟩
      · split at hplan
        · cases hplan
          exact h
        · cases hplan
    | sequence flags children =>
      rw [planNode, planSequence] at hplan
      split at hplan
      · cases hplan
      · obtain ⟨⟨s, plan1⟩, hloop, hfinish⟩ := Except.bind_eq_ok.1 hplan
        obtain ⟨_, _, heq⟩ := Except.map_eq_ok.1 hfinish
        cases heq
        obtain ⟨hcached, hall⟩ := @planSequenceLoop_invariant M _ children
          (fun _ plan => Cached definitions plan)
          (fun child _ s plan part plan' s' hc hchild _ => (ih hc hchild).2) _ _ _ _ h hloop
        refine ⟨.sequence flags fun child hmem => ?_, hcached⟩
        obtain ⟨_, _, _, _, hc, hchild⟩ := hall child hmem
        exact (ih hc hchild).1
    | junction children =>
      obtain ⟨⟨s, plan1⟩, hloop, heq⟩ := Except.map_eq_ok.1 hplan
      cases heq
      obtain ⟨hcached, hall⟩ := @planJunctionLoop_invariant M _ children
        (fun _ plan => Cached definitions plan)
        (fun child _ _ s plan part plan' s' hc hchild _ => (ih hc hchild).2) _ _ _ _ _ h hloop
      refine ⟨.junction fun child hmem => ?_, hcached⟩
      obtain ⟨_, _, _, _, hc, hchild⟩ := hall child hmem
      exact (ih hc hchild).1
    | reference content name =>
      rw [planNode, planReference] at hplan
      split at hplan
      · cases hplan
      · rename_i target hdef
        have hunfolds : Unfolds definitions target → Unfolds definitions (.reference content name) := by
          intro ht
          refine .reference fun node hnode => ?_
          rw [hdef] at hnode
          exact Option.some.inj hnode ▸ ht
        split at hplan
        · split at hplan
          · rename_i index hindex
            cases hplan
            exact ⟨h.source name index hindex, h.attach (h.source name index hindex) index⟩
          · obtain ⟨⟨part1, plan1⟩, hnode, heq⟩ := Except.map_eq_ok.1 hplan
            obtain ⟨ht, hc⟩ := ih h hnode
            refine ⟨hunfolds ht, ?_⟩
            have hplan' : plan' = (plan1.addSource name part1).2 := (congrArg Prod.snd heq).symm
            exact hplan' ▸ hc.addSource (hunfolds ht) part1
        · split at hplan
          · rename_i hop hhop
            cases hplan
            exact ⟨h.destination name hop hhop, h⟩
          · obtain ⟨⟨part1, plan1⟩, hnode, heq⟩ := Except.map_eq_ok.1 hplan
            obtain ⟨ht, hc⟩ := ih h hnode
            refine ⟨hunfolds ht, ?_⟩
            have hplan' : plan' = (plan1.addDestination name part1).2 := (congrArg Prod.snd heq).symm
            exact hplan' ▸ hc.addDestination (hunfolds ht) part1
        · obtain ⟨ht, hc⟩ := ih h hplan
          exact ⟨hunfolds ht, hc⟩

theorem planNode_sources (hnot : ¬Refers definitions .source name node)
    (hplan : planNode definitions objects fuel node plan = .ok (part, plan')) :
    plan'.sources name = plan.sources name := by
  induction fuel generalizing node plan part plan' with
  | zero => cases hplan
  | succ fuel ih =>
    cases node with
    | single object =>
      rw [planNode, planSingle] at hplan
      split at hplan
      · cases hplan
        rfl
      · split at hplan
        · cases hplan
          rfl
        · cases hplan
    | sequence flags children =>
      rw [planNode, planSequence] at hplan
      split at hplan
      · cases hplan
      · obtain ⟨⟨s, plan1⟩, hloop, hfinish⟩ := Except.bind_eq_ok.1 hplan
        obtain ⟨_, _, heq⟩ := Except.map_eq_ok.1 hfinish
        cases heq
        exact (@planSequenceLoop_invariant M _ children (fun _ p => p.sources name = plan.sources name)
          (fun child hmem s plan part plan' s' hc hchild _ =>
            (ih (fun hr => hnot (.sequence flags hmem hr)) hchild).trans hc) _ _ _ _ rfl hloop).1
    | junction children =>
      obtain ⟨⟨s, plan1⟩, hloop, heq⟩ := Except.map_eq_ok.1 hplan
      cases heq
      exact (@planJunctionLoop_invariant M _ children (fun _ p => p.sources name = plan.sources name)
        (fun child hmem _ s plan part plan' s' hc hchild _ =>
          (ih (fun hr => hnot (.junction hmem hr)) hchild).trans hc) _ _ _ _ _ rfl hloop).1
    | reference content name' =>
      have hattach : ∀ (plan : Plan M) index, Content.source = content →
          (plan.attach name' index).2.sources name = plan.sources name := by
        rintro plan index rfl
        have hne : name ≠ name' := by
          rintro rfl
          exact hnot .here
        exact attach_sources_of_ne hne plan index
      rw [planNode, planReference] at hplan
      split at hplan
      · cases hplan
      · rename_i target hdef
        have hinner : ¬Refers definitions .source name target := fun hr => hnot (.through hdef hr)
        split at hplan
        · split at hplan
          · cases hplan
            exact hattach plan _ rfl
          · obtain ⟨⟨part1, plan1⟩, hnode, heq⟩ := Except.map_eq_ok.1 hplan
            rw [← ih hinner hnode]
            have hplan' : plan' = (plan1.addSource name' part1).2 := (congrArg Prod.snd heq).symm
            rw [hplan']
            cases part1 with
            | nothing => rfl
            | source entries => exact hattach _ 0 rfl
            | pipe flags route tailed =>
              cases tailed with
              | false => rfl
              | true => exact hattach _ 0 rfl
        · split at hplan
          · cases hplan
            rfl
          · obtain ⟨⟨part1, plan1⟩, hnode, heq⟩ := Except.map_eq_ok.1 hplan
            rw [← ih hinner hnode]
            have hplan' : plan' = (plan1.addDestination name' part1).2 := (congrArg Prod.snd heq).symm
            rw [hplan']
            cases part1 with
            | nothing => rfl
            | source entries => rfl
            | pipe flags route tailed => rfl
        · exact ih hinner hplan

theorem planNode_sources_self (h : Cached definitions plan)
    (htarget : definitions .source name = some target)
    (hplan : planNode definitions objects fuel target plan = .ok (part, plan')) :
    plan'.sources name = plan.sources name :=
  planNode_sources ((planNode_unfolds h hplan).1.self htarget) hplan

end

end SyslogNg.CfgTree
