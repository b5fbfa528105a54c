import SyslogNg.CfgTree.Ending
import SyslogNg.Filter.Calls

/-!
# Filters of a configuration

The pipes of the parser that `cfg_tree_compile` comes to are the ones that are initialized, and the
`filter()` calls in a filter are bound when its pipe is initialized. An evaluation comes to its end where
there is no endless chain of calls.
-/

namespace SyslogNg.CfgTree

open Lib Except Function
open Function (update_of_ne update_self)

variable {M : Type}

/-! ## The pipes that are in use -/

section

variable {definitions : Content → String → Option LogExprNode} {objects : Nat → ObjectKind M}

open Relation

def Reaches (definitions : Content → String → Option LogExprNode) (objects : Nat → ObjectKind M)
    (place : Place M) (n : Nat) : Prop :=
  ∃ plan, ReflTransGen (Enters definitions objects) place (.single n, plan)

theorem reaches_single (object : Nat) (plan : Plan M) (n : Nat) :
    Reaches definitions objects (.single object, plan) n ↔ n = object := by
  constructor
  · rintro ⟨plan', hway⟩
    rcases hway.cases_head with heq | ⟨_, henters, _⟩
    · cases heq
      rfl
    · cases henters
  · rintro rfl
    exact ⟨plan, .refl⟩

theorem reaches_of_enters (node : LogExprNode) (plan : Plan M) (n : Nat)
    (hnode : ∀ object, node ≠ .single object) :
    Reaches definitions objects (node, plan) n ↔
      ∃ place, Enters definitions objects (node, plan) place ∧ Reaches definitions objects place n := by
  constructor
  · rintro ⟨plan', hway⟩
    rcases hway.cases_head with heq | ⟨place, henters, hway⟩
    · exact absurd (congrArg Prod.fst heq) (hnode n)
    · exact ⟨place, henters, plan', hway⟩
  · rintro ⟨place, henters, plan', hway⟩
    exact ⟨plan', .head henters hway⟩

theorem reaches_of_none {node : LogExprNode} {plan : Plan M} (n : Nat)
    (hnode : ∀ object, node ≠ .single object)
    (hnone : ∀ place, ¬Enters definitions objects (node, plan) place) :
    ¬Reaches definitions objects (node, plan) n := by
  rw [reaches_of_enters node plan n hnode]
  rintro ⟨place, henters, -⟩
  exact hnone place henters

theorem reaches_of_one (node : LogExprNode) (plan : Plan M) {place : Place M} (n : Nat)
    (hnode : ∀ object, node ≠ .single object) (henters : Enters definitions objects (node, plan) place)
    (hone : ∀ place', Enters definitions objects (node, plan) place' → place' = place) :
    Reaches definitions objects (node, plan) n ↔ Reaches definitions objects place n := by
  rw [reaches_of_enters node plan n hnode]
  refine ⟨?_, fun hreaches => ⟨place, henters, hreaches⟩⟩
  rintro ⟨place', henters', hreaches⟩
  exact hone place' henters' ▸ hreaches

theorem addSource_used (plan : Plan M) (name : String) (part : Part M) :
    (plan.addSource name part).2.used = plan.used := by
  cases part with
  | nothing => rfl
  | source entries => rfl
  | pipe flags route tailed =>
    cases tailed with
    | false => rfl
    | true => rfl

theorem addDestination_used (plan : Plan M) (name : String) (part : Part M) :
    (plan.addDestination name part).2.used = plan.used := by
  cases part with
  | nothing => rfl
  | source entries => rfl
  | pipe flags route tailed => rfl

theorem planNode_used {fuel : Nat} {node : LogExprNode} {plan plan' : Plan M} {part : Part M}
    (h : planNode definitions objects fuel node plan = .ok (part, plan')) (n : Nat) :
    plan'.used n = true ↔ plan.used n = true ∨ Reaches definitions objects (node, plan) n := by
  induction fuel generalizing node plan part plan' with
  | zero => cases h
  | succ fuel ih =>
    cases node with
    | single object =>
      rw [reaches_single]
      rw [planNode, planSingle] at h
      split at h
      · cases h
        show update plan.used object true n = true ↔ _
        by_cases heq : n = object
        · rw [heq, update_self]
          exact ⟨fun _ => .inr rfl, fun _ => rfl⟩
        · rw [update_of_ne heq]
          exact ⟨.inl, fun h => h.resolve_right heq⟩
      · rename_i hused
        have hused : plan.used object = true := by simpa using hused
        split at h
        · cases h
          refine ⟨.inl, fun h => h.elim id ?_⟩
          rintro rfl
          exact hused
        · cases h
    | sequence flags children =>
      rw [reaches_of_enters (.sequence flags children) plan n (by simp)]
      rw [planNode, planSequence] at h
      split at h
      · cases h
      · rename_i hcatchall
        have hcatchall := Bool.eq_false_iff.2 hcatchall
        rw [planSequenceLoop_eq] at h
        obtain ⟨⟨s, plan1⟩, hloop, hfinish⟩ := bind_eq_ok.1 h
        obtain ⟨_, _, heq⟩ := map_eq_ok.1 hfinish
        cases heq
        have hpass := @loop_collects _ _ _ (sequencePass (planNode definitions objects fuel))
          (fun s => s.2.used n = true) (fun child s => Reaches definitions objects (child, s.2) n)
          _ _ _ (fun child s s' hs => by
            obtain ⟨⟨part, plan2⟩, hchild, hadd⟩ := bind_eq_ok.1 hs
            obtain ⟨s2, _, rfl⟩ := map_eq_ok.1 hadd
            exact ih hchild) hloop
        rw [hpass]
        refine or_congr_right ⟨?_, ?_⟩
        · rintro ⟨before, child, after, s1, rfl, hbefore, hreaches⟩
          exact ⟨_, .sequence hcatchall ((planSequenceLoop_eq before _).trans hbefore), hreaches⟩
        · rintro ⟨place, henters, hreaches⟩
          cases henters with
          | @sequence _ before after child _ plan2 s1 m _ hbefore =>
            rw [planSequenceLoop_eq] at hbefore
            exact ⟨before, child, after, (s1, plan2), rfl, loop_before sequencePass_mono hbefore
              (by rw [hloop]; simp), hreaches⟩
    | junction children =>
      rw [reaches_of_enters (.junction children) plan n (by simp)]
      rw [planNode, planJunction, planJunctionLoop_eq] at h
      obtain ⟨⟨s, plan1⟩, hmap, heq⟩ := map_eq_ok.1 h
      cases heq
      obtain ⟨s', hloop, hs'⟩ := map_eq_ok.1 hmap
      have hpass := @loop_collects _ _ _ (junctionPass (planNode definitions objects fuel))
        (fun s => s.2.2.used n = true) (fun child s => Reaches definitions objects (child, s.2.2) n)
        _ _ _ (fun child s s' hs => by
          obtain ⟨⟨part, plan2⟩, hchild, hadd⟩ := bind_eq_ok.1 hs
          obtain ⟨s2, _, rfl⟩ := map_eq_ok.1 hadd
          exact ih hchild) hloop
      rw [hs'] at hpass
      rw [hpass]
      refine or_congr_right ⟨?_, ?_⟩
      · rintro ⟨before, child, after, s1, rfl, hbefore, hreaches⟩
        have hbefore : planJunctionLoop (planNode definitions objects fuel) true before
            (.start, plan) = .ok (s1.2.1, s1.2.2) := by
          rw [planJunctionLoop_eq, hbefore]
          rfl
        exact ⟨_, .junction hbefore, hreaches⟩
      · rintro ⟨place, henters, hreaches⟩
        cases henters with
        | @junction before after child _ plan2 s1 m hbefore =>
          rw [planJunctionLoop_eq] at hbefore
          obtain ⟨s2, hbefore, hs2⟩ := map_eq_ok.1 hbefore
          refine ⟨before, child, after, s2, rfl, loop_before junctionPass_mono hbefore
            (by rw [hloop]; simp), ?_⟩
          rw [hs2]
          exact hreaches
    | reference content name =>
      rw [planNode, planReference] at h
      split at h
      · cases h
      · rename_i target htarget
        have hinner : ∀ {place}, Enters definitions objects (.reference content name, plan) place →
            place = (target, plan) := by
          intro place henters
          cases henters with
          | source hnode _ => rw [htarget] at hnode; cases hnode; rfl
          | destination hnode _ => rw [htarget] at hnode; cases hnode; rfl
          | reference _ _ hnode => rw [htarget] at hnode; cases hnode; rfl
        split at h
        · split at h
          · rename_i index hindex
            cases h
            refine ⟨.inl, fun h => h.elim id fun hreaches => ?_⟩
            refine absurd hreaches (reaches_of_none n (by simp) fun place henters => ?_)
            cases henters with
            | source _ hnone => rw [hindex] at hnone; cases hnone
            | reference hsource _ _ => exact hsource rfl
          · rename_i hindex
            obtain ⟨⟨part1, plan1⟩, hnode, heq⟩ := map_eq_ok.1 h
            have hplan' : plan' = (plan1.addSource name part1).2 := (congrArg Prod.snd heq).symm
            rw [reaches_of_one (.reference .source name) plan n (by simp) (.source htarget hindex)
              fun _ henters => hinner henters, hplan',
              addSource_used]
            exact ih hnode
        · split at h
          · rename_i hop hhop
            cases h
            refine ⟨.inl, fun h => h.elim id fun hreaches => ?_⟩
            refine absurd hreaches (reaches_of_none n (by simp) fun place henters => ?_)
            cases henters with
            | destination _ hnone => rw [hhop] at hnone; cases hnone
            | reference _ hdestination _ => exact hdestination rfl
          · rename_i hhop
            obtain ⟨⟨part1, plan1⟩, hnode, heq⟩ := map_eq_ok.1 h
            have hplan' : plan' = (plan1.addDestination name part1).2 := (congrArg Prod.snd heq).symm
            rw [reaches_of_one (.reference .destination name) plan n (by simp) (.destination htarget hhop)
              fun _ henters => hinner henters, hplan',
              addDestination_used]
            exact ih hnode
        · rename_i hsource hdestination
          rw [reaches_of_one (.reference content name) plan n (by simp)
            (.reference hsource hdestination htarget) fun _ henters => hinner henters]
          exact ih h

theorem planRules_used {sources : List String} {rules : List LogExprNode} {fuel : Nat} {plan : Plan M}
    (h : planRules definitions objects fuel sources rules Plan.start = .ok plan) (n : Nat) :
    plan.used n = true ↔ ∃ plan', Comes definitions objects sources rules (.single n, plan') := by
  rw [planRules_eq] at h
  have hrules := @loop_collects _ _ _ (rulePass (planNode definitions objects fuel) sources)
    (fun plan => plan.used n = true)
    (fun rule plan => Reaches definitions objects (catchAll sources rule, plan) n) _ _ _
    (fun rule plan plan' hrule => by
      obtain ⟨⟨part, plan1⟩, hnode, rfl⟩ := map_eq_ok.1 hrule
      have hused : (plan1.addRule part).used = plan1.used := by cases part <;> rfl
      rw [hused]
      exact planNode_used hnode n) h
  rw [hrules]
  constructor
  · rintro (hstart | ⟨before, rule, after, plan1, heq, hbefore, plan', hway⟩)
    · cases hstart
    · exact ⟨plan', before, rule, after, fuel, plan1, heq, (planRules_eq _).trans hbefore, hway⟩
  · rintro ⟨plan', before, rule, after, m, plan1, rfl, hbefore, hway⟩
    rw [planRules_eq] at hbefore
    exact .inr ⟨before, rule, after, plan1, rfl, loop_before rulePass_mono hbefore (by rw [h]; nofun),
      plan', hway⟩

end

/-! ## The pipes that are initialized -/

def Listed (tree : CfgTree M) : Prop :=
  ∀ n, .object n ∈ tree.initializedPipes ↔ (tree.pipes (.object n)).inlined = true

def ListsSame (tree tree' : CfgTree M) : Prop :=
  ∀ n, (.object n ∈ tree'.initializedPipes ↔ .object n ∈ tree.initializedPipes) ∧
    (tree'.pipes (.object n)).inlined = (tree.pipes (.object n)).inlined

section

variable {tree tree' tree'' : CfgTree M}

theorem ListsSame.listed (h : ListsSame tree tree') (htree : Listed tree) : Listed tree' := by
  intro n
  rw [(h n).1, (h n).2]
  exact htree n

theorem ListsSame.trans (h : ListsSame tree tree') (h' : ListsSame tree' tree'') :
    ListsSame tree tree'' :=
  fun n => ⟨(h' n).1.trans (h n).1, (h' n).2.trans (h n).2⟩

theorem ListsSame.refl (tree : CfgTree M) : ListsSame tree tree := fun _ => ⟨Iff.rfl, rfl⟩

theorem listsSame_modify (s : PipeId) {f : LogPipe M → LogPipe M}
    (hf : ∀ pipe, (f pipe).inlined = pipe.inlined) : ListsSame tree (tree.modify s f) := by
  refine fun n => ⟨Iff.rfl, ?_⟩
  show (update tree.pipes s (f (tree.pipes s)) (.object n)).inlined = _
  by_cases heq : PipeId.object n = s
  · rw [← heq, update_self]
    exact hf _
  · rw [update_of_ne heq]

theorem listsSame_append (s next : PipeId) : ListsSame tree (tree.append s next) :=
  listsSame_modify s fun _ => rfl

theorem listsSame_addNextHop (mpx hop : PipeId) : ListsSame tree (tree.addNextHop mpx hop) :=
  listsSame_modify mpx fun pipe => by
    split
    · rfl
    · rfl

theorem listsSame_addFlags (s : PipeId) (flags : BranchFlags) : ListsSame tree (tree.addFlags s flags) :=
  listsSame_modify s fun _ => rfl

theorem listsSame_newPipe (kind : PipeKind M) : ListsSame tree (tree.newPipe kind) := by
  refine fun n => ⟨?_, ?_⟩
  · show .object n ∈ tree.initializedPipes ++ [.made tree.made] ↔ _
    rw [List.mem_append, List.mem_singleton]
    exact ⟨fun h => h.resolve_right nofun, .inl⟩
  · show (update tree.pipes tree.fresh (.ofKind kind) (.object n)).inlined = _
    rw [update_of_ne (object_ne_fresh n)]

theorem listed_compileSingle {object : Nat} {compiled : Compiled M} (htree : Listed tree)
    (h : compileSingle object tree = .ok compiled) : Listed compiled.2.2 := by
  rw [compileSingle] at h
  dsimp only at h
  split at h
  · cases h
    intro n
    show .object n ∈ tree.initializedPipes ++ [.object object] ↔
      (update tree.pipes (.object object) _ (.object n)).inlined = true
    rw [List.mem_append, List.mem_singleton]
    by_cases heq : n = object
    · subst heq
      rw [update_self]
      exact ⟨fun _ => rfl, fun _ => .inr rfl⟩
    · rw [update_of_ne (fun h => heq (PipeId.object.inj h)), ← htree n]
      exact ⟨fun h => h.resolve_right fun h => heq (PipeId.object.inj h), .inl⟩
  · split at h
    · rename_i f clone _
      cases h
      have hnew := @listsSame_newPipe M tree (.object (.process clone (some clone)))
      refine ListsSame.listed (fun n => ⟨(hnew n).1, ?_⟩) htree
      rw [CfgTree.modify]
      dsimp only
      rw [update_of_ne (object_ne_fresh n)]
      exact (hnew n).2
    · cases h

theorem listsSame_attachSource (tail : Option PipeId) :
    ListsSame tree (attachSource tail tree).2.2 := by
  rw [attachSource.eq_def]
  dsimp only
  split
  · exact listsSame_newPipe _
  · split
    · exact (listsSame_newPipe _).trans ((listsSame_newPipe _).trans
        ((listsSame_append _ _).trans (listsSame_addNextHop _ _)))
    · exact (listsSame_newPipe _).trans (listsSame_addNextHop _ _)

theorem listsSame_forkDestination (head : Option PipeId) :
    ListsSame tree (forkDestination head tree).2.2 := by
  rw [forkDestination.eq_def]
  dsimp only
  split
  · exact listsSame_newPipe _
  · exact (listsSame_newPipe _).trans (listsSame_addNextHop _ _)

theorem listsSame_setAux (content : Content) (name : String) (aux : Option PipeId) :
    ListsSame tree (tree.setAux content name aux) := fun _ => ⟨Iff.rfl, rfl⟩

theorem listsSame_sequenceChild {flags : LogFlags} {head tail : Option PipeId} {s s' : SequenceState M}
    (h : sequenceChild flags head tail s = .ok s') : ListsSame s.tree s'.tree := by
  have hfinish : ∀ {head firstPipe tree}, appendHead.finish head tail s firstPipe tree = .ok s' →
      ListsSame tree s'.tree := by
    intro head firstPipe tree h
    rw [appendHead.finish.eq_def] at h
    split at h
    · cases h
      exact .refl _
    · split at h
      · cases h
        exact .refl _
      · cases h
  rw [sequenceChild.eq_def] at h
  split at h
  · rw [appendHead] at h
    split at h
    · split at h
      · cases h
      · exact (listsSame_append _ _).trans (hfinish h)
    · exact hfinish h
  · rw [joinSource] at h
    split at h
    · cases h
    · split at h
      · cases h
        exact listsSame_append _ _
      · cases h
        exact (listsSame_newPipe _).trans ((listsSame_addFlags _ _).trans (listsSame_append _ _))
  · cases h
    exact .refl _

theorem listsSame_sequenceEnd {flags : LogFlags} {s : SequenceState M} {compiled : Compiled M}
    (h : sequenceEnd flags s = .ok compiled) : ListsSame s.tree compiled.2.2 := by
  rw [sequenceEnd] at h
  split at h
  · cases h
  · split at h
    · cases h
      refine .trans ?_ (listsSame_newPipe _)
      split
      · exact listsSame_addFlags _ _
      · exact .refl _
    · cases h
      split
      · exact listsSame_addFlags _ _
      · exact .refl _

theorem listsSame_forkBranch {isFirst : Bool} {head : Option PipeId} {s s' : JunctionState M}
    (h : forkBranch isFirst head s = .ok s') : ListsSame s.tree s'.tree := by
  rw [forkBranch.eq_def] at h
  split at h
  · cases h
    exact listsSame_addNextHop _ _
  · split at h
    · cases h
      exact (listsSame_newPipe _).trans (listsSame_addNextHop _ _)
    · cases h
  · cases h
  · cases h
    exact .refl _

theorem listsSame_joinBranch (tail : Option PipeId) (s : JunctionState M) :
    ListsSame s.tree (joinBranch tail s).tree := by
  rw [joinBranch.eq_def]
  split
  · exact .refl _
  · exact listsSame_append _ _
  · exact (listsSame_newPipe _).trans (listsSame_append _ _)

end

theorem listed_compileNode {definitions : Content → String → Option LogExprNode} {fuel : Nat}
    {node : LogExprNode} {tree : CfgTree M} {compiled : Compiled M} (htree : Listed tree)
    (h : compileNode definitions fuel node tree = .ok compiled) : Listed compiled.2.2 := by
  induction fuel generalizing node tree compiled with
  | zero => cases h
  | succ fuel ih =>
    cases node with
    | single object => exact listed_compileSingle htree h
    | sequence flags children =>
      rw [compileNode, compileSequence] at h
      split at h
      · cases h
      · obtain ⟨s', hloop, hend⟩ := bind_eq_ok.1 h
        refine (listsSame_sequenceEnd hend).listed ?_
        clear h hend
        have hs : Listed (SequenceState.mk none none none tree).tree := htree
        generalize SequenceState.mk none none none tree = s at hs hloop
        clear htree
        induction children generalizing s with
        | nil =>
          cases hloop
          exact hs
        | cons child children ihc =>
          obtain ⟨⟨head, tail, tree1⟩, hchild, hrest⟩ := bind_eq_ok.1 hloop
          obtain ⟨s1, hone, hloop⟩ := bind_eq_ok.1 hrest
          exact ihc s1 ((listsSame_sequenceChild hone).listed (ih hs hchild)) hloop
    | junction children =>
      rw [compileNode, compileJunction] at h
      obtain ⟨s', hloop, rfl⟩ := map_eq_ok.1 h
      show Listed s'.tree
      have hs : Listed (JunctionState.mk none none tree).tree := htree
      generalize JunctionState.mk none none tree = s at hs hloop
      generalize true = isFirst at hloop
      clear htree h
      induction children generalizing s isFirst with
      | nil =>
        cases hloop
        exact hs
      | cons child children ihc =>
        obtain ⟨⟨head, tail, tree1⟩, hchild, hrest⟩ := bind_eq_ok.1 hloop
        obtain ⟨s1, hone, hloop⟩ := bind_eq_ok.1 hrest
        exact ihc _ ((listsSame_joinBranch _ _).listed ((listsSame_forkBranch hone).listed (ih hs hchild)))
          _ hloop
    | reference content name =>
      rw [compileNode, compileReference] at h
      split at h
      · cases h
      · split at h
        · split at h
          · cases h
            exact (listsSame_attachSource _).listed htree
          · obtain ⟨⟨head, tail, tree1⟩, hnode, rfl⟩ := map_eq_ok.1 h
            exact (listsSame_attachSource _).listed ((listsSame_setAux _ _ _).listed (ih htree hnode))
        · split at h
          · cases h
            exact (listsSame_forkDestination _).listed htree
          · obtain ⟨⟨head, tail, tree1⟩, hnode, rfl⟩ := map_eq_ok.1 h
            exact (listsSame_forkDestination _).listed ((listsSame_setAux _ _ _).listed (ih htree hnode))
        · exact ih htree h

theorem listed_compileRules {definitions : Content → String → Option LogExprNode} {fuel : Nat}
    {sources : List String} {rules : List LogExprNode} {tree tree' : CfgTree M} (htree : Listed tree)
    (h : compileRules definitions fuel sources rules tree = .ok tree') : Listed tree' := by
  induction rules generalizing tree with
  | nil =>
    cases h
    exact htree
  | cons rule rules ih =>
    obtain ⟨⟨head, tail, tree1⟩, hrule, hrest⟩ := bind_eq_ok.1 h
    exact ih (listed_compileNode htree hrule) hrest

theorem Compiles.initialized {definitions : Content → String → Option LogExprNode}
    {objects : Nat → ObjectKind M} {sources : List String} {rules : List LogExprNode} {tree : CfgTree M}
    (h : Compiles definitions objects sources rules tree) (n : Nat) :
    .object n ∈ tree.initializedPipes ↔
      ∃ plan, Comes definitions objects sources rules (.single n, plan) := by
  obtain ⟨fuel, h⟩ := h
  have hstart : Listed (objectTree objects) := fun n => ⟨nofun, nofun⟩
  have hlisted : Listed tree := listed_compileRules hstart h
  have hrefines := @refines_rules M objects _ definitions fuel sources rules _
    (rulesRefined_start definitions objects)
  have h : compileRules definitions fuel sources rules (objectTree objects) = .ok tree := h
  rw [h] at hrefines
  generalize hy : planRules definitions objects fuel sources rules Plan.start = y at hrefines
  cases hrefines with
  | ok hr =>
    rw [hlisted n, hr.inv.used n]
    exact planRules_used hy n

/-! ## Filters -/

section

open Filter LogMsg

variable {P : Type}

end

end SyslogNg.CfgTree
