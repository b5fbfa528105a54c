import SyslogNg.CfgTree.Lockstep

/-!
# How deep a compilation goes

What is compiled is the same for more fuel; and a node can be replaced by one that is compiled alike.
-/

namespace SyslogNg.CfgTree

open Except

variable {M : Type}

/-- What the one compilation gives for a node, the other gives for the other node. -/
def Yields (compile compile' : LogExprNode → Plan M → Except CompileError (Part M × Plan M))
    (node node' : LogExprNode) : Prop :=
  ∀ plan r, compile node plan = .ok r → compile' node' plan = .ok r

section

variable {compile compile' : LogExprNode → Plan M → Except CompileError (Part M × Plan M)}
  {children children' : List LogExprNode} {definitions : Content → String → Option LogExprNode}
  {objects : Nat → ObjectKind M} {node node' : LogExprNode} {plan : Plan M} {fuel fuel' : Nat}

theorem planSequenceLoop_yields (h : List.Forall₂ (Yields compile compile') children children')
    {s r : SequencePart M × Plan M} (hloop : planSequenceLoop compile children s = .ok r) :
    planSequenceLoop compile' children' s = .ok r := by
  induction h generalizing s with
  | nil => exact hloop
  | cons hchild _ ih =>
    obtain ⟨s, plan⟩ := s
    obtain ⟨⟨part, plan1⟩, hnode, hrest⟩ := bind_eq_ok.1 hloop
    obtain ⟨s1, hadd, hloop⟩ := bind_eq_ok.1 hrest
    exact bind_eq_ok.2 ⟨_, hchild plan _ hnode, bind_eq_ok.2 ⟨s1, hadd, ih hloop⟩⟩

theorem planJunctionLoop_yields (h : List.Forall₂ (Yields compile compile') children children')
    {isFirst : Bool} {s r : JunctionPart M × Plan M}
    (hloop : planJunctionLoop compile isFirst children s = .ok r) :
    planJunctionLoop compile' isFirst children' s = .ok r := by
  induction h generalizing isFirst s with
  | nil => exact hloop
  | cons hchild _ ih =>
    obtain ⟨s, plan⟩ := s
    obtain ⟨⟨part, plan1⟩, hnode, hrest⟩ := bind_eq_ok.1 hloop
    obtain ⟨s1, hadd, hloop⟩ := bind_eq_ok.1 hrest
    exact bind_eq_ok.2 ⟨_, hchild plan _ hnode, bind_eq_ok.2 ⟨s1, hadd, ih hloop⟩⟩

theorem yields_sequence (h : List.Forall₂ (Yields compile compile') children children')
    (flags : LogFlags) {r : Part M × Plan M} (hplan : planSequence compile flags children plan = .ok r) :
    planSequence compile' flags children' plan = .ok r := by
  rw [planSequence] at hplan ⊢
  split at hplan
  · cases hplan
  · rename_i hcatchall
    rw [if_neg hcatchall]
    obtain ⟨s, hloop, hfinish⟩ := bind_eq_ok.1 hplan
    exact bind_eq_ok.2 ⟨s, planSequenceLoop_yields h hloop, hfinish⟩

theorem yields_junction (h : List.Forall₂ (Yields compile compile') children children')
    {r : Part M × Plan M} (hplan : planJunction compile children plan = .ok r) :
    planJunction compile' children' plan = .ok r := by
  obtain ⟨s, hloop, hfinish⟩ := map_eq_ok.1 hplan
  exact map_eq_ok.2 ⟨s, planJunctionLoop_yields h hloop, hfinish⟩

theorem forall₂_yields (h : ∀ node, Yields compile compile' node node) (nodes : List LogExprNode) :
    List.Forall₂ (Yields compile compile') nodes nodes :=
  List.forall₂_same.2 fun node _ => h node

theorem planNode_mono (hle : fuel ≤ fuel') (node : LogExprNode) :
    Yields (planNode definitions objects fuel) (planNode definitions objects fuel') node node :=
  fun plan _ h => (planNode_approximates hle node plan (by rw [h]; nofun)).trans h

/-! ## Statements -/

theorem yields_context {slack : Nat}
    (h : ∀ fuel, Yields (planNode definitions objects fuel) (planNode definitions objects (fuel + slack))
      node node') (context : LogContext) :
    Yields (planNode definitions objects fuel) (planNode definitions objects (fuel + slack))
      (context.fill node) (context.fill node') := by
  have hothers : ∀ fuel (nodes : List LogExprNode),
      List.Forall₂ (Yields (planNode definitions objects fuel) (planNode definitions objects (fuel + slack)))
        nodes nodes :=
    fun fuel nodes => forall₂_yields (planNode_mono (Nat.le_add_right fuel slack)) nodes
  induction context generalizing fuel with
  | item flags before after =>
    cases fuel with
    | zero => nofun
    | succ fuel =>
      intro plan r hplan
      rw [Nat.succ_add]
      exact yields_sequence (List.rel_append (hothers fuel before) (.cons (h fuel) (hothers fuel after)))
        flags hplan
  | sequence flags before context after ih =>
    cases fuel with
    | zero => nofun
    | succ fuel =>
      intro plan r hplan
      rw [Nat.succ_add]
      exact yields_sequence (List.rel_append (hothers fuel before) (.cons ih (hothers fuel after)))
        flags hplan
  | junction before context after ih =>
    cases fuel with
    | zero => nofun
    | succ fuel =>
      intro plan r hplan
      rw [Nat.succ_add]
      exact yields_junction (List.rel_append (hothers fuel before) (.cons ih (hothers fuel after))) hplan

theorem planRules_yields {sources : List String} {rules rules' : List LogExprNode} {plan' : Plan M}
    (h : List.Forall₂ (fun rule rule' => Yields (planNode definitions objects fuel)
      (planNode definitions objects fuel') (catchAll sources rule) (catchAll sources rule')) rules rules')
    (hplan : planRules definitions objects fuel sources rules plan = .ok plan') :
    planRules definitions objects fuel' sources rules' plan = .ok plan' := by
  induction h generalizing plan with
  | nil => exact hplan
  | cons hrule _ ih =>
    obtain ⟨⟨part, plan1⟩, hnode, hrest⟩ := bind_eq_ok.1 hplan
    exact bind_eq_ok.2 ⟨_, hrule plan _ hnode, ih hrest⟩

theorem planRules_mono (hle : fuel ≤ fuel') {sources : List String} {rules : List LogExprNode}
    {plan' : Plan M} (hplan : planRules definitions objects fuel sources rules plan = .ok plan') :
    planRules definitions objects fuel' sources rules plan = .ok plan' :=
  planRules_yields (List.forall₂_same.2 fun rule _ => planNode_mono hle (catchAll sources rule)) hplan

/-! ## What a configuration means -/

variable {sources : List String} {rules rules' : List LogExprNode}

def Planned (definitions : Content → String → Option LogExprNode) (objects : Nat → ObjectKind M)
    (sources : List String) (rules : List LogExprNode) (plan : Plan M) : Prop :=
  ∃ fuel, planRules definitions objects fuel sources rules Plan.start = .ok plan

theorem Planned.refined {plan : Plan M} (h : Planned definitions objects sources rules plan) :
    ∃ tree, RulesRefined definitions objects tree plan := by
  obtain ⟨fuel, h⟩ := h
  have hrefines := @refines_rules M objects _ definitions fuel sources rules _
    (rulesRefined_start definitions objects)
  rw [h] at hrefines
  generalize compileRules definitions fuel sources rules (objectTree objects) = x at hrefines
  cases hrefines with
  | ok hr => exact ⟨_, hr⟩

theorem compiles_iff :
    (∃ tree, Compiles definitions objects sources rules tree) ↔
      ∃ plan, Planned definitions objects sources rules plan := by
  constructor
  · rintro ⟨tree, fuel, h⟩
    have hrefines := cfgTreeCompile_refines definitions objects sources rules fuel
    rw [h] at hrefines
    generalize hy : planRules definitions objects fuel sources rules Plan.start = y at hrefines
    cases hrefines with
    | ok _ => exact ⟨_, fuel, hy⟩
  · rintro ⟨plan, fuel, h⟩
    have hrefines := cfgTreeCompile_refines definitions objects sources rules fuel
    rw [h] at hrefines
    generalize hx : cfgTreeCompile definitions objects sources rules fuel = x at hrefines
    cases hrefines with
    | ok _ => exact ⟨_, fuel, hx⟩

theorem Compiles.delivers {tree : CfgTree M} {plan : Plan M}
    (h : Compiles definitions objects sources rules tree)
    (hplan : Planned definitions objects sources rules plan) {n : Nat} (hn : objects n = .source) (msg : M)
    (flow : Bool) : Delivers tree n msg flow (plan.emission n msg flow).1 := by
  obtain ⟨fuel, h⟩ := h
  obtain ⟨fuel', hplan⟩ := hplan
  have hrefines := cfgTreeCompile_refines definitions objects sources rules fuel
  rw [h] at hrefines
  generalize hy : planRules definitions objects fuel sources rules Plan.start = y at hrefines
  cases hrefines with
  | ok hruns =>
    have heq := planRules_mono (Nat.le_max_left fuel fuel') hy
    rw [planRules_mono (Nat.le_max_right fuel fuel') hplan] at heq
    cases heq
    obtain ⟨fuel'', hfuel⟩ := hruns n hn msg flow
    exact ⟨fuel'', _, hfuel⟩

theorem Delivers.unique {tree : CfgTree M} {n : Nat} {msg : M} {flow : Bool} {ds ds' : List (Delivery M)}
    (h : Delivers tree n msg flow ds) (h' : Delivers tree n msg flow ds') : ds = ds' := by
  obtain ⟨fuel, matched, h⟩ := h
  obtain ⟨fuel', matched', h'⟩ := h'
  have heq := logPipeQueue_mono (Nat.le_max_left fuel fuel') h
  rw [logPipeQueue_mono (Nat.le_max_right fuel fuel') h'] at heq
  exact (congrArg Prod.fst (Option.some.inj heq)).symm

/-- Two plans whose sources deliver the same. -/
def EmitsSame (objects : Nat → ObjectKind M) (p q : Plan M) : Prop :=
  ∀ n, objects n = .source → ∀ msg flow, (p.emission n msg flow).1 = (q.emission n msg flow).1

theorem sameMeaning_of_plans
    (hleft : ∀ p, Planned definitions objects sources rules p →
      ∃ q, Planned definitions objects sources rules' q ∧ EmitsSame objects p q)
    (hright : ∀ q, Planned definitions objects sources rules' q →
      ∃ p, Planned definitions objects sources rules p) :
    SameMeaning definitions objects sources rules rules' := by
  refine ⟨?_, fun tree tree' h h' n hn msg flow => ?_⟩
  · rw [compiles_iff, compiles_iff]
    exact ⟨fun ⟨p, hp⟩ => (hleft p hp).imp fun _ => And.left, fun ⟨q, hq⟩ => hright q hq⟩
  · obtain ⟨p, hp⟩ := compiles_iff.1 ⟨tree, h⟩
    obtain ⟨q, hq, hsame⟩ := hleft p hp
    refine ⟨_, _, h.delivers hp hn msg flow, h'.delivers hq hn msg flow, fun id => ?_⟩
    rw [hsame n hn msg flow]

theorem sameMeaning_of_agrees {R : Plan M → Plan M → Prop} {least : Nat}
    (h : ∀ fuel, least ≤ fuel → Agrees R (planRules definitions objects fuel sources rules Plan.start)
      (planRules definitions objects fuel sources rules' Plan.start))
    (hsame : ∀ p q, Planned definitions objects sources rules p →
      Planned definitions objects sources rules' q → R p q → EmitsSame objects p q) :
    SameMeaning definitions objects sources rules rules' := by
  refine sameMeaning_of_plans (fun p hp => ?_) fun q hq => ?_
  · obtain ⟨fuel, hfuel⟩ := hp
    have hagrees := h (max least fuel) (Nat.le_max_left _ _)
    rw [planRules_mono (Nat.le_max_right _ _) hfuel] at hagrees
    generalize hy : planRules definitions objects (max least fuel) sources rules' Plan.start = y at hagrees
    cases hagrees with
    | ok hr => exact ⟨_, ⟨_, hy⟩, hsame p _ ⟨fuel, hfuel⟩ ⟨_, hy⟩ hr⟩
  · obtain ⟨fuel, hfuel⟩ := hq
    have hagrees := h (max least fuel) (Nat.le_max_left _ _)
    rw [planRules_mono (Nat.le_max_right _ _) hfuel] at hagrees
    generalize hx : planRules definitions objects (max least fuel) sources rules Plan.start = x at hagrees
    cases hagrees with
    | ok hr => exact ⟨_, _, hx⟩

end

end SyslogNg.CfgTree
