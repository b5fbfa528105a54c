import SyslogNg.CfgTree.Fuel
import SyslogNg.Lib.Fuel

/-!
# Where the compilation comes to its end

A place is a node that is compiled, with what has been compiled before. The places that a node enters are
its children, and the definition that it refers to unless that is compiled already. Nothing else can keep
`cfg_tree_compile` from its end; and its assertion about flow control fails for a statement of which
nothing is compiled.
-/

namespace SyslogNg.CfgTree

open Lib Except List

variable {M : Type}

section

variable (definitions : Content → String → Option LogExprNode) (objects : Nat → ObjectKind M)

inductive Void : LogExprNode → Prop where
  | junction {children : List LogExprNode} : (∀ child ∈ children, Void child) → Void (.junction children)
  | reference {content : Content} {name : String} {node : LogExprNode} : content ≠ .source →
      content ≠ .destination → definitions content name = some node → Void node →
      Void (.reference content name)

abbrev Place (M : Type) := LogExprNode × Plan M

/-- What is compiled on the way, when a node is compiled. -/
inductive Enters : Place M → Place M → Prop where
  | sequence {flags : LogFlags} {before after : List LogExprNode} {child : LogExprNode}
      {plan plan' : Plan M} {s : SequencePart M} {fuel : Nat} : flags.catchall = false →
      planSequenceLoop (planNode definitions objects fuel) before (.start, plan) = .ok (s, plan') →
      Enters (.sequence flags (before ++ child :: after), plan) (child, plan')
  | junction {before after : List LogExprNode} {child : LogExprNode} {plan plan' : Plan M}
      {s : JunctionPart M} {fuel : Nat} :
      planJunctionLoop (planNode definitions objects fuel) true before (.start, plan) = .ok (s, plan') →
      Enters (.junction (before ++ child :: after), plan) (child, plan')
  | source {name : String} {node : LogExprNode} {plan : Plan M} :
      definitions .source name = some node → plan.sources name = none →
      Enters (.reference .source name, plan) (node, plan)
  | destination {name : String} {node : LogExprNode} {plan : Plan M} :
      definitions .destination name = some node → plan.destinations name = none →
      Enters (.reference .destination name, plan) (node, plan)
  | reference {content : Content} {name : String} {node : LogExprNode} {plan : Plan M} :
      content ≠ .source → content ≠ .destination → definitions content name = some node →
      Enters (.reference content name, plan) (node, plan)

/-- A statement with flow control of which nothing is compiled. -/
def EmptyFlow (node : LogExprNode) : Prop :=
  ∃ flags children, node = .sequence flags children ∧ flags.catchall = false ∧
    flags.flowControl = true ∧ ∀ child ∈ children, Void definitions child

def planPlace (fuel : Nat) (place : Place M) : Except CompileError (Part M × Plan M) :=
  planNode definitions objects fuel place.1 place.2

end

section

variable {definitions : Content → String → Option LogExprNode} {objects : Nat → ObjectKind M}

/-! ## The loops -/

section

variable {compile : LogExprNode → Plan M → Except CompileError (Part M × Plan M)}

end

theorem sequencePass_mono (m n : Nat) (hle : m ≤ n) (child : LogExprNode) (s : SequencePart M × Plan M) :
    Approximates .endless (sequencePass (planNode definitions objects m) child s)
      (sequencePass (planNode definitions objects n) child s) :=
  sequencePass_approximates (planNode_approximates hle) child s

theorem junctionPass_mono (m n : Nat) (hle : m ≤ n) (child : LogExprNode)
    (s : Bool × JunctionPart M × Plan M) :
    Approximates .endless (junctionPass (planNode definitions objects m) child s)
      (junctionPass (planNode definitions objects n) child s) :=
  junctionPass_approximates (planNode_approximates hle) child s

/-! ## Endless chains -/

section

variable {compile : LogExprNode → Plan M → Except CompileError (Part M × Plan M)}
  {children : List LogExprNode}

end

theorem Void.nothing {node : LogExprNode} (h : Void definitions node) :
    ∃ fuel, ∀ plan, planNode definitions objects fuel node plan = .ok (.nothing, plan) := by
  induction h with
  | @junction children _ ih =>
    have hloop : ∃ fuel, ∀ isFirst (plan : Plan M),
        planJunctionLoop (planNode definitions objects fuel) isFirst children (.start, plan) =
          .ok (.start, plan) := by
      clear * - ih
      induction children with
      | nil => exact ⟨0, fun _ _ => rfl⟩
      | cons child children ihc =>
        obtain ⟨n, hn⟩ := ih child mem_cons_self
        obtain ⟨m, hm⟩ := ihc fun c hc => ih c (mem_cons_of_mem _ hc)
        refine ⟨max n m, fun isFirst plan => ?_⟩
        rw [planJunctionLoop, planNode_mono (Nat.le_max_left n m) child plan _ (hn plan)]
        exact planJunctionLoop_yields (forall₂_yields (planNode_mono (Nat.le_max_right n m)) children)
          (hm false plan)
    obtain ⟨n, hn⟩ := hloop
    refine ⟨n + 1, fun plan => ?_⟩
    rw [planNode, planJunction, hn]
    rfl
  | @reference content name node hsource hdestination hnode _ ih =>
    obtain ⟨n, hn⟩ := ih
    refine ⟨n + 1, fun plan => ?_⟩
    rw [planNode, planReference, hnode]
    cases content with
    | source => exact absurd rfl hsource
    | destination => exact absurd rfl hdestination
    | filter => exact hn plan
    | parser => exact hn plan
    | rewrite => exact hn plan

/-! ## The assertion -/

def Asserts (definitions : Content → String → Option LogExprNode) (objects : Nat → ObjectKind M)
    (place : Place M) : Prop :=
  ∃ fuel, planPlace definitions objects fuel place = .error .assertion

theorem EmptyFlow.asserts {node : LogExprNode} (h : EmptyFlow definitions node) (plan : Plan M) :
    Asserts definitions objects (node, plan) := by
  obtain ⟨flags, children, rfl, hcatchall, hflow, hvoid⟩ := h
  -- what is compiled of the children, which is nothing
  obtain ⟨fuel, hfuel⟩ : ∃ fuel, planSequenceLoop (planNode definitions objects fuel) children
      (.start, plan) = .ok (.start, plan) := by
    clear * - hvoid
    induction children with
    | nil => exact ⟨0, rfl⟩
    | cons child children ih =>
      obtain ⟨n, hn⟩ := @Void.nothing M definitions objects child (hvoid child mem_cons_self)
      obtain ⟨m, hm⟩ := ih fun c hc => hvoid c (mem_cons_of_mem _ hc)
      refine ⟨max n m, ?_⟩
      rw [planSequenceLoop, planNode_mono (Nat.le_max_left n m) child plan _ (hn plan)]
      exact planSequenceLoop_yields (forall₂_yields (planNode_mono (Nat.le_max_right n m)) children) hm
  refine ⟨fuel + 1, ?_⟩
  rw [planPlace, planNode, planSequence, if_neg (by rw [hcatchall]; exact Bool.false_ne_true), hfuel]
  show (SequencePart.finish flags .start).map _ = _
  rw [SequencePart.finish, if_pos hflow]
  rfl

theorem Enters.asserts {place place' : Place M} (h : Enters definitions objects place place')
    (hplace' : Asserts definitions objects place') : Asserts definitions objects place := by
  obtain ⟨n, hn⟩ := hplace'
  cases h with
  | @sequence flags before after child plan plan' s m hflags hbefore =>
    have hchild := (planNode_approximates (Nat.le_max_left n m) child plan'
      (by rw [planPlace] at hn; rw [hn]; nofun)).trans hn
    refine ⟨max n m + 1, ?_⟩
    rw [planPlace, planNode, planSequence, if_neg (by rw [hflags]; exact Bool.false_ne_true),
      planSequenceLoop_append, planSequenceLoop_yields
        (forall₂_yields (planNode_mono (Nat.le_max_right n m)) before) hbefore]
    show (planSequenceLoop _ (child :: after) (s, plan')).bind _ = _
    rw [planSequenceLoop, hchild]
    rfl
  | @junction before after child plan plan' s m hbefore =>
    have hchild := (planNode_approximates (Nat.le_max_left n m) child plan'
      (by rw [planPlace] at hn; rw [hn]; nofun)).trans hn
    refine ⟨max n m + 1, ?_⟩
    rw [planPlace, planNode, planJunction, planJunctionLoop_append, planJunctionLoop_yields
        (forall₂_yields (planNode_mono (Nat.le_max_right n m)) before) hbefore]
    show (planJunctionLoop _ _ (child :: after) (s, plan')).map _ = _
    rw [planJunctionLoop, hchild]
    rfl
  | @source name node plan hnode hsource =>
    refine ⟨n + 1, ?_⟩
    rw [planPlace] at hn
    rw [planPlace, planNode, planReference, hnode, hsource]
    dsimp only
    rw [hn]
    rfl
  | @destination name node plan hnode hdestination =>
    refine ⟨n + 1, ?_⟩
    rw [planPlace] at hn
    rw [planPlace, planNode, planReference, hnode, hdestination]
    dsimp only
    rw [hn]
    rfl
  | @reference content name node plan hsource hdestination hnode =>
    refine ⟨n + 1, ?_⟩
    rw [planPlace, planNode, planReference, hnode]
    cases content with
    | source => exact absurd rfl hsource
    | destination => exact absurd rfl hdestination
    | filter => exact hn
    | parser => exact hn
    | rewrite => exact hn

end

/-! ## Log statements -/

section

variable (definitions : Content → String → Option LogExprNode) (objects : Nat → ObjectKind M)
  (sources : List String) (rules : List LogExprNode)

/-- The compilation of a configuration comes to the place. -/
def Comes (place : Place M) : Prop :=
  ∃ before rule after fuel plan, rules = before ++ rule :: after ∧
    planRules definitions objects fuel sources before Plan.start = .ok plan ∧
    Relation.ReflTransGen (Enters definitions objects) (catchAll sources rule, plan) place

end

section

variable {definitions : Content → String → Option LogExprNode} {objects : Nat → ObjectKind M}
  {sources : List String} {rules : List LogExprNode}

theorem rulePass_mono (m n : Nat) (hle : m ≤ n) (rule : LogExprNode) (plan : Plan M) :
    Approximates .endless (rulePass (planNode definitions objects m) sources rule plan)
      (rulePass (planNode definitions objects n) sources rule plan) :=
  (planNode_approximates hle (catchAll sources rule) plan).map _

end

end SyslogNg.CfgTree
