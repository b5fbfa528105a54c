import SyslogNg.CfgTree.Plan
import SyslogNg.Lib.Fuel

/-!
# The loops of a plan

The loops over the parts of a node are loops of `Lib.Fuel`; what is compiled is the same for more fuel.
-/

namespace SyslogNg.CfgTree

open Lib Except

variable {M : Type}

section

variable {compile : LogExprNode → Plan M → Except CompileError (Part M × Plan M)}

def sequencePass (compile : LogExprNode → Plan M → Except CompileError (Part M × Plan M))
    (child : LogExprNode) (s : SequencePart M × Plan M) : Except CompileError (SequencePart M × Plan M) :=
  (compile child s.2).bind fun (part, plan) => (s.1.add part).map fun s => (s, plan)

theorem planSequenceLoop_eq (children : List LogExprNode) (s : SequencePart M × Plan M) :
    planSequenceLoop compile children s = loop (sequencePass compile) children s := by
  induction children generalizing s with
  | nil => rfl
  | cons child children ih =>
    obtain ⟨s, plan⟩ := s
    rw [planSequenceLoop, loop, sequencePass]
    cases compile child plan with
    | error e => rfl
    | ok r =>
      show (s.add r.1).bind _ = ((s.add r.1).map _).bind _
      cases s.add r.1 with
      | error e => rfl
      | ok s' => exact ih (s', r.2)

def junctionPass (compile : LogExprNode → Plan M → Except CompileError (Part M × Plan M))
    (child : LogExprNode) (s : Bool × JunctionPart M × Plan M) :
    Except CompileError (Bool × JunctionPart M × Plan M) :=
  (compile child s.2.2).bind fun (part, plan) => (s.2.1.add s.1 part).map fun s => (false, s, plan)

theorem planJunctionLoop_eq (children : List LogExprNode) (isFirst : Bool) (s : JunctionPart M × Plan M) :
    planJunctionLoop compile isFirst children s =
      (loop (junctionPass compile) children (isFirst, s)).map Prod.snd := by
  induction children generalizing isFirst s with
  | nil => rfl
  | cons child children ih =>
    obtain ⟨s, plan⟩ := s
    rw [planJunctionLoop, loop, junctionPass]
    cases compile child plan with
    | error e => rfl
    | ok r =>
      show (s.add isFirst r.1).bind _ = (((s.add isFirst r.1).map _).bind _).map _
      cases s.add isFirst r.1 with
      | error e => rfl
      | ok s' => exact ih false (s', r.2)

end

variable {definitions : Content → String → Option LogExprNode} {objects : Nat → ObjectKind M}

def rulePass (compile : LogExprNode → Plan M → Except CompileError (Part M × Plan M))
    (sources : List String) (rule : LogExprNode) (plan : Plan M) : Except CompileError (Plan M) :=
  (compile (catchAll sources rule) plan).map fun (part, plan) => plan.addRule part

theorem planRules_eq {fuel : Nat} {sources : List String} {rules : List LogExprNode} (plan : Plan M) :
    planRules definitions objects fuel sources rules plan =
      loop (rulePass (planNode definitions objects fuel) sources) rules plan := by
  induction rules generalizing plan with
  | nil => rfl
  | cons rule rules ih =>
    rw [planRules, loop, rulePass]
    cases planNode definitions objects fuel (catchAll sources rule) plan with
    | error e => rfl
    | ok r => exact ih (r.2.addRule r.1)

/-! ## More depth -/

section

variable {compile compile' : LogExprNode → Plan M → Except CompileError (Part M × Plan M)}
  {bottom : CompileError}

theorem sequencePass_approximates
    (h : ∀ child plan, Approximates bottom (compile child plan) (compile' child plan))
    (child : LogExprNode) (s : SequencePart M × Plan M) :
    Approximates bottom (sequencePass compile child s) (sequencePass compile' child s) :=
  (h child s.2).bind fun _ _ => .refl _

theorem junctionPass_approximates
    (h : ∀ child plan, Approximates bottom (compile child plan) (compile' child plan))
    (child : LogExprNode) (s : Bool × JunctionPart M × Plan M) :
    Approximates bottom (junctionPass compile child s) (junctionPass compile' child s) :=
  (h child s.2.2).bind fun _ _ => .refl _

end

theorem planNode_succ_approximates (fuel : Nat) (node : LogExprNode) (plan : Plan M) :
    Approximates .endless (planNode definitions objects fuel node plan)
      (planNode definitions objects (fuel + 1) node plan) := by
  induction fuel generalizing node plan with
  | zero => exact approximates_bottom _
  | succ fuel ih =>
    cases node with
    | single object => exact .refl _
    | sequence flags children =>
      rw [planNode, planNode, planSequence, planSequence]
      split
      · exact .refl _
      · rw [planSequenceLoop_eq, planSequenceLoop_eq]
        exact (loop_approximates (fun child _ => sequencePass_approximates ih child) _).bind
          fun _ _ => .refl _
    | junction children =>
      rw [planNode, planNode, planJunction, planJunction, planJunctionLoop_eq, planJunctionLoop_eq]
      exact ((loop_approximates (fun child _ => junctionPass_approximates ih child) _).map _).map _
    | reference content name =>
      rw [planNode, planNode, planReference, planReference]
      split
      · exact .refl _
      · split
        · split
          · exact .refl _
          · exact (ih _ plan).map _
        · split
          · exact .refl _
          · exact (ih _ plan).map _
        · exact ih _ plan

theorem planNode_approximates {m n : Nat} (hle : m ≤ n) (node : LogExprNode) (plan : Plan M) :
    Approximates .endless (planNode definitions objects m node plan)
      (planNode definitions objects n node plan) := by
  induction hle with
  | refl => exact .refl _
  | step _ ih => exact ih.trans (planNode_succ_approximates _ node plan)

end SyslogNg.CfgTree
