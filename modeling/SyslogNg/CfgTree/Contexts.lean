import SyslogNg.CfgTree.Rules

/-!
# Inline definitions and references

A log statement with a place for an element, which is a reference to a definition or what the definition
consists of, and what it means that the two are interchangeable.
-/

namespace SyslogNg.CfgTree

variable {M : Type}

/-- A log statement in which one element is left out: an item of the statement, or of one that is
embedded in it. -/
inductive LogContext where
  | item (flags : LogFlags) (before after : List LogExprNode)
  | sequence (flags : LogFlags) (before : List LogExprNode) (context : LogContext)
      (after : List LogExprNode)
  | junction (before : List LogExprNode) (context : LogContext) (after : List LogExprNode)

namespace LogContext

def fill : LogContext → LogExprNode → LogExprNode
  | item flags before after, node => .sequence flags (before ++ node :: after)
  | sequence flags before context after, node => .sequence flags (before ++ context.fill node :: after)
  | junction before context after, node => .junction (before ++ context.fill node :: after)

/-- The other elements. -/
def others : LogContext → List LogExprNode
  | item _ before after => before ++ after
  | sequence _ before context after => before ++ after ++ context.others
  | junction before context after => before ++ after ++ context.others

def depth : LogContext → Nat
  | item _ _ _ => 1
  | sequence _ _ context _ => context.depth + 1
  | junction _ context _ => context.depth + 1

/-- The element comes last, in a statement that is not embedded in another one. -/
def Last : LogContext → Prop
  | item _ _ after => after = []
  | _ => False

/-- `catchAll` around the element. -/
def catchAll (sources : List String) : LogContext → LogContext
  | item flags before after =>
    if flags.catchall then
      item { flags with catchall := false }
        ((sources.map fun name => .reference .source name).reverse ++ before) after
    else item flags before after
  | sequence flags before context after =>
    if flags.catchall then
      sequence { flags with catchall := false }
        ((sources.map fun name => .reference .source name).reverse ++ before) context after
    else sequence flags before context after
  | junction before context after => junction before context after

theorem catchAll_fill (sources : List String) (context : LogContext) (node : LogExprNode) :
    CfgTree.catchAll sources (context.fill node) = (context.catchAll sources).fill node := by
  cases context with
  | item flags before after =>
    rw [fill, CfgTree.catchAll, catchAll]
    split
    · rw [fill, List.append_assoc]
    · rfl
  | sequence flags before context after =>
    rw [fill, CfgTree.catchAll, catchAll]
    split
    · rw [fill, List.append_assoc]
    · rfl
  | junction before context after => rfl

end LogContext

/-! ## What a configuration means -/

/-- A message of a source driver that comes to destination drivers. -/
def Delivers (tree : CfgTree M) (object : Nat) (msg : M) (flow : Bool) (ds : List (Delivery M)) : Prop :=
  ∃ fuel matched, logPipeQueue tree.pipes fuel (.object object) msg flow = some (ds, matched)

/-- The deliveries to one destination driver. -/
def received (id : Nat) (ds : List (Delivery M)) : List (Delivery M) :=
  ds.filter fun d => d.destination = id

/-- The sources deliver the same to every destination driver, for any message. -/
def DeliversSame (objects : Nat → ObjectKind M) (tree tree' : CfgTree M) : Prop :=
  ∀ n, objects n = .source → ∀ msg flow, ∃ ds ds', Delivers tree n msg flow ds ∧
    Delivers tree' n msg flow ds' ∧ ∀ id, received id ds = received id ds'

section

variable (definitions : Content → String → Option LogExprNode) (objects : Nat → ObjectKind M)
  (sources : List String)

/-- `cfg_tree_compile` succeeds. -/
def Compiles (rules : List LogExprNode) (tree : CfgTree M) : Prop :=
  ∃ fuel, cfgTreeCompile definitions objects sources rules fuel = .ok tree

/-- Two configurations do the same. -/
def SameMeaning (rules rules' : List LogExprNode) : Prop :=
  ((∃ tree, Compiles definitions objects sources rules tree) ↔
    ∃ tree, Compiles definitions objects sources rules' tree) ∧
  ∀ tree tree', Compiles definitions objects sources rules tree →
    Compiles definitions objects sources rules' tree' → DeliversSame objects tree tree'

/-- The definition is used in one place. -/
def OnlyUse (content : Content) (name : String) (before after : List LogExprNode)
    (context : LogContext) : Prop :=
  (∀ rule ∈ before ++ after, ¬Refers definitions content name (catchAll sources rule)) ∧
    ∀ node ∈ (context.catchAll sources).others, ¬Refers definitions content name node

end

/-- The pipe of the parser is an element of the node. -/
inductive HasObject (object : Nat) : LogExprNode → Prop where
  | single : HasObject object (.single object)
  | sequence (flags : LogFlags) {child : LogExprNode} {children : List LogExprNode} :
      child ∈ children → HasObject object child → HasObject object (.sequence flags children)
  | junction {child : LogExprNode} {children : List LogExprNode} :
      child ∈ children → HasObject object child → HasObject object (.junction children)

/-- What the drivers of a source or of a destination are made to. -/
def driverContents (drivers : List Nat) : LogExprNode :=
  .sequence .none [.junction (drivers.map .single)]

/-- What a definition can consist of. The drivers are pipes of their own. -/
def IsDefinition (objects : Nat → ObjectKind M) : Content → LogExprNode → Prop
  | .source, node => ∃ drivers, node = driverContents drivers ∧ drivers.Nodup ∧
      ∀ n ∈ drivers, objects n = .source
  | .destination, node => ∃ drivers, node = driverContents drivers ∧ drivers.Nodup ∧
      ∀ n ∈ drivers, ∃ id keepsNext, objects n = .destination id keepsNext
  | _, _ => True

/-- In every such log statement, in any configuration in which it is the only use, a reference to the
definition can be replaced by its contents. -/
def Interchangeable (P : LogContext → Prop) (content : Content) (node : LogExprNode)
    (kinds : Nat → ObjectKind M) : Prop :=
  ∀ (definitions : Content → String → Option LogExprNode) (objects : Nat → ObjectKind M)
    (sources : List String) (before after : List LogExprNode) (context : LogContext) (name : String),
    definitions content name = some node → (∀ n, HasObject n node → objects n = kinds n) →
    OnlyUse definitions sources content name before after context → P context →
    SameMeaning definitions objects sources
      (before ++ context.fill (.reference content name) :: after) (before ++ context.fill node :: after)

end SyslogNg.CfgTree
