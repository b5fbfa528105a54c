import SyslogNg.CfgTree.Pipes

/-!
# The compilation of log expressions (`lib/cfg-tree.c`)

`cfgTreeCompile` makes the graph of pipes of the log statements of a configuration. A pipe that is
compiled is told by its head and its tail: what has no head is a source, and what has no tail is not
left at its end.
-/

namespace SyslogNg.CfgTree

open Function

variable {M : Type}

/-- `ENC_SOURCE` and the others that a definition can have. -/
inductive Content where
  | source
  | destination
  | filter
  | parser
  | rewrite
  deriving DecidableEq, Repr

/-- The flags of a log statement, `LC_CATCHALL` and the others. -/
structure LogFlags where
  catchall : Bool
  fallback : Bool
  final : Bool
  flowControl : Bool
  deriving DecidableEq, Repr

def LogFlags.none : LogFlags := ⟨false, false, false, false⟩

def LogFlags.branch (flags : LogFlags) : BranchFlags := ⟨flags.fallback, flags.final, flags.flowControl⟩

/-- A node by its layout; only sequences have flags. -/
inductive LogExprNode where
  | single (object : Nat)
  | reference (content : Content) (name : String)
  | sequence (flags : LogFlags) (children : List LogExprNode)
  | junction (children : List LogExprNode)

/-- Why `cfg_tree_compile` does not succeed; `endless` is a recursion that does not come to its end. -/
inductive CompileError where
  | noClone
  | unresolved
  | sourceFollows
  | mixedBranches
  | embeddedCatchall
  | assertion
  | endless
  deriving DecidableEq, Repr

/-- The pipes that there are so far (`made` are made in the compilation), those that are in use, and
the `aux` members of the definitions. -/
structure CfgTree (M : Type) where
  pipes : PipeId → LogPipe M
  made : Nat
  initializedPipes : List PipeId
  aux : Content → String → Option PipeId

/-- A pipe with nothing behind it. -/
def LogPipe.ofKind (kind : PipeKind M) : LogPipe M := ⟨kind, false, .none, Option.none⟩

/-- `PIF_SOURCE`. -/
def LogPipe.isSource (pipe : LogPipe M) : Bool :=
  match pipe.kind with
  | .object .source => true
  | _ => false

namespace CfgTree

def modify (tree : CfgTree M) (s : PipeId) (f : LogPipe M → LogPipe M) : CfgTree M :=
  { tree with pipes := update tree.pipes s (f (tree.pipes s)) }

/-- The pipe that is made next. -/
def fresh (tree : CfgTree M) : PipeId := .made tree.made

/-- A pipe is made, and added to `initialized_pipes`. -/
def newPipe (tree : CfgTree M) (kind : PipeKind M) : CfgTree M :=
  { tree with
    pipes := update tree.pipes tree.fresh (.ofKind kind)
    made := tree.made + 1
    initializedPipes := tree.initializedPipes ++ [tree.fresh] }

/-- `log_pipe_append`. -/
def append (tree : CfgTree M) (s next : PipeId) : CfgTree M :=
  tree.modify s fun pipe => { pipe with pipeNext := some next }

def addNextHop (tree : CfgTree M) (mpx hop : PipeId) : CfgTree M :=
  tree.modify mpx fun pipe => match pipe.kind with
    | .multiplexer hops => { pipe with kind := .multiplexer (hops ++ [hop]) }
    | _ => pipe

def addFlags (tree : CfgTree M) (s : PipeId) (flags : BranchFlags) : CfgTree M :=
  tree.modify s fun pipe => { pipe with
    flags := ⟨pipe.flags.fallback || flags.fallback, pipe.flags.final || flags.final,
      pipe.flags.hardFlowControl || flags.hardFlowControl⟩ }

/-- `log_expr_node_set_aux`. -/
def setAux (tree : CfgTree M) (content : Content) (name : String) (aux : Option PipeId) : CfgTree M :=
  { tree with aux := update tree.aux content (update (tree.aux content) name aux) }

end CfgTree

/-- The head and the tail of what is compiled, and the pipes. -/
abbrev Compiled (M : Type) := Option PipeId × Option PipeId × CfgTree M

section

variable (definitions : Content → String → Option LogExprNode)

/-! ## Singles -/

/-- `cfg_tree_compile_single`: the first use takes the pipe itself, another one a clone of it. -/
def compileSingle (object : Nat) (tree : CfgTree M) : Except CompileError (Compiled M) :=
  let pipe := tree.pipes (.object object)
  if !pipe.inlined then
    .ok (if pipe.isSource then none else some (.object object), some (.object object),
      { tree.modify (.object object) fun pipe => { pipe with inlined := true } with
        initializedPipes := tree.initializedPipes ++ [.object object] })
  else match pipe.kind with
    | .object (.process _ (some clone)) =>
      .ok (some tree.fresh, some tree.fresh,
        (tree.newPipe (.object (.process clone (some clone)))).modify tree.fresh fun pipe =>
          { pipe with inlined := true })
    | _ => .error .noClone

/-! ## References -/

/-- `cfg_tree_compile_reference` for a definition that is a source: `tail` is its last pipe. -/
def attachSource (tail : Option PipeId) (tree : CfgTree M) : Compiled M :=
  let attach := tree.fresh
  let tree := tree.newPipe .forward
  match tail with
  | none => (none, some attach, tree)
  | some tail =>
    match (tree.pipes tail).pipeNext with
    | none =>
      let mpx := tree.fresh
      let tree := (tree.newPipe (.multiplexer [])).append tail mpx
      (none, some attach, tree.addNextHop mpx attach)
    | some mpx => (none, some attach, tree.addNextHop mpx attach)

/-- The same for a destination: `head` is its first pipe. -/
def forkDestination (head : Option PipeId) (tree : CfgTree M) : Compiled M :=
  let mpx := tree.fresh
  let tree := tree.newPipe (.multiplexer [])
  match head with
  | none => (some mpx, none, tree)
  | some head => (some mpx, none, tree.addNextHop mpx head)

def compileReference (compile : LogExprNode → CfgTree M → Except CompileError (Compiled M))
    (content : Content) (name : String) (tree : CfgTree M) : Except CompileError (Compiled M) :=
  match definitions content name with
  | none => .error .unresolved
  | some node =>
    match content with
    | .source =>
      match tree.aux .source name with
      | some tail => .ok (attachSource (some tail) tree)
      | none => (compile node tree).map fun (_, tail, tree) =>
        attachSource tail (tree.setAux .source name tail)
    | .destination =>
      match tree.aux .destination name with
      | some head => .ok (forkDestination (some head) tree)
      | none => (compile node tree).map fun (head, _, tree) =>
        forkDestination head (tree.setAux .destination name head)
    | _ => compile node tree

/-! ## Sequences -/

/-- The variables of `cfg_tree_compile_sequence`. -/
structure SequenceState (M : Type) where
  firstPipe : Option PipeId
  lastPipe : Option PipeId
  sourceJoinPipe : Option PipeId
  tree : CfgTree M

/-- `while (last_pipe->pipe_next)`. -/
def lastOfChain (pipes : PipeId → LogPipe M) : Nat → PipeId → Option PipeId
  | 0, _ => none
  | fuel + 1, s =>
    match (pipes s).pipeNext with
    | none => some s
    | some next => lastOfChain pipes fuel next

/-- A child with a head is appended to what there is. -/
def appendHead (head : PipeId) (tail : Option PipeId) (s : SequenceState M) :
    Except CompileError (SequenceState M) :=
  let firstPipe := if s.firstPipe.isNone && s.lastPipe.isNone then some head else s.firstPipe
  match s.lastPipe with
  | some last =>
    if (s.tree.pipes last).pipeNext.isSome then .error .assertion
    else finish firstPipe (s.tree.append last head)
  | none => finish firstPipe s.tree
where
  finish (firstPipe : Option PipeId) (tree : CfgTree M) : Except CompileError (SequenceState M) :=
    match tail with
    | some tail => .ok ⟨firstPipe, some tail, s.sourceJoinPipe, tree⟩
    | none =>
      match lastOfChain tree.pipes (tree.initializedPipes.length + 1) head with
      | some last => .ok ⟨firstPipe, some last, s.sourceJoinPipe, tree⟩
      | none => .error .endless

/-- The tail of a source is appended to `source_join_pipe`. -/
def joinSource (flags : LogFlags) (tail : PipeId) (s : SequenceState M) :
    Except CompileError (SequenceState M) :=
  if s.firstPipe.isSome then .error .sourceFollows
  else match s.sourceJoinPipe with
    | some join => .ok { s with tree := s.tree.append tail join }
    | none =>
      let join := s.tree.fresh
      let tree := (s.tree.newPipe .forward).addFlags join ⟨false, false, flags.flowControl⟩
      .ok { s with lastPipe := some join, sourceJoinPipe := some join, tree := tree.append tail join }

/-- The end of a pass of the loop over the children. -/
def sequenceChild (flags : LogFlags) (head tail : Option PipeId) (s : SequenceState M) :
    Except CompileError (SequenceState M) :=
  match head, tail with
  | some head, tail => appendHead head tail s
  | none, some tail => joinSource flags tail s
  | none, none => .ok s

/-- What comes after the loop. -/
def sequenceEnd (flags : LogFlags) (s : SequenceState M) : Except CompileError (Compiled M) :=
  let tree := match s.firstPipe with
    | some first => s.tree.addFlags first flags.branch
    | none => s.tree
  if flags.flowControl && s.firstPipe.isNone && s.sourceJoinPipe.isNone then .error .assertion
  else if s.firstPipe.isNone && s.lastPipe.isNone then
    .ok (some tree.fresh, some tree.fresh, tree.newPipe .forward)
  else .ok (s.firstPipe, s.lastPipe, tree)

def sequenceLoop (compile : LogExprNode → CfgTree M → Except CompileError (Compiled M))
    (flags : LogFlags) : List LogExprNode → SequenceState M → Except CompileError (SequenceState M)
  | [], s => .ok s
  | child :: children, s =>
    (compile child s.tree).bind fun (head, tail, tree) =>
      (sequenceChild flags head tail { s with tree := tree }).bind
        (sequenceLoop compile flags children)

def compileSequence (compile : LogExprNode → CfgTree M → Except CompileError (Compiled M))
    (flags : LogFlags) (children : List LogExprNode) (tree : CfgTree M) :
    Except CompileError (Compiled M) :=
  if flags.catchall then .error .embeddedCatchall
  else (sequenceLoop compile flags children ⟨none, none, none, tree⟩).bind (sequenceEnd flags)

/-! ## Junctions -/

/-- The variables of `cfg_tree_compile_junction`. -/
structure JunctionState (M : Type) where
  forkMpx : Option PipeId
  joinPipe : Option PipeId
  tree : CfgTree M

/-- A branch with a head is a hop of the fork; one without is a source. -/
def forkBranch (isFirstBranch : Bool) (head : Option PipeId) (s : JunctionState M) :
    Except CompileError (JunctionState M) :=
  match head, s.forkMpx with
  | some head, some fork => .ok { s with tree := s.tree.addNextHop fork head }
  | some head, none =>
    if isFirstBranch then
      .ok { s with
        forkMpx := some s.tree.fresh
        tree := (s.tree.newPipe (.multiplexer [])).addNextHop s.tree.fresh head }
    else .error .mixedBranches
  | none, some _ => .error .mixedBranches
  | none, none => .ok s

/-- The tail of a branch is appended to the join. -/
def joinBranch (tail : Option PipeId) (s : JunctionState M) : JunctionState M :=
  match tail, s.joinPipe with
  | none, _ => s
  | some tail, some join => { s with tree := s.tree.append tail join }
  | some tail, none =>
    { s with
      joinPipe := some s.tree.fresh
      tree := (s.tree.newPipe .forward).append tail s.tree.fresh }

def junctionLoop (compile : LogExprNode → CfgTree M → Except CompileError (Compiled M)) :
    Bool → List LogExprNode → JunctionState M → Except CompileError (JunctionState M)
  | _, [], s => .ok s
  | isFirstBranch, child :: children, s =>
    (compile child s.tree).bind fun (head, tail, tree) =>
      (forkBranch isFirstBranch head { s with tree := tree }).bind fun s =>
        junctionLoop compile false children (joinBranch tail s)

def compileJunction (compile : LogExprNode → CfgTree M → Except CompileError (Compiled M))
    (children : List LogExprNode) (tree : CfgTree M) : Except CompileError (Compiled M) :=
  (junctionLoop compile true children ⟨none, none, tree⟩).map fun s =>
    (s.forkMpx, s.joinPipe, s.tree)

/-! ## Nodes -/

def compileNode : Nat → LogExprNode → CfgTree M → Except CompileError (Compiled M)
  | 0, _, _ => .error .endless
  | fuel + 1, node, tree =>
    match node with
    | .single object => compileSingle object tree
    | .reference content name => compileReference definitions (compileNode fuel) content name tree
    | .sequence flags children => compileSequence (compileNode fuel) flags children tree
    | .junction children => compileJunction (compileNode fuel) children tree

/-- What `cfg_tree_compile` does with a log statement that catches all: references to the sources are
put in front of it. -/
def catchAll (sources : List String) : LogExprNode → LogExprNode
  | .sequence flags children =>
    if flags.catchall then
      .sequence { flags with catchall := false }
        ((sources.map fun name => .reference .source name).reverse ++ children)
    else .sequence flags children
  | node => node

/-- `cfg_tree_compile` for the log statements `rules`. -/
def compileRules (fuel : Nat) (sources : List String) :
    List LogExprNode → CfgTree M → Except CompileError (CfgTree M)
  | [], tree => .ok tree
  | rule :: rules, tree =>
    (compileNode definitions fuel (catchAll sources rule) tree).bind fun (_, _, tree) =>
      compileRules fuel sources rules tree

end

/-- The pipes that the parser has made. -/
def objectTree (objects : Nat → ObjectKind M) : CfgTree M where
  pipes
    | .object n => .ofKind (.object (objects n))
    | .made _ => .ofKind .forward
  made := 0
  initializedPipes := []
  aux _ _ := none

def cfgTreeCompile (definitions : Content → String → Option LogExprNode) (objects : Nat → ObjectKind M)
    (sources : List String) (rules : List LogExprNode) (fuel : Nat) :
    Except CompileError (CfgTree M) :=
  compileRules definitions fuel sources rules (objectTree objects)

end SyslogNg.CfgTree
