import SyslogNg.CfgTree.Compile

/-!
# What is compiled, without pipes

The compilation of log expressions as a function to what the pipes do: a part of a statement is a
route with an open end, and a source is the list of its entries, which are its drivers and the places
where it is attached to other sources. The entries of a source go on at the statements that it is
attached to.
-/

namespace SyslogNg.CfgTree

open Function

variable {M : Type}

/-- Where the messages of a source come from. -/
inductive Origin where
  | driver (object : Nat)
  /-- The place where a statement refers to a named source; the places of a source are counted. -/
  | attach (name : String) (index : Nat)
  deriving DecidableEq, Repr

/-- A way into a source, and what it does on the way to the end of the source. -/
structure Entry (M : Type) where
  origin : Origin
  route : Route M → Route M

/-- The entry goes on along a route. -/
def Entry.andThen (entry : Entry M) (route : Route M → Route M) : Entry M :=
  { entry with route := entry.route ∘ route }

/-- What is compiled: with a head it is a route with an open end, and the flags of the head. -/
inductive Part (M : Type) where
  | nothing
  | source (entries : List (Entry M))
  | pipe (flags : BranchFlags) (route : Route M → Route M) (tailed : Bool)

/-- A source with a name that is compiled, or one that ends with its statement. -/
abbrev Group (M : Type) := Option String × List (Entry M)

/-- What has been compiled: the objects in use, the destinations, how often the sources have been
attached, and all the sources. -/
structure Plan (M : Type) where
  used : Nat → Bool
  destinations : String → Option (Route.Hop M)
  sources : String → Option Nat
  groups : List (Group M)

def Plan.start : Plan M := ⟨fun _ => false, fun _ => none, fun _ => none, []⟩

/-- The flags of a head, with those of the sequence that it begins. -/
def BranchFlags.join (a b : BranchFlags) : BranchFlags :=
  ⟨a.fallback || b.fallback, a.final || b.final, a.hardFlowControl || b.hardFlowControl⟩

/-- What a message goes through that comes to a head. -/
def throughHead (flags : BranchFlags) (route : Route M → Route M) : Route M → Route M :=
  fun next => .flowControl flags.hardFlowControl (route next)

/-! ## Singles and references -/

/-- The part that a pipe of the parser is. -/
def objectPart (object : Nat) : ObjectKind M → Part M
  | .source => .source [⟨.driver object, id⟩]
  | .destination id keepsNext => .pipe .none (.deliver id keepsNext) true
  | .process f _ => .pipe .none (.process f) true

def planSingle (objects : Nat → ObjectKind M) (object : Nat) (plan : Plan M) :
    Except CompileError (Part M × Plan M) :=
  if !plan.used object then
    .ok (objectPart object (objects object),
      { plan with used := update plan.used object true })
  else match objects object with
    | .process _ (some clone) => .ok (.pipe .none (.process clone) true, plan)
    | _ => .error .noClone

/-- A statement refers to a source that is compiled. -/
def Plan.attach (plan : Plan M) (name : String) (index : Nat) : Part M × Plan M :=
  (.source [⟨.attach name index, id⟩],
    { plan with sources := update plan.sources name (some (index + 1)) })

@[simp] theorem attach_sources_self (plan : Plan M) (name : String) (index : Nat) :
    (plan.attach name index).2.sources name = some (index + 1) := update_self ..

theorem attach_sources_of_ne {name name' : String} (hne : name' ≠ name) (plan : Plan M) (index : Nat) :
    (plan.attach name index).2.sources name' = plan.sources name' := update_of_ne hne ..

/-- A source is compiled when a statement refers to it for the first time. -/
def Plan.addSource (plan : Plan M) (name : String) : Part M → Part M × Plan M
  | .source entries => { plan with groups := plan.groups ++ [(some name, entries)] }.attach name 0
  | .pipe _ _ true => { plan with groups := plan.groups ++ [(some name, [])] }.attach name 0
  | .pipe _ _ false | .nothing => (.source [], plan)

/-- A statement refers to a destination. -/
def forkPart (hops : List (Route.Hop M)) : Part M := .pipe .none (.multiplexer hops) false

def Plan.addDestination (plan : Plan M) (name : String) : Part M → Part M × Plan M
  | .pipe flags route _ =>
    (forkPart [(flags, route .drop)], { plan with
      destinations := update plan.destinations name (some (flags, route .drop)) })
  | .source entries => (forkPart [], { plan with
      destinations := update plan.destinations name none
      groups := plan.groups ++ [(none, entries)] })
  | .nothing => (forkPart [], { plan with
      destinations := update plan.destinations name none })

def planReference (definitions : Content → String → Option LogExprNode)
    (compile : LogExprNode → Plan M → Except CompileError (Part M × Plan M)) (content : Content)
    (name : String) (plan : Plan M) : Except CompileError (Part M × Plan M) :=
  match definitions content name with
  | none => .error .unresolved
  | some node =>
    match content with
    | .source =>
      match plan.sources name with
      | some index => .ok (plan.attach name index)
      | none => (compile node plan).map fun (part, plan) => plan.addSource name part
    | .destination =>
      match plan.destinations name with
      | some hop => .ok (forkPart [hop], plan)
      | none => (compile node plan).map fun (part, plan) => plan.addDestination name part
    | _ => compile node plan

/-! ## Sequences -/

/-- What there is of a sequence: it begins with sources, or with a head. -/
inductive SequencePart (M : Type) where
  | start
  | source (entries : List (Entry M)) (rest : Route M → Route M)
  | pipe (flags : BranchFlags) (route : Route M → Route M)

def SequencePart.add : Part M → SequencePart M → Except CompileError (SequencePart M)
  | .nothing, s => .ok s
  | .source entries, .start => .ok (.source entries id)
  | .source more, .source entries rest => .ok (.source (entries ++ more) rest)
  | .source _, .pipe _ _ => .error .sourceFollows
  | .pipe flags route _, .start => .ok (.pipe flags route)
  | .pipe flags route _, .source entries rest => .ok (.source entries (rest ∘ throughHead flags route))
  | .pipe flags route _, .pipe first before => .ok (.pipe first (before ∘ throughHead flags route))

def SequencePart.finish (flags : LogFlags) : SequencePart M → Except CompileError (Part M)
  | .start => if flags.flowControl then .error .assertion else .ok (.pipe .none id true)
  | .source entries rest => .ok (.source (entries.map fun entry =>
      entry.andThen fun next => .flowControl flags.flowControl (rest next)))
  | .pipe first route => .ok (.pipe (first.join flags.branch) route true)

def planSequenceLoop (compile : LogExprNode → Plan M → Except CompileError (Part M × Plan M)) :
    List LogExprNode → SequencePart M × Plan M → Except CompileError (SequencePart M × Plan M)
  | [], s => .ok s
  | child :: children, (s, plan) =>
    (compile child plan).bind fun (part, plan) =>
      (s.add part).bind fun s => planSequenceLoop compile children (s, plan)

def planSequence (compile : LogExprNode → Plan M → Except CompileError (Part M × Plan M))
    (flags : LogFlags) (children : List LogExprNode) (plan : Plan M) :
    Except CompileError (Part M × Plan M) :=
  if flags.catchall then .error .embeddedCatchall
  else (planSequenceLoop compile children (.start, plan)).bind fun (s, plan) =>
    (s.finish flags).map fun part => (part, plan)

/-! ## Junctions -/

structure Branch (M : Type) where
  flags : BranchFlags
  route : Route M → Route M
  tailed : Bool

/-- The hop that a branch is, for what comes after the junction. -/
def Branch.hop (branch : Branch M) (next : Route M) : Route.Hop M :=
  (branch.flags, branch.route (if branch.tailed then next else .drop))

inductive JunctionPart (M : Type) where
  | start
  | source (entries : List (Entry M))
  | fork (branches : List (Branch M))

def JunctionPart.add (isFirstBranch : Bool) :
    Part M → JunctionPart M → Except CompileError (JunctionPart M)
  | .pipe flags route tailed, .fork branches => .ok (.fork (branches ++ [⟨flags, route, tailed⟩]))
  | .pipe flags route tailed, .start =>
    if isFirstBranch then .ok (.fork [⟨flags, route, tailed⟩]) else .error .mixedBranches
  | .pipe _ _ _, .source _ => .error .mixedBranches
  | .source entries, .start => .ok (.source entries)
  | .source more, .source entries => .ok (.source (entries ++ more))
  | .nothing, .start => .ok .start
  | .nothing, .source entries => .ok (.source entries)
  | .source _, .fork _ | .nothing, .fork _ => .error .mixedBranches

/-- A junction goes on where a branch is left at its end, and where no branch is. -/
def JunctionPart.finish : JunctionPart M → Part M
  | .start => .nothing
  | .source entries => .source entries
  | .fork branches =>
    let joined := branches.any Branch.tailed
    .pipe .none (fun next => .multiplexer (branches.map fun branch => branch.hop next)
      (if joined then .drop else next)) joined

def planJunctionLoop (compile : LogExprNode → Plan M → Except CompileError (Part M × Plan M)) :
    Bool → List LogExprNode → JunctionPart M × Plan M →
      Except CompileError (JunctionPart M × Plan M)
  | _, [], s => .ok s
  | isFirstBranch, child :: children, (s, plan) =>
    (compile child plan).bind fun (part, plan) =>
      (s.add isFirstBranch part).bind fun s => planJunctionLoop compile false children (s, plan)

def planJunction (compile : LogExprNode → Plan M → Except CompileError (Part M × Plan M))
    (children : List LogExprNode) (plan : Plan M) : Except CompileError (Part M × Plan M) :=
  (planJunctionLoop compile true children (.start, plan)).map fun (s, plan) => (s.finish, plan)

/-! ## Nodes and rules -/

section

variable (definitions : Content → String → Option LogExprNode) (objects : Nat → ObjectKind M)

def planNode : Nat → LogExprNode → Plan M → Except CompileError (Part M × Plan M)
  | 0, _, _ => .error .endless
  | fuel + 1, node, plan =>
    match node with
    | .single object => planSingle objects object plan
    | .reference content name => planReference definitions (planNode fuel) content name plan
    | .sequence flags children => planSequence (planNode fuel) flags children plan
    | .junction children => planJunction (planNode fuel) children plan

/-- The sources of a log statement end with it. -/
def Plan.addRule (plan : Plan M) : Part M → Plan M
  | .source entries => { plan with groups := plan.groups ++ [(none, entries)] }
  | _ => plan

def planRules (fuel : Nat) (sources : List String) :
    List LogExprNode → Plan M → Except CompileError (Plan M)
  | [], plan => .ok plan
  | rule :: rules, plan =>
    (planNode definitions objects fuel (catchAll sources rule) plan).bind fun (part, plan) =>
      planRules fuel sources rules (plan.addRule part)

end

/-! ## The routes of the sources -/

/-- The route from an origin. -/
def routeFrom (table : List (Origin × Route M)) (origin : Origin) : Route M :=
  (table.lookup origin).getD .drop

/-- What is behind a source with a name: all the places that it is attached to. -/
def Plan.behind (plan : Plan M) (table : List (Origin × Route M)) (name : String) : Route M :=
  .multiplexer ((List.range ((plan.sources name).getD 0)).map fun index =>
    (.none, routeFrom table (.attach name index))) .drop

/-- What is behind the sources of a group. -/
def Plan.behindGroup (plan : Plan M) (table : List (Origin × Route M)) : Option String → Route M
  | none => .drop
  | some name => plan.behind table name

/-- The routes of all entries: a source comes before those that it is attached to. -/
def Plan.table (plan : Plan M) : List (Group M) → List (Origin × Route M)
  | [] => []
  | (owner, entries) :: groups =>
    let table := plan.table groups
    (entries.map fun entry => (entry.origin, entry.route (plan.behindGroup table owner))) ++ table

/-- What becomes of the messages of a source driver. -/
def Plan.emission (plan : Plan M) (object : Nat) : Route M :=
  routeFrom (plan.table plan.groups) (.driver object)

end SyslogNg.CfgTree
