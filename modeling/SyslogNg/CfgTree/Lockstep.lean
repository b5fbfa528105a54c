import SyslogNg.CfgTree.Contexts
import SyslogNg.CfgTree.Passes

/-!
# Compilations that go side by side

Two plans that differ in what a definition has left in them are continued by the same nodes. A `Lockstep`
tells what the plans and the sources that are on their way have to do with each other; it is kept by
every node that does not refer to the definition.
-/

namespace SyslogNg.CfgTree

open List Lib Function

variable {M : Type}

/-- A relation between plans, and one between the entries of sources, which a definition separates. -/
structure Lockstep (objects : Nat → ObjectKind M) (content : Content) (name : String) where
  plan : Plan M → Plan M → Prop
  entries : List (Entry M) → List (Entry M) → Prop
  used : ∀ {p q}, plan p q → p.used = q.used
  source : ∀ {p q}, plan p q → ∀ y, (content, name) ≠ (.source, y) → p.sources y = q.sources y
  destination : ∀ {p q}, plan p q → ∀ y, (content, name) ≠ (.destination, y) →
    p.destinations y = q.destinations y
  use : ∀ {p q}, plan p q → ∀ n, p.used n = false →
    plan { p with used := update p.used n true } { q with used := update p.used n true }
  driver : ∀ {p q}, plan p q → ∀ n, p.used n = false → objects n = .source →
    entries [⟨.driver n, id⟩] [⟨.driver n, id⟩]
  attach : ∀ {p q}, plan p q → ∀ y i, (content, name) ≠ (.source, y) →
    plan (p.attach y i).2 (q.attach y i).2
  place : ∀ y i, (content, name) ≠ (.source, y) → entries [⟨.attach y i, id⟩] [⟨.attach y i, id⟩]
  group : ∀ {p q a b}, plan p q → entries a b → ∀ owner,
    (∀ y, owner = some y → (content, name) ≠ (.source, y)) →
    plan { p with groups := p.groups ++ [(owner, a)] } { q with groups := q.groups ++ [(owner, b)] }
  setDestination : ∀ {p q}, plan p q → ∀ y hop, (content, name) ≠ (.destination, y) →
    plan { p with destinations := update p.destinations y hop }
      { q with destinations := update q.destinations y hop }
  nil : entries [] []
  append : ∀ {a b a' b'}, entries a b → entries a' b' → entries (a ++ a') (b ++ b')
  andThen : ∀ {a b}, entries a b → ∀ route,
    entries (a.map fun entry => entry.andThen route) (b.map fun entry => entry.andThen route)

section

variable (E : List (Entry M) → List (Entry M) → Prop)

inductive PartRel : Part M → Part M → Prop where
  | nothing : PartRel .nothing .nothing
  | source {a b : List (Entry M)} : E a b → PartRel (.source a) (.source b)
  | pipe (flags : BranchFlags) (route : Route M → Route M) (tailed : Bool) :
      PartRel (.pipe flags route tailed) (.pipe flags route tailed)

inductive SequenceRel : SequencePart M → SequencePart M → Prop where
  | start : SequenceRel .start .start
  | source {a b : List (Entry M)} (rest : Route M → Route M) : E a b →
      SequenceRel (.source a rest) (.source b rest)
  | pipe (flags : BranchFlags) (route : Route M → Route M) :
      SequenceRel (.pipe flags route) (.pipe flags route)

inductive JunctionRel : JunctionPart M → JunctionPart M → Prop where
  | start : JunctionRel .start .start
  | source {a b : List (Entry M)} : E a b → JunctionRel (.source a) (.source b)
  | fork (branches : List (Branch M)) : JunctionRel (.fork branches) (.fork branches)

end

def Compared {objects : Nat → ObjectKind M} {content : Content} {name : String}
    (L : Lockstep objects content name) (x y : Part M × Plan M) : Prop :=
  PartRel L.entries x.1 y.1 ∧ L.plan x.2 y.2

section

variable {objects : Nat → ObjectKind M} {content : Content} {name : String}
  {L : Lockstep objects content name} {p q : Plan M} {x y : Part M} {fuel : Nat}
  {definitions : Content → String → Option LogExprNode} {node : LogExprNode}

variable {s s' : SequencePart M}

theorem PartRel.add (h : PartRel L.entries x y)
    (hs : SequenceRel L.entries s s') : Agrees (SequenceRel L.entries) (s.add x) (s'.add y) := by
  cases h with
  | nothing =>
    cases hs with
    | start => exact .ok .start
    | source rest hentries => exact .ok (.source rest hentries)
    | pipe flags route => exact .ok (.pipe flags route)
  | source hmore =>
    cases hs with
    | start => exact .ok (.source id hmore)
    | source rest hentries => exact .ok (.source rest (L.append hentries hmore))
    | pipe flags route => exact .error _
  | pipe flags' route' tailed =>
    cases hs with
    | start => exact .ok (.pipe flags' route')
    | source rest hentries => exact .ok (.source _ hentries)
    | pipe flags route => exact .ok (.pipe flags _)

theorem SequenceRel.finish (h : SequenceRel L.entries s s') (flags : LogFlags) :
    Agrees (PartRel L.entries) (s.finish flags) (s'.finish flags) := by
  cases h with
  | start =>
    rw [SequencePart.finish]
    split
    · exact .error _
    · exact .ok (.pipe _ _ _)
  | source rest hentries => exact .ok (.source (L.andThen hentries _))
  | pipe first route => exact .ok (.pipe _ _ _)

theorem PartRel.branch (h : PartRel L.entries x y) {s s' : JunctionPart M}
    (hs : JunctionRel L.entries s s') (isFirst : Bool) :
    Agrees (JunctionRel L.entries) (s.add isFirst x) (s'.add isFirst y) := by
  cases h with
  | nothing =>
    cases hs with
    | start => exact .ok .start
    | source hentries => exact .ok (.source hentries)
    | fork branches => exact .error _
  | source hmore =>
    cases hs with
    | start => exact .ok (.source hmore)
    | source hentries => exact .ok (.source (L.append hentries hmore))
    | fork branches => exact .error _
  | pipe flags route tailed =>
    cases hs with
    | start =>
      rw [JunctionPart.add]
      split
      · exact .ok (.fork _)
      · exact .error _
    | source hentries => exact .error _
    | fork branches => exact .ok (.fork _)

theorem JunctionRel.finish {s s' : JunctionPart M} (h : JunctionRel L.entries s s') :
    PartRel L.entries s.finish s'.finish := by
  cases h with
  | start => exact .nothing
  | source hentries => exact .source hentries
  | fork branches => exact .pipe _ _ _

/-! ## The loops -/

/-- The same children on both sides. -/
def KeptBy (L : Lockstep objects content name)
    (compile : LogExprNode → Plan M → Except CompileError (Part M × Plan M)) (children : List LogExprNode) :
    Prop :=
  ∀ child ∈ children, ∀ p q, L.plan p q → Agrees (Compared L) (compile child p) (compile child q)

variable {compile : LogExprNode → Plan M → Except CompileError (Part M × Plan M)}
  {children : List LogExprNode}

theorem KeptBy.sequenceLoop (h : KeptBy L compile children) (hplan : L.plan p q)
    (hs : SequenceRel L.entries s s') :
    Agrees (fun a b => SequenceRel L.entries a.1 b.1 ∧ L.plan a.2 b.2)
      (planSequenceLoop compile children (s, p)) (planSequenceLoop compile children (s', q)) := by
  induction children generalizing s s' p q with
  | nil => exact .ok ⟨hs, hplan⟩
  | cons child children ih =>
    rw [planSequenceLoop, planSequenceLoop]
    refine (h child mem_cons_self p q hplan).bind fun a b _ hab => ?_
    exact (hab.1.add hs).bind fun s1 s1' _ hs1 =>
      ih (fun c hc => h c (mem_cons_of_mem _ hc)) hab.2 hs1

theorem KeptBy.junctionLoop (h : KeptBy L compile children) (hplan : L.plan p q)
    {s s' : JunctionPart M} (hs : JunctionRel L.entries s s') (isFirst : Bool) :
    Agrees (fun a b => JunctionRel L.entries a.1 b.1 ∧ L.plan a.2 b.2)
      (planJunctionLoop compile isFirst children (s, p))
      (planJunctionLoop compile isFirst children (s', q)) := by
  induction children generalizing isFirst s s' p q with
  | nil => exact .ok ⟨hs, hplan⟩
  | cons child children ih =>
    rw [planJunctionLoop, planJunctionLoop]
    refine (h child mem_cons_self p q hplan).bind fun a b _ hab => ?_
    exact (hab.1.branch hs isFirst).bind fun s1 s1' _ hs1 =>
      ih (fun c hc => h c (mem_cons_of_mem _ hc)) hab.2 hs1 false

/-! ## Nodes -/

theorem Lockstep.single (L : Lockstep objects content name) (hplan : L.plan p q) (object : Nat) :
    Agrees (Compared L) (planSingle objects object p) (planSingle objects object q) := by
  rw [planSingle, planSingle, ← L.used hplan]
  cases hused : p.used object with
  | false =>
    refine .ok ⟨?_, L.use hplan object hused⟩
    cases hobject : objects object with
    | source => exact .source (L.driver hplan object hused hobject)
    | destination id keepsNext => exact .pipe _ _ _
    | process f clone => exact .pipe _ _ _
  | true =>
    cases objects object with
    | source => exact .error _
    | destination id keepsNext => exact .error _
    | process f clone =>
      cases clone with
      | none => exact .error _
      | some clone => exact .ok ⟨.pipe _ _ _, hplan⟩

theorem Lockstep.addSource (L : Lockstep objects content name) {a b : Part M × Plan M}
    (h : Compared L a b) {name' : String} (hne : (content, name) ≠ (.source, name')) :
    Compared L (a.2.addSource name' a.1) (b.2.addSource name' b.1) := by
  obtain ⟨x, p⟩ := a
  obtain ⟨y, q⟩ := b
  obtain ⟨hpart, hplan⟩ := h
  have howner : ∀ y, some name' = some y → (content, name) ≠ (.source, y) := by
    rintro y heq
    obtain rfl := Option.some.inj heq
    exact hne
  cases hpart with
  | nothing => exact ⟨.source L.nil, hplan⟩
  | source hentries =>
    exact ⟨.source (L.place name' 0 hne), L.attach (L.group hplan hentries _ howner) name' 0 hne⟩
  | pipe flags route tailed =>
    cases tailed with
    | false => exact ⟨.source L.nil, hplan⟩
    | true =>
      exact ⟨.source (L.place name' 0 hne), L.attach (L.group hplan L.nil _ howner) name' 0 hne⟩

theorem Lockstep.addDestination (L : Lockstep objects content name) {a b : Part M × Plan M}
    (h : Compared L a b) {name' : String} (hne : (content, name) ≠ (.destination, name')) :
    Compared L (a.2.addDestination name' a.1) (b.2.addDestination name' b.1) := by
  obtain ⟨x, p⟩ := a
  obtain ⟨y, q⟩ := b
  obtain ⟨hpart, hplan⟩ := h
  cases hpart with
  | nothing => exact ⟨.pipe _ _ _, L.setDestination hplan name' none hne⟩
  | source hentries =>
    have hgroup := L.group hplan hentries none nofun
    exact ⟨.pipe _ _ _, L.setDestination hgroup name' none hne⟩
  | pipe flags route tailed => exact ⟨.pipe _ _ _, L.setDestination hplan name' _ hne⟩

theorem Lockstep.keeps (L : Lockstep objects content name) (hplan : L.plan p q)
    (hnot : ¬Refers definitions content name node) :
    Agrees (Compared L) (planNode definitions objects fuel node p)
      (planNode definitions objects fuel node q) := by
  induction fuel generalizing node p q with
  | zero => exact .error _
  | succ fuel ih =>
    cases node with
    | single object => exact L.single hplan object
    | sequence flags children =>
      have hkept : KeptBy L (planNode definitions objects fuel) children := fun child hmem p q hplan =>
        ih hplan fun hr => hnot (.sequence flags hmem hr)
      rw [planNode, planNode, planSequence, planSequence]
      split
      · exact .error _
      · refine (hkept.sequenceLoop hplan .start).bind fun a b _ hab => ?_
        exact (hab.1.finish flags).map fun _ _ _ hpart => ⟨hpart, hab.2⟩
    | junction children =>
      have hkept : KeptBy L (planNode definitions objects fuel) children := fun child hmem p q hplan =>
        ih hplan fun hr => hnot (.junction hmem hr)
      exact (hkept.junctionLoop hplan .start true).map fun a b _ hab => ⟨hab.1.finish, hab.2⟩
    | reference content' name' =>
      have hne : (content, name) ≠ (content', name') := by
        intro heq
        cases heq
        exact hnot .here
      rw [planNode, planNode, planReference, planReference]
      cases hdef : definitions content' name' with
      | none => exact .error _
      | some target =>
        have hinner := @ih p q target hplan fun hr => hnot (.through hdef hr)
        cases content' with
        | source =>
          dsimp only
          rw [← L.source hplan name' hne]
          cases p.sources name' with
          | some index => exact .ok ⟨.source (L.place name' index hne), L.attach hplan name' index hne⟩
          | none => exact hinner.map fun a b _ hab => L.addSource hab hne
        | destination =>
          dsimp only
          rw [← L.destination hplan name' hne]
          cases p.destinations name' with
          | some hop => exact .ok ⟨.pipe _ _ _, hplan⟩
          | none => exact hinner.map fun a b _ hab => L.addDestination hab hne
        | filter => exact hinner
        | parser => exact hinner
        | rewrite => exact hinner

/-! ## Log statements -/

theorem planSequenceLoop_append (a b : List LogExprNode) (s : SequencePart M × Plan M) :
    planSequenceLoop compile (a ++ b) s =
      (planSequenceLoop compile a s).bind (planSequenceLoop compile b) := by
  rw [planSequenceLoop_eq, planSequenceLoop_eq, loop_append]
  exact congrArg _ (funext fun s => (planSequenceLoop_eq b s).symm)

theorem planJunctionLoop_append (a b : List LogExprNode) (isFirst : Bool) (s : JunctionPart M × Plan M) :
    planJunctionLoop compile isFirst (a ++ b) s =
      (planJunctionLoop compile isFirst a s).bind
        (planJunctionLoop compile (isFirst && a.isEmpty) b) := by
  induction a generalizing isFirst s with
  | nil =>
    rw [isEmpty_nil, Bool.and_true]
    rfl
  | cons child a ih =>
    obtain ⟨s, plan⟩ := s
    rw [cons_append, planJunctionLoop, planJunctionLoop, isEmpty_cons, Bool.and_false]
    cases compile child plan with
    | error e => rfl
    | ok r =>
      show (s.add isFirst r.1).bind _ = ((s.add isFirst r.1).bind _).bind _
      cases s.add isFirst r.1 with
      | error e => rfl
      | ok s' => exact ih false (s', r.2)

variable {L0 : Lockstep objects content name} {node' : LogExprNode}

theorem SequenceRel.weaken {E E' : List (Entry M) → List (Entry M) → Prop} (h : ∀ a b, E a b → E' a b)
    (hs : SequenceRel E s s') : SequenceRel E' s s' := by
  cases hs with
  | start => exact .start
  | source rest hentries => exact .source rest (h _ _ hentries)
  | pipe flags route => exact .pipe flags route

theorem JunctionRel.weaken {E E' : List (Entry M) → List (Entry M) → Prop} (h : ∀ a b, E a b → E' a b)
    {s s' : JunctionPart M} (hs : JunctionRel E s s') : JunctionRel E' s s' := by
  cases hs with
  | start => exact .start
  | source hentries => exact .source (h _ _ hentries)
  | fork branches => exact .fork branches

/-- Two elements that a statement goes on with alike. -/
def GoesOn (L0 L : Lockstep objects content name) (definitions : Content → String → Option LogExprNode)
    (least : Nat) (node node' : LogExprNode) : Prop :=
  ∀ fuel, least ≤ fuel → ∀ p q, L0.plan p q →
    Agrees (fun a b => L.plan a.2 b.2 ∧ ∀ s s', SequenceRel L0.entries s s' →
        Agrees (SequenceRel L.entries) (s.add a.1) (s'.add b.1))
      (planNode definitions objects fuel node p) (planNode definitions objects fuel node' q)

theorem GoesOn.context {least : Nat} (h : GoesOn L0 L definitions least node node')
    (hsub : ∀ a b, L0.entries a b → L.entries a b) {context : LogContext}
    (hothers : ∀ other ∈ context.others, ¬Refers definitions content name other)
    (hfuel : least + context.depth ≤ fuel) (hplan : L0.plan p q) :
    Agrees (Compared L) (planNode definitions objects fuel (context.fill node) p)
      (planNode definitions objects fuel (context.fill node') q) := by
  have hkept : ∀ (L : Lockstep objects content name) fuel (nodes : List LogExprNode),
      (∀ other ∈ nodes, ¬Refers definitions content name other) →
      KeptBy L (planNode definitions objects fuel) nodes :=
    fun L fuel nodes hnot child hmem p q hplan => L.keeps hplan (hnot child hmem)
  induction context generalizing fuel p q with
  | item flags before after =>
    obtain ⟨fuel, rfl⟩ : ∃ n, fuel = n + 1 := ⟨fuel - 1, by simp only [LogContext.depth] at hfuel; omega⟩
    rw [LogContext.fill, LogContext.fill, planNode, planNode, planSequence, planSequence]
    split
    · exact .error _
    · rw [planSequenceLoop_append, planSequenceLoop_append]
      refine Agrees.bind (R := fun a b => SequenceRel L.entries a.1 b.1 ∧ L.plan a.2 b.2) ?_
        fun a b _ hab => (hab.1.finish flags).map fun _ _ _ hpart => ⟨hpart, hab.2⟩
      have hbefore := hkept L0 fuel before fun other hmem => hothers other (mem_append_left _ hmem)
      refine (hbefore.sequenceLoop hplan .start).bind fun a b _ hab => ?_
      rw [planSequenceLoop, planSequenceLoop]
      refine (h fuel (by simp only [LogContext.depth] at hfuel; omega) _ _ hab.2).bind
        fun x y _ hxy => ?_
      refine (hxy.2 _ _ hab.1).bind fun s s' _ hs => ?_
      exact (hkept L fuel after fun other hmem => hothers other (mem_append_right _ hmem)).sequenceLoop
        hxy.1 hs
  | sequence flags before context after ih =>
    obtain ⟨fuel, rfl⟩ : ∃ n, fuel = n + 1 := ⟨fuel - 1, by simp only [LogContext.depth] at hfuel; omega⟩
    rw [LogContext.fill, LogContext.fill, planNode, planNode, planSequence, planSequence]
    split
    · exact .error _
    · rw [planSequenceLoop_append, planSequenceLoop_append]
      refine Agrees.bind (R := fun a b => SequenceRel L.entries a.1 b.1 ∧ L.plan a.2 b.2) ?_
        fun a b _ hab => (hab.1.finish flags).map fun _ _ _ hpart => ⟨hpart, hab.2⟩
      have hbefore := hkept L0 fuel before fun other hmem =>
        hothers other (mem_append_left _ (mem_append_left _ hmem))
      refine (hbefore.sequenceLoop hplan .start).bind fun a b _ hab => ?_
      rw [planSequenceLoop, planSequenceLoop]
      refine (ih (fun other hmem => hothers other (mem_append_right _ hmem))
        (by simp only [LogContext.depth] at hfuel; omega) hab.2).bind fun x y _ hxy => ?_
      refine (hxy.1.add (hab.1.weaken hsub)).bind fun s s' _ hs => ?_
      exact (hkept L fuel after fun other hmem =>
        hothers other (mem_append_left _ (mem_append_right _ hmem))).sequenceLoop hxy.2 hs
  | junction before context after ih =>
    obtain ⟨fuel, rfl⟩ : ∃ n, fuel = n + 1 := ⟨fuel - 1, by simp only [LogContext.depth] at hfuel; omega⟩
    refine Agrees.map (R := fun a b => JunctionRel L.entries a.1 b.1 ∧ L.plan a.2 b.2) ?_
      fun a b _ hab => ⟨hab.1.finish, hab.2⟩
    rw [planJunctionLoop_append, planJunctionLoop_append]
    have hbefore := hkept L0 fuel before fun other hmem =>
      hothers other (mem_append_left _ (mem_append_left _ hmem))
    refine (hbefore.junctionLoop hplan .start true).bind fun a b _ hab => ?_
    rw [planJunctionLoop, planJunctionLoop]
    refine (ih (fun other hmem => hothers other (mem_append_right _ hmem))
      (by simp only [LogContext.depth] at hfuel; omega) hab.2).bind fun x y _ hxy => ?_
    refine (hxy.1.branch (hab.1.weaken hsub) _).bind fun s s' _ hs => ?_
    exact (hkept L fuel after fun other hmem =>
      hothers other (mem_append_left _ (mem_append_right _ hmem))).junctionLoop hxy.2 hs false

theorem Lockstep.addRule (L : Lockstep objects content name) {a b : Part M × Plan M}
    (h : Compared L a b) : L.plan (a.2.addRule a.1) (b.2.addRule b.1) := by
  obtain ⟨x, p⟩ := a
  obtain ⟨y, q⟩ := b
  obtain ⟨hpart, hplan⟩ := h
  cases hpart with
  | nothing => exact hplan
  | source hentries => exact L.group hplan hentries none nofun
  | pipe flags route tailed => exact hplan

theorem Lockstep.rules (L : Lockstep objects content name) {sources : List String}
    {rules : List LogExprNode} (hplan : L.plan p q)
    (hnot : ∀ rule ∈ rules, ¬Refers definitions content name (catchAll sources rule)) :
    Agrees L.plan (planRules definitions objects fuel sources rules p)
      (planRules definitions objects fuel sources rules q) := by
  induction rules generalizing p q with
  | nil => exact .ok hplan
  | cons rule rules ih =>
    rw [planRules, planRules]
    refine (L.keeps hplan (hnot rule mem_cons_self)).bind fun a b _ hab => ?_
    exact ih (L.addRule hab) fun r hr => hnot r (mem_cons_of_mem _ hr)

theorem planRules_append (sources : List String) (a b : List LogExprNode) (plan : Plan M) :
    planRules definitions objects fuel sources (a ++ b) plan =
      (planRules definitions objects fuel sources a plan).bind
        (planRules definitions objects fuel sources b) := by
  rw [planRules_eq, planRules_eq, loop_append]
  exact congrArg _ (funext fun plan => (planRules_eq plan).symm)

theorem GoesOn.rules {least : Nat} (h : GoesOn L0 L definitions least node node')
    (hsub : ∀ a b, L0.entries a b → L.entries a b) {sources : List String}
    {before after : List LogExprNode} {context : LogContext}
    (huse : OnlyUse definitions sources content name before after context)
    (hfuel : least + (context.catchAll sources).depth ≤ fuel) (hplan : L0.plan p p) :
    Agrees L.plan
      (planRules definitions objects fuel sources (before ++ context.fill node :: after) p)
      (planRules definitions objects fuel sources (before ++ context.fill node' :: after) p) := by
  rw [planRules_append, planRules_append]
  refine (L0.rules hplan fun rule hr => huse.1 rule (mem_append_left _ hr)).bind fun a b _ hab => ?_
  rw [planRules, planRules, LogContext.catchAll_fill, LogContext.catchAll_fill]
  refine (h.context hsub huse.2 hfuel hab).bind fun x y _ hxy => ?_
  exact L.rules (L.addRule hxy) fun rule hr => huse.1 rule (mem_append_right _ hr)

end

end SyslogNg.CfgTree
