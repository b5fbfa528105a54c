import SyslogNg.CfgTree.Sequences

/-!
# Junctions refine the plan

A junction is compiled branch by branch: the heads are hops of the fork, and the tails are appended to
the join. Both are held while a branch is compiled.
-/

namespace SyslogNg.CfgTree

open Option List

variable {M : Type}

def BranchOk (tree : CfgTree M) (held : Set PipeId) (fork : PipeId) (joinPipe : Option PipeId)
    (hop : PipeId) (branch : Branch M) : Prop :=
  ∃ region last, Region tree held region ∧ fork ∉ region ∧ (∀ join, joinPipe = some join → join ∉ region) ∧
    hop ∈ region ∧ last ∈ region ∧ (tree.pipes hop).flags = branch.flags ∧
    (tree.pipes last).pipeNext = (if branch.tailed then joinPipe else none) ∧
    (branch.tailed = true → joinPipe.isSome = true) ∧
    Takes tree.pipes region (some hop) last hop branch.route

structure JoinOk (before tree : CfgTree M) (held : Set PipeId) (join : PipeId) : Prop where
  new : ¬Settled before join
  out : join ∉ held
  kind : (tree.pipes join).kind = .forward
  next : (tree.pipes join).pipeNext = none
  flags : (tree.pipes join).flags = .none

structure ForkOk (before tree : CfgTree M) (held : Set PipeId) (fork : PipeId) (hops : List PipeId) :
    Prop where
  new : ¬Settled before fork
  out : fork ∉ held
  kind : (tree.pipes fork).kind = .multiplexer hops
  next : (tree.pipes fork).pipeNext = none
  flags : (tree.pipes fork).flags = .none

def JunctionOk (before : CfgTree M) (held : Set PipeId) (s : JunctionState M) : JunctionPart M → Prop
  | .start => s.forkMpx = none ∧ s.joinPipe = none
  | .source entries => ∃ region join, s.forkMpx = none ∧ s.joinPipe = some join ∧
      JoinOk before s.tree held join ∧ Region s.tree held region ∧ join ∈ region ∧
      ∀ entry ∈ entries, EntryOk s.tree region join entry
  | .fork branches => ∃ fork hops, s.forkMpx = some fork ∧ ForkOk before s.tree held fork hops ∧
      (∀ join, s.joinPipe = some join → JoinOk before s.tree held join ∧ join ≠ fork) ∧
      s.joinPipe.isSome = branches.any Branch.tailed ∧
      List.Forall₂ (BranchOk s.tree held fork s.joinPipe) hops branches

structure JunctionRefined (objects : Nat → ObjectKind M) (before : CfgTree M) (held : Set PipeId)
    (s : JunctionState M) (planned : JunctionPart M × Plan M) : Prop where
  grows : Grows before s.tree
  inv : Inv objects s.tree planned.2 (held ∪ ends s.forkMpx s.joinPipe)
  part : JunctionOk before held s planned.1

section

variable {objects : Nat → ObjectKind M} {tree tree' before : CfgTree M} {plan : Plan M}
  {held region : Set PipeId} {last fork join hop : PipeId} {hops : List PipeId} {tail : Option PipeId}
  {tailed : Bool} {s : JunctionState M} {jp : JunctionPart M}

/-! ## The join -/

structure Joins (s s' : JunctionState M) (last : PipeId) (tailed : Bool) : Prop where
  fork : s'.forkMpx = s.forkMpx
  settled : ∀ i, Settled s.tree i → Settled s'.tree i
  same : ∀ i, Settled s.tree i → i ≠ last → s'.tree.pipes i = s.tree.pipes i
  last : s'.tree.pipes last = { s.tree.pipes last with
    pipeNext := if tailed then s'.joinPipe else (s.tree.pipes last).pipeNext }
  entry : ∀ origin i, EntryAt s.tree origin i → EntryAt s'.tree origin i
  kept : ∀ i, s.joinPipe = some i → s'.joinPipe = some i
  untailed : tailed = false → s'.joinPipe = s.joinPipe
  tailed : tailed = true → s'.joinPipe.isSome = true
  join : ∀ i, s'.joinPipe = some i → s.joinPipe = some i ∨
    (¬Settled s.tree i ∧ s'.tree.pipes i = .ofKind .forward)

theorem joinBranch_joins (htail : tail = if tailed then some last else none)
    (hinv : Inv objects s.tree plan held) (hgrows : Grows before s.tree) (hlast : last ∈ held)
    (hnew : ¬Settled before last) (hjoin : ∀ i, s.joinPipe = some i → i ∈ held) :
    Joins s (joinBranch tail s) last tailed ∧ Grows before (joinBranch tail s).tree ∧
      Inv objects (joinBranch tail s).tree plan (held ∪ ends none (joinBranch tail s).joinPipe) := by
  obtain ⟨forkMpx, joinPipe, tree⟩ := s
  cases tailed with
  | false =>
    obtain rfl : tail = none := htail
    refine ⟨⟨rfl, fun _ h => h, fun _ _ _ => rfl, rfl, fun _ _ h => h, fun _ h => h, fun _ => rfl,
      nofun, fun _ h => .inl h⟩, hgrows, hinv.release ?_⟩
    exact Set.union_subset subset_rfl fun i hi => hi.elim nofun (hjoin i)
  | true =>
    obtain rfl : tail = some last := htail
    cases joinPipe with
    | some join =>
      have hkeeps := keepsUse_append objects last join
      obtain ⟨hinv', hsettled, hentry⟩ := hinv.modify hlast hkeeps
      refine ⟨⟨rfl, fun i hi => (hsettled i).2 hi, fun i _ hi => append_pipes_of_ne hi,
        append_pipes_self .., hentry, fun _ h => h, fun _ => rfl, fun _ => rfl, fun _ h => .inl h⟩,
        hgrows.modify hinv hlast hkeeps hnew, hinv'.release ?_⟩
      exact Set.union_subset subset_rfl fun i hi => hi.elim nofun (hjoin i)
    | none =>
      obtain ⟨hinv1, hgrows1⟩ := hinv.newPipe .forward
      have hmem : last ∈ insert tree.fresh held := .inr hlast
      have hkeeps := keepsUse_append objects last tree.fresh
      obtain ⟨hinv2, hsettled, hentry⟩ := hinv1.modify hmem hkeeps
      have hne : last ≠ tree.fresh := (hinv.inUse last hlast).ne_fresh
      refine ⟨⟨rfl, fun i hi => (hsettled i).2 (hgrows1.settled i hi), fun i hi hil => ?_, ?_,
        fun origin i hat => hentry origin i (hgrows1.entry origin i hat), nofun, nofun, fun _ => rfl,
        fun i hi => .inr ?_⟩, (hgrows.trans hgrows1).modify hinv1 hmem hkeeps hnew, hinv2.release ?_⟩
      · exact (append_pipes_of_ne hil).trans (newPipe_pipes_of_ne hi.ne_fresh)
      · refine (append_pipes_self ..).trans ?_
        rw [newPipe_pipes_of_ne hne]
        rfl
      · obtain rfl := some.inj hi
        exact ⟨not_settled_fresh tree, (append_pipes_of_ne hne.symm).trans (newPipe_pipes_fresh ..)⟩
      · rintro i (hi | hi | hi)
        · exact .inr hi
        · cases hi
        · exact .inl (some.inj hi).symm

theorem JoinOk.congr (h : JoinOk before tree held join) (hsame : tree'.pipes join = tree.pipes join) :
    JoinOk before tree' held join :=
  ⟨h.new, h.out, by rw [hsame, h.kind], by rw [hsame, h.next], by rw [hsame, h.flags]⟩

variable {s' : JunctionState M}

theorem Joins.joinOk (h : Joins s s' last tailed) (hgrows : Grows before s.tree)
    (hheld : ∀ i ∈ held, Settled s.tree i)
    (hold : ∀ i, s.joinPipe = some i → JoinOk before s.tree held i ∧ Settled s.tree i ∧ i ≠ last)
    (hjoin : s'.joinPipe = some join) : JoinOk before s'.tree held join := by
  rcases h.join join hjoin with hsome | ⟨hnew, hpipe⟩
  · obtain ⟨hok, hset, hne⟩ := hold join hsome
    exact hok.congr (h.same join hset hne)
  · exact ⟨fun hset => hnew (hgrows.settled _ hset), fun hmem => hnew (hheld _ hmem), by rw [hpipe]; rfl,
      by rw [hpipe]; rfl, by rw [hpipe]; rfl⟩

/-! ## Sources -/

theorem Takes.of_fits {pipes pipes' : PipeId → LogPipe M} {head : Option PipeId} {i : PipeId}
    {route : Route M → Route M} (h : Takes pipes region head last i route)
    (hfits : Fits pipes pipes' region head last) : Takes pipes' region head last i route := by
  intro pipes'' hfits'
  refine h pipes'' fun k hk => ?_
  obtain ⟨hkind, hnext, hflags⟩ := hfits k hk
  obtain ⟨hkind', hnext', hflags'⟩ := hfits' k hk
  exact ⟨hkind'.trans hkind, fun hne => (hnext' hne).trans (hnext hne),
    fun hne => (hflags' hne).trans (hflags hne)⟩

theorem Takes.link {pipes : PipeId → LogPipe M} {region' : Set PipeId} {head head' : Option PipeId}
    {last' next i : PipeId} {flags' : BranchFlags} {route route' : Route M → Route M}
    (h : Takes pipes region head last i route) (h' : Takes pipes region' head' last' next route')
    (hflags : (pipes next).flags = flags') (hnext : next ∈ region')
    (hlinks : Links region region' head last last') (happend : (pipes last).pipeNext = some next) :
    Takes pipes (region ∪ region') head last' i (route ∘ throughHead flags' route') := by
  have heta : pipes last = { pipes last with pipeNext := some next } := by rw [← happend]
  exact h.comp h' hflags hlinks.lastIn hnext hlinks.lastNew hlinks.headNew hlinks.endNew heta
    fun _ _ => rfl

theorem Joins.fits (h : Joins s s' last tailed) (hregion : Region s.tree held region)
    (head : Option PipeId) : Fits s.tree.pipes s'.tree.pipes region head last := by
  intro i hi
  by_cases heq : i = last
  · rw [heq, h.last]
    exact ⟨rfl, fun hne => absurd rfl hne, fun _ => rfl⟩
  · rw [h.same i (hregion i hi).1 heq]
    exact ⟨rfl, fun _ => rfl, fun _ => rfl⟩

theorem EntryOk.joins {entry : Entry M} {held' : Set PipeId} (h : EntryOk s.tree region last entry)
    (hjoins : Joins s s' last true) (hregion : Region s.tree held region) (hlast : last ∈ region)
    (hjoin : s'.joinPipe = some join) (hok : JoinOk before s'.tree held' join) (hout : join ∉ region) :
    EntryOk s'.tree (region ∪ {join}) join entry := by
  obtain ⟨i, hi, hat, hflags, htakes⟩ := h.pipe
  have hnext : (s'.tree.pipes last).pipeNext = some join := by
    rw [hjoins.last, ← hjoin]
    rfl
  have hlinks : Links region {join} none last join := by
    refine ⟨hlast, ?_, nofun, hout⟩
    rintro rfl
    exact hout hlast
  have hforward := @takes_forward M s'.tree join none hok.kind
  have hcomp := (htakes.of_fits (hjoins.fits hregion none)).link hforward hok.flags rfl hlinks hnext
  have hthrough : throughHead BranchFlags.none (id : Route M → Route M) = id := by
    funext next
    exact Route.flowControl_false next
  rw [hthrough] at hcomp
  refine ⟨i, .inl hi, hjoins.entry _ _ hat, ?_, hcomp⟩
  rw [((hjoins.fits hregion none) i hi).2.2 nofun, hflags]

variable {compiled : Compiled M} {planned : Part M × Plan M} {plan' : Plan M} {isFirst : Bool}

theorem JunctionRefined.source {head : Option PipeId} {more : List (Entry M)}
    (h : JunctionRefined objects before held s (jp, plan))
    (hc : Refined objects s.tree (held ∪ ends s.forkMpx s.joinPipe) (head, tail, tree)
      (.source more, plan')) :
    Agrees (fun s' jp' => JunctionRefined objects before held (joinBranch tail s') (jp', plan'))
      (forkBranch isFirst head { s with tree := tree }) (jp.add isFirst (.source more)) := by
  obtain ⟨hgrows, hinv, region', t, hhead, htail, hregion', hin', hnew', hnext', hentries'⟩ := hc
  obtain rfl : head = none := hhead
  obtain rfl : tail = some t := htail
  have hgrowsTree := h.grows.trans hgrows
  have hnewTail : ¬Settled before t := fun hset => hnew' (h.grows.settled _ hset)
  have htailHeld : t ∈ (held ∪ ends s.forkMpx s.joinPipe) ∪ ends none (some t) := .inr (.inr rfl)
  have hheldTree : ∀ i ∈ held, Settled tree i := fun i hi => hinv.inUse i (.inl (.inl hi))
  obtain ⟨hjoins, hgrows2, hinv2⟩ := @joinBranch_joins M objects before plan' _ t (some t) true
    { s with tree := tree } rfl hinv hgrowsTree htailHeld hnewTail fun i hi => .inl (.inr (.inr hi))
  obtain ⟨join, hjoin⟩ := isSome_iff_exists.1 (hjoins.tailed rfl)
  -- what there was of the junction is a source, too
  have hdone : ∀ entries, s.forkMpx = none →
      (∀ i, s.joinPipe = some i → JoinOk before s.tree held i) →
      (∃ region, Region s.tree held region ∧ (∀ entry ∈ entries, EntryOk s.tree region join entry)) →
      JunctionRefined objects before held (joinBranch (some t) { s with tree := tree })
        (.source (entries ++ more), plan') := by
    intro entries hfork hold ⟨region, hregion, hentries⟩
    have hok := hjoins.joinOk hgrowsTree hheldTree (fun i hi => by
      have hmem : i ∈ held ∪ ends s.forkMpx s.joinPipe := .inr (.inr hi)
      refine ⟨(hold i hi).congr (hgrows.same i (h.inv.inUse i hmem)), hinv.inUse i (.inl hmem), ?_⟩
      rintro rfl
      exact (hregion' i hin').2 hmem) hjoin
    have hout : join ∉ region' := by
      intro hmem
      rcases hjoins.join join hjoin with hsome | ⟨hfree, -⟩
      · exact (hregion' join hmem).2 (.inr (.inr hsome))
      · exact hfree (hregion' join hmem).1
    have hsame : ∀ i ∈ region, (joinBranch (some t) { s with tree := tree }).tree.pipes i =
        s.tree.pipes i := by
      intro i hi
      refine (hjoins.same i (hgrows.settled i (hregion i hi).1) ?_).trans
        (hgrows.same i (hregion i hi).1)
      rintro rfl
      exact hnew' (hregion i hi).1
    refine ⟨hgrows2, hinv2.release ?_, region' ∪ {join} ∪ region, join, hjoins.fork.trans hfork, hjoin,
      hok, ?_, .inl (.inr rfl), fun entry hentry => ?_⟩
    · rw [hjoins.fork]
      rintro i (hi | hi | hi)
      · exact .inl (.inl (.inl hi))
      · rw [hfork] at hi
        cases hi
      · exact .inr (.inr hi)
    · rintro i ((hi | rfl) | hi)
      · exact ⟨hjoins.settled i (hregion' i hi).1, fun hmem => (hregion' i hi).2 (.inl hmem)⟩
      · exact ⟨hinv2.inUse _ (.inr (.inr hjoin)), hok.out⟩
      · exact ⟨hjoins.settled i (hgrows.settled i (hregion i hi).1), (hregion i hi).2⟩
    · rcases mem_append.1 hentry with hentry | hentry
      · exact ((hentries entry hentry).congr hsame fun origin i hat =>
          hjoins.entry origin i (hgrows.entry origin i hat)).mono Set.subset_union_right
      · exact ((hentries' entry hentry).joins hjoins hregion' hin' hjoin hok hout).mono
          Set.subset_union_left
  cases jp with
  | start =>
    obtain ⟨hfork, hnone⟩ := h.part
    unfold forkBranch
    rw [hfork]
    refine .ok (hfork ▸ hdone [] hfork (fun i hi => ?_) ⟨∅, nofun, nofun⟩)
    rw [hnone] at hi
    cases hi
  | source entries =>
    obtain ⟨region, join', hfork, hjoin', hok, hregion, -, hentries⟩ := h.part
    unfold forkBranch
    rw [hfork]
    obtain rfl : join' = join := some.inj ((hjoins.kept join' hjoin').symm.trans hjoin)
    refine .ok (hfork ▸ hdone entries hfork (fun i hi => ?_) ⟨region, hregion, hentries⟩)
    rw [hjoin'] at hi
    exact some.inj hi ▸ hok
  | fork branches =>
    obtain ⟨fork, hops, hfork, -⟩ := h.part
    unfold forkBranch
    rw [hfork]
    exact .error _

/-! ## Branches -/

theorem addNextHop_pipes_of_ne {i : PipeId} (h : i ≠ fork) :
    (tree.addNextHop fork hop).pipes i = tree.pipes i := modify_pipes_of_ne h

theorem ForkOk.congr (h : ForkOk before tree held fork hops) (hsame : tree'.pipes fork = tree.pipes fork) :
    ForkOk before tree' held fork hops :=
  ⟨h.new, h.out, by rw [hsame, h.kind], by rw [hsame, h.next], by rw [hsame, h.flags]⟩

theorem BranchOk.congr {joinPipe joinPipe' : Option PipeId} {branch : Branch M}
    (h : BranchOk tree held fork joinPipe hop branch) (hsettled : ∀ i, Settled tree i → Settled tree' i)
    (hsame : ∀ i, Settled tree i → i ≠ fork → tree'.pipes i = tree.pipes i)
    (hkept : ∀ i, joinPipe = some i → joinPipe' = some i)
    (hjoin : ∀ i, joinPipe' = some i → joinPipe = some i ∨ ¬Settled tree i) :
    BranchOk tree' held fork joinPipe' hop branch := by
  obtain ⟨region, last, hregion, hfork, hjoins, hhop, hlast, hflags, hnext, htailed, htakes⟩ := h
  have hpipes : ∀ i ∈ region, tree'.pipes i = tree.pipes i := by
    intro i hi
    refine hsame i (hregion i hi).1 ?_
    rintro rfl
    exact hfork hi
  refine ⟨region, last, hregion.mono hsettled subset_rfl, hfork, fun i hi hmem => ?_, hhop, hlast,
    by rw [hpipes hop hhop, hflags], ?_, fun ht => ?_, htakes.congr hpipes⟩
  · rcases hjoin i hi with hold | hfree
    · exact hjoins i hold hmem
    · exact hfree (hregion i hmem).1
  · rw [hpipes last hlast, hnext]
    cases htail : branch.tailed with
    | false => rfl
    | true =>
      obtain ⟨i, hi⟩ := isSome_iff_exists.1 (htailed htail)
      rw [if_pos rfl, if_pos rfl, hi, hkept i hi]
  · obtain ⟨i, hi⟩ := isSome_iff_exists.1 (htailed ht)
    rw [hkept i hi]
    rfl

theorem Joins.branch {s' : JunctionState M} {branch : Branch M} (h : Joins s s' last branch.tailed)
    (hpipe : PipeOk s.tree region hop last branch.flags branch.route)
    (hregion : Region s.tree held region) (hfork : fork ∉ region)
    (hjoin : ∀ i, s.joinPipe = some i → i ∉ region) :
    BranchOk s'.tree held fork s'.joinPipe hop branch := by
  have hfits := h.fits hregion none
  refine ⟨region, last, hregion.mono h.settled subset_rfl, hfork, fun i hi hmem => ?_, hpipe.headIn,
    hpipe.tailIn, ?_, ?_, h.tailed, hpipe.takes.of_fits (h.fits hregion _)⟩
  · rcases h.join i hi with hold | ⟨hfree, -⟩
    · exact hjoin i hold hmem
    · exact hfree (hregion i hmem).1
  · rw [(hfits hop hpipe.headIn).2.2 nofun, hpipe.headFlags]
  · rw [h.last, hpipe.next]

theorem JunctionRefined.branch {s1 : JunctionState M} {branch : Branch M} {branches : List (Branch M)}
    {heldBranch : Set PipeId} (hgrows : Grows s.tree tree) (hgrows1 : Grows before s1.tree)
    (hinv : Inv objects s1.tree plan' heldBranch)
    (htail : tail = if branch.tailed then some last else none)
    (hheld : held ∪ ends (some fork) s.joinPipe ∪ {last} ⊆ heldBranch)
    (hs1 : s1.forkMpx = some fork ∧ s1.joinPipe = s.joinPipe)
    (hsettled : ∀ i, Settled tree i → Settled s1.tree i)
    (hsame : ∀ i, Settled tree i → i ≠ fork → s1.tree.pipes i = tree.pipes i)
    (hfork : ForkOk before s1.tree held fork (hops ++ [hop])) (hforkNew : fork ∉ region)
    (hnewLast : ¬Settled s.tree last) (hnewLast' : ¬Settled before last)
    (hregion : Region tree (held ∪ ends s.forkMpx s.joinPipe) region)
    (hpipe : PipeOk tree region hop last branch.flags branch.route)
    (hjoin : ∀ i, s.joinPipe = some i → JoinOk before s.tree held i ∧ i ≠ fork)
    (hany : s.joinPipe.isSome = branches.any Branch.tailed)
    (hjoinSet : ∀ i, s.joinPipe = some i → Settled s.tree i)
    (hbranches : List.Forall₂ (BranchOk s.tree held fork s.joinPipe) hops branches) :
    JunctionRefined objects before held (joinBranch tail s1) (.fork (branches ++ [branch]), plan') := by
  have hlastFork : last ≠ fork := by
    rintro rfl
    exact hforkNew hpipe.tailIn
  have hjoinHeld : ∀ i, s1.joinPipe = some i → i ∈ heldBranch := fun i hi =>
    hheld (.inl (.inr (.inr (hs1.2 ▸ hi))))
  obtain ⟨hjoins, hgrows2, hinv2⟩ := joinBranch_joins htail hinv hgrows1 (hheld (.inr rfl)) hnewLast'
    hjoinHeld
  have hforkSet : Settled s1.tree fork := hinv.inUse fork (hheld (.inl (.inr (.inl rfl))))
  have hkept : ∀ i, Settled s.tree i → i ≠ fork → s1.tree.pipes i = s.tree.pipes i := fun i hi hne =>
    (hsame i (hgrows.settled i hi) hne).trans (hgrows.same i hi)
  have hneLast : ∀ i, Settled s.tree i → i ≠ last := by
    rintro i hi rfl
    exact hnewLast hi
  have hregion1 : Region s1.tree (held ∪ ends s.forkMpx s.joinPipe) region :=
    hregion.mono hsettled subset_rfl
  have hpipe1 : PipeOk s1.tree region hop last branch.flags branch.route := by
    refine hpipe.congr fun i hi => hsame i (hregion i hi).1 ?_
    rintro rfl
    exact hforkNew hi
  refine ⟨hgrows2, hinv2.release ?_, fork, hops ++ [hop], hjoins.fork.trans hs1.1,
    hfork.congr (hjoins.same fork hforkSet hlastFork.symm), fun i hi => ⟨?_, ?_⟩, ?_, ?_⟩
  · rw [hjoins.fork, hs1.1]
    rintro i (hi | hi | hi)
    · exact .inl (hheld (.inl (.inl hi)))
    · exact .inl (hheld (.inl (.inr (.inl hi))))
    · exact .inr (.inr hi)
  · refine hjoins.joinOk hgrows1 (fun i hi => hinv.inUse i (hheld (.inl (.inl hi)))) (fun i hi => ?_) hi
    rw [hs1.2] at hi
    exact ⟨(hjoin i hi).1.congr (hkept i (hjoinSet i hi) (hjoin i hi).2),
      hsettled i (hgrows.settled i (hjoinSet i hi)), hneLast i (hjoinSet i hi)⟩
  · rintro rfl
    rcases hjoins.join i hi with hold | ⟨hfree, -⟩
    · exact (hjoin i (hs1.2 ▸ hold)).2 rfl
    · exact hfree hforkSet
  · rw [any_append, ← hany, any_cons, any_nil, Bool.or_false]
    cases htailed : branch.tailed with
    | false => rw [hjoins.untailed htailed, hs1.2, Bool.or_false]
    | true => rw [hjoins.tailed htailed, Bool.or_true]
  · refine rel_append (hbranches.imp fun hop branch hbranch => ?_) (.cons ?_ .nil)
    · refine hbranch.congr (fun i hi => hjoins.settled i (hsettled i (hgrows.settled i hi)))
        (fun i hi hne => (hjoins.same i (hsettled i (hgrows.settled i hi)) (hneLast i hi)).trans
          (hkept i hi hne)) (fun i hi => hjoins.kept i (hs1.2.trans hi)) fun i hi => ?_
      rcases hjoins.join i hi with hold | ⟨hfree, -⟩
      · exact .inl (hs1.2 ▸ hold)
      · exact .inr fun hset => hfree (hsettled i (hgrows.settled i hset))
    · refine hjoins.branch hpipe1 (hregion1.mono (fun _ hi => hi) Set.subset_union_left) hforkNew
        fun i hi hmem => ?_
      exact (hregion1 i hmem).2 (.inr (.inr (hs1.2 ▸ hi)))

theorem JunctionRefined.pipe {head : Option PipeId} {flags' : BranchFlags} {route' : Route M → Route M}
    (h : JunctionRefined objects before held s (jp, plan)) (hfirst : isFirst = true → jp = .start)
    (hc : Refined objects s.tree (held ∪ ends s.forkMpx s.joinPipe) (head, tail, tree)
      (.pipe flags' route' tailed, plan')) :
    Agrees (fun s' jp' => JunctionRefined objects before held (joinBranch tail s') (jp', plan'))
      (forkBranch isFirst head { s with tree := tree }) (jp.add isFirst (.pipe flags' route' tailed)) := by
  obtain ⟨hgrows, hinv, region', hd, last, hhead, htail, hone, hregion', hnewHd, hnewLast, hpipe⟩ := hc
  obtain rfl : head = some hd := hhead
  have hgrowsTree := h.grows.trans hgrows
  have hnewLast' : ¬Settled before last := fun hset => hnewLast (h.grows.settled _ hset)
  have hlastEnd : last ∈ ends (some hd) tail := by
    rw [← ends_finish htail hone]
    exact .inr rfl
  unfold forkBranch
  cases jp with
  | start =>
    obtain ⟨hnone, hnoJoin⟩ := h.part
    rw [hnone]
    cases isFirst with
    | false => exact .error _
    | true =>
      obtain ⟨hinv1, hgrows1⟩ := hinv.newPipe (.multiplexer [])
      have hmem := Set.mem_insert tree.fresh
        ((held ∪ ends s.forkMpx s.joinPipe) ∪ ends (some hd) tail)
      have hkeeps := keepsUse_addNextHop objects tree.fresh hd
      obtain ⟨hinv2, hsettled2, -⟩ := hinv1.modify hmem hkeeps
      have hnew : ¬Settled before tree.fresh := fun hset =>
        not_settled_fresh tree (hgrowsTree.settled _ hset)
      have hself : ((tree.newPipe (.multiplexer [])).addNextHop tree.fresh hd).pipes tree.fresh =
          .ofKind (.multiplexer [hd]) := by
        have hkind : ((tree.newPipe (.multiplexer [])).pipes tree.fresh).kind = .multiplexer [] := by
          rw [newPipe_pipes_fresh]
          rfl
        rw [addNextHop_eq hkind, newPipe_pipes_fresh]
        rfl
      have hfork : ForkOk before ((tree.newPipe (.multiplexer [])).addNextHop tree.fresh hd) held
          tree.fresh ([] ++ [hd]) :=
        ⟨hnew, fun hi => not_settled_fresh tree (hinv.inUse _ (.inl (.inl hi))), by rw [hself]; rfl,
          by rw [hself]; rfl, by rw [hself]; rfl⟩
      refine .ok (@JunctionRefined.branch M objects tree before held region' last tree.fresh hd [] tail s
        plan' ⟨some tree.fresh, s.joinPipe, (tree.newPipe (.multiplexer [])).addNextHop tree.fresh hd⟩
        ⟨flags', route', tailed⟩ [] _ hgrows
        ((hgrowsTree.trans hgrows1).modify hinv1 hmem hkeeps hnew) hinv2 htail ?_ ⟨rfl, rfl⟩
        (fun i hi => (hsettled2 i).2 (hgrows1.settled i hi))
        (fun i _ hne => (addNextHop_pipes_of_ne hne).trans (newPipe_pipes_of_ne hne)) hfork
        (fun hi => not_settled_fresh tree (hregion' _ hi).1) hnewLast hnewLast' hregion' hpipe
        (fun i hi => ?_) ?_ (fun i hi => ?_) .nil)
      · rintro i ((hi | hi | hi) | rfl)
        · exact .inr (.inl (.inl hi))
        · exact .inl (some.inj hi).symm
        · rw [hnoJoin] at hi
          cases hi
        · exact .inr (.inr hlastEnd)
      · rw [hnoJoin] at hi
        cases hi
      · rw [hnoJoin]
        rfl
      · rw [hnoJoin] at hi
        cases hi
  | source entries =>
    obtain ⟨region, join, hnone, -⟩ := h.part
    cases isFirst with
    | true => cases hfirst rfl
    | false =>
      rw [hnone]
      exact .error _
  | fork branches =>
    obtain ⟨fork, hops, hsome, hfork, hjoin, hany, hbranches⟩ := h.part
    have hends : fork ∈ held ∪ ends s.forkMpx s.joinPipe := .inr (.inl hsome)
    have hmem : fork ∈ (held ∪ ends s.forkMpx s.joinPipe) ∪ ends (some hd) tail := .inl hends
    have hkeeps := keepsUse_addNextHop objects fork hd
    obtain ⟨hinv1, hsettled1, -⟩ := hinv.modify hmem hkeeps
    have hfork' : ForkOk before tree held fork hops :=
      hfork.congr (hgrows.same fork (h.inv.inUse fork hends))
    have hself := @addNextHop_eq M tree fork hd hops hfork'.kind
    rw [hsome]
    refine .ok (@JunctionRefined.branch M objects tree before held region' last fork hd hops tail s
      plan' ⟨some fork, s.joinPipe, tree.addNextHop fork hd⟩ ⟨flags', route', tailed⟩ branches _ hgrows
      (hgrowsTree.modify hinv hmem hkeeps hfork.new) hinv1 htail ?_ ⟨rfl, rfl⟩
      (fun i hi => (hsettled1 i).2 hi) (fun i _ hne => addNextHop_pipes_of_ne hne)
      ⟨hfork.new, hfork.out, by rw [hself], by rw [hself]; exact hfork'.next,
        by rw [hself]; exact hfork'.flags⟩
      (fun hi => (hregion' fork hi).2 hends) hnewLast hnewLast' hregion' hpipe hjoin hany
      (fun i hi => h.inv.inUse i (.inr (.inr hi))) hbranches)
    rintro i ((hi | hi | hi) | rfl)
    · exact .inl (.inl hi)
    · exact .inl (.inr (.inl (hsome.trans hi)))
    · exact .inl (.inr (.inr hi))
    · exact .inr hlastEnd

theorem JunctionRefined.child (h : JunctionRefined objects before held s (jp, plan))
    (hfirst : isFirst = true → jp = .start)
    (hc : Refined objects s.tree (held ∪ ends s.forkMpx s.joinPipe) compiled planned) :
    Agrees (fun s' jp' => JunctionRefined objects before held (joinBranch compiled.2.1 s')
        (jp', planned.2)) (forkBranch isFirst compiled.1 { s with tree := compiled.2.2 })
      (jp.add isFirst planned.1) := by
  obtain ⟨head, tail, tree⟩ := compiled
  obtain ⟨part, plan'⟩ := planned
  cases part with
  | source entries => exact h.source hc
  | pipe flags' route' tailed => exact h.pipe hfirst hc
  | nothing =>
    obtain ⟨hgrows, hinv, hhead, htail⟩ := hc
    obtain rfl : head = none := hhead
    obtain rfl : tail = none := htail
    have hrest : Inv objects tree plan' (held ∪ ends s.forkMpx s.joinPipe) :=
      hinv.release Set.subset_union_left
    unfold forkBranch
    cases jp with
    | start =>
      obtain ⟨hnone, hnoJoin⟩ := h.part
      rw [hnone] at hrest ⊢
      exact .ok ⟨h.grows.trans hgrows, hrest, rfl, hnoJoin⟩
    | source entries =>
      obtain ⟨region, join, hnone, hsome, hjoin, hregion, hin, hentries⟩ := h.part
      have hsame := hregion.same hgrows
      rw [hnone] at hrest ⊢
      exact .ok ⟨h.grows.trans hgrows, hrest, region, join, rfl, hsome,
        hjoin.congr (hsame join hin), hregion.mono hgrows.settled subset_rfl, hin,
        fun entry hmem => (hentries entry hmem).congr hsame hgrows.entry⟩
    | fork branches =>
      obtain ⟨fork, hops, hsome, -⟩ := h.part
      rw [hsome]
      exact .error _

/-! ## The end of a junction -/

theorem BranchOk.runs {pipes' : PipeId → LogPipe M} {joinPipe : Option PipeId} {branch : Branch M}
    {next : Route M} (h : BranchOk tree held fork joinPipe hop branch)
    (hpipes : ∀ region, Region tree held region → fork ∉ region →
      (∀ i, joinPipe = some i → i ∉ region) → ∀ i ∈ region, SamePipe (tree.pipes i) (pipes' i))
    (hjoin : ∀ i, joinPipe = some i → Runs pipes' i next) :
    (pipes' hop).flags = branch.flags ∧ Runs pipes' hop (branch.hop next).route := by
  obtain ⟨region, last, hregion, hfork, hjoins, hhop, hlast, hflags, hnext, htailed, htakes⟩ := h
  have hsame := hpipes region hregion hfork hjoins
  have hafter : RunsNext pipes' (pipes' last).pipeNext (if branch.tailed then next else .drop) := by
    rw [(hsame last hlast).2.1, hnext]
    cases htail : branch.tailed with
    | false => rfl
    | true =>
      obtain ⟨i, hi⟩ := isSome_iff_exists.1 (htailed htail)
      rw [if_pos rfl, if_pos rfl, hi]
      exact hjoin i hi
  have hrun := htakes pipes' (fun i hi => ⟨(hsame i hi).1, fun _ => (hsame i hi).2.1,
    fun _ => (hsame i hi).2.2⟩) _ hafter
  have hhopFlags : (pipes' hop).flags = branch.flags := by rw [(hsame hop hhop).2.2, hflags]
  rw [RunsBody, hhopFlags] at hrun
  exact ⟨hhopFlags, hrun⟩

theorem JunctionRefined.pipeOk {joinPipe : Option PipeId} {branches : List (Branch M)}
    (hfork : ForkOk before tree held fork hops)
    (hjoin : ∀ i, joinPipe = some i → JoinOk before tree held i ∧ i ≠ fork ∧ Settled tree i)
    (hany : joinPipe.isSome = branches.any Branch.tailed) (hset : Settled tree fork)
    (hbranches : List.Forall₂ (BranchOk tree held fork joinPipe) hops branches) :
    PipeOk tree {i | Settled tree i ∧ i ∉ held} fork (joinPipe.getD fork) .none
      (fun next => .multiplexer (branches.map fun branch => branch.hop next)
        (if branches.any Branch.tailed then .drop else next)) := by
  refine ⟨⟨hset, hfork.out⟩, ?_, hfork.flags, ?_, fun pipes' hfits next hnext => ?_⟩
  · cases joinPipe with
    | none => exact ⟨hset, hfork.out⟩
    | some join => exact ⟨(hjoin join rfl).2.2, (hjoin join rfl).1.out⟩
  · cases joinPipe with
    | none => exact hfork.next
    | some join => exact (hjoin join rfl).1.next
  · have hforkPipe := hfits fork ⟨hset, hfork.out⟩
    have hjoinRuns : ∀ i, joinPipe = some i → Runs pipes' i next := by
      rintro i rfl
      obtain ⟨hok, hne, hiset⟩ := hjoin i rfl
      obtain ⟨hkind, -, hflags⟩ := hfits i ⟨hiset, hok.out⟩
      have hflags' : (pipes' i).flags = .none :=
        (hflags fun heq => hne (some.inj heq)).trans hok.flags
      have hrun := runs_forward (.inl (hkind.trans hok.kind)) hnext
      rw [RunsBody, hflags'] at hrun
      exact Route.flowControl_false next ▸ hrun
    refine runs_multiplexer (hforkPipe.1.trans hfork.kind) ?_ ?_
    · rw [RunsHops, forall₂_map_right_iff]
      refine hbranches.imp fun hop branch hbranch => hbranch.runs (fun region hregion hout hnot i hi => ?_)
        hjoinRuns
      obtain ⟨hkind, hn, hflags⟩ := hfits i (hregion i hi)
      refine ⟨hkind, hn ?_, hflags ?_⟩
      · rintro rfl
        cases joinPipe with
        | none => exact hout hi
        | some join => exact hnot join rfl hi
      · intro heq
        exact hout (some.inj heq ▸ hi)
    · rw [← hany]
      cases joinPipe with
      | none => exact hnext
      | some join =>
        rw [isSome_some, if_pos rfl, hforkPipe.2.1 fun heq => (hjoin join rfl).2.1 heq.symm,
          hfork.next]
        rfl

theorem JunctionRefined.finish (h : JunctionRefined objects before held s (jp, plan)) :
    Refined objects before held (s.forkMpx, s.joinPipe, s.tree) (jp.finish, plan) := by
  refine ⟨h.grows, h.inv, ?_⟩
  have hpart := h.part
  cases jp with
  | start => exact hpart
  | source entries =>
    obtain ⟨region, join, hnone, hsome, hjoin, hregion, hin, hentries⟩ := hpart
    exact ⟨region, join, hnone, hsome, hregion, hin, hjoin.new, hjoin.next, hentries⟩
  | fork branches =>
    obtain ⟨fork, hops, hsome, hfork, hjoin, hany, hbranches⟩ := hpart
    have hset : Settled s.tree fork := h.inv.inUse fork (.inr (.inl hsome))
    have hpipe := JunctionRefined.pipeOk hfork (fun i hi => ⟨(hjoin i hi).1, (hjoin i hi).2,
      h.inv.inUse i (.inr (.inr hi))⟩) hany hset hbranches
    refine ⟨_, fork, s.joinPipe.getD fork, hsome, ?_, fun hnot => ?_, fun i hi => hi, hfork.new, ?_, hpipe⟩
    · rw [← hany]
      cases s.joinPipe with
      | none => rfl
      | some join => rfl
    · rw [← hany, isSome_eq_false_iff, isNone_iff_eq_none] at hnot
      rw [hnot]
      rfl
    · cases hj : s.joinPipe with
      | none => exact hfork.new
      | some join => exact (hjoin join hj).1.new

/-! ## The loop over the branches -/

variable {definitions : Content → String → Option LogExprNode} {fuel : Nat}

theorem refines_junctionLoop (hcompile : NodesRefined objects definitions fuel)
    (children : List LogExprNode) (h : JunctionRefined objects before held s (jp, plan))
    (hfirst : isFirst = true → jp = .start) (hcached : Cached definitions plan) :
    Agrees (JunctionRefined objects before held)
      (junctionLoop (compileNode definitions fuel) isFirst children s)
      (planJunctionLoop (planNode definitions objects fuel) isFirst children (jp, plan)) := by
  induction children generalizing isFirst s jp plan with
  | nil => exact .ok h
  | cons child children ih =>
    rw [junctionLoop, planJunctionLoop]
    refine (hcompile child s.tree plan _ h.inv hcached).bind fun compiled planned hplan hrefined => ?_
    exact (h.child hfirst hrefined).bind fun s' jp' _ hs' => ih hs' nofun
      (planNode_unfolds hcached hplan).2

theorem refines_junction (hcompile : NodesRefined objects definitions fuel)
    (h : Inv objects tree plan held) (hcached : Cached definitions plan) (children : List LogExprNode) :
    Agrees (Refined objects tree held) (compileJunction (compileNode definitions fuel) children tree)
      (planJunction (planNode definitions objects fuel) children plan) := by
  have hstart : JunctionRefined objects tree held ⟨none, none, tree⟩ (.start, plan) := by
    refine ⟨.refl tree, h.release ?_, rfl, rfl⟩
    exact Set.union_subset subset_rfl fun i hi => hi.elim nofun nofun
  exact (refines_junctionLoop hcompile children hstart (fun _ => rfl) hcached).map
    fun s jp _ hs => hs.finish

/-! ## Nodes -/

theorem refines_node (fuel : Nat) (node : LogExprNode) (tree : CfgTree M) (plan : Plan M)
    (held : Set PipeId) (h : Inv objects tree plan held) (hcached : Cached definitions plan) :
    Agrees (Refined objects tree held) (compileNode definitions fuel node tree)
      (planNode definitions objects fuel node plan) := by
  induction fuel generalizing node tree plan held with
  | zero => exact .error _
  | succ fuel ih =>
    cases node with
    | single object => exact refines_single h object
    | reference content name => exact refines_reference ih h hcached content name
    | sequence flags children => exact refines_sequence ih h hcached flags children
    | junction children => exact refines_junction ih h hcached children

end

end SyslogNg.CfgTree
