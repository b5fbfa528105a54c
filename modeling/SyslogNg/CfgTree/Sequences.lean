import SyslogNg.CfgTree.Refine

/-!
# Sequences refine the plan

A sequence is compiled child by child. What there is of it is a source, which goes on behind its join
pipe, or a chain of pipes; the ends of it are held while a child is compiled.
-/

namespace SyslogNg.CfgTree

open Option Set

variable {M : Type}

def joinFlags (flags : LogFlags) : BranchFlags := ⟨false, false, flags.flowControl⟩

/-- The entry goes through the join pipe to the end of the sequence. -/
def joined (flags : LogFlags) (rest : Route M → Route M) (entry : Entry M) : Entry M :=
  entry.andThen (throughHead (joinFlags flags) rest)

def SequenceOk (before : CfgTree M) (held : Set PipeId) (flags : LogFlags) (s : SequenceState M) :
    SequencePart M → Prop
  | .start => s.firstPipe = none ∧ s.lastPipe = none ∧ s.sourceJoinPipe = none
  | .source entries rest => ∃ region last join, s.firstPipe = none ∧ s.lastPipe = some last ∧
      s.sourceJoinPipe = some join ∧ Region s.tree held region ∧ last ∈ region ∧ join ∈ region ∧
      ¬Settled before last ∧ (s.tree.pipes last).pipeNext = none ∧
      (s.tree.pipes join).flags = joinFlags flags ∧
      Takes s.tree.pipes region none last join rest ∧
      ∀ entry ∈ entries, EntryOk s.tree region last (joined flags rest entry)
  | .pipe first route => ∃ region head last, s.firstPipe = some head ∧ s.lastPipe = some last ∧
      Region s.tree held region ∧ ¬Settled before head ∧ ¬Settled before last ∧
      PipeOk s.tree region head last first route

structure SequenceRefined (objects : Nat → ObjectKind M) (before : CfgTree M) (held : Set PipeId)
    (flags : LogFlags) (s : SequenceState M) (planned : SequencePart M × Plan M) : Prop where
  grows : Grows before s.tree
  inv : Inv objects s.tree planned.2 (held ∪ ends s.firstPipe s.lastPipe)
  part : SequenceOk before held flags s planned.1

section

variable {objects : Nat → ObjectKind M} {tree tree' before : CfgTree M} {plan : Plan M}
  {held region : Set PipeId} {first last join : PipeId} {flags : LogFlags}
  {s : SequenceState M} {sp : SequencePart M}

theorem Region.same (h : Region tree held region) (hgrows : Grows tree tree') :
    ∀ i ∈ region, tree'.pipes i = tree.pipes i := fun i hi => hgrows.same i (h i hi).1

theorem SequenceOk.grow (h : SequenceOk before held flags s sp) (hgrows : Grows s.tree tree') :
    SequenceOk before held flags { s with tree := tree' } sp := by
  cases sp with
  | start => exact h
  | source entries rest =>
    obtain ⟨region, last, join, hfirst, hlast, hjoin, hregion, hin, hjoinIn, hnew, hnext, hflags,
      htakes, hentries⟩ := h
    have hsame := hregion.same hgrows
    refine ⟨region, last, join, hfirst, hlast, hjoin, hregion.mono hgrows.settled subset_rfl, hin,
      hjoinIn, hnew, ?_, ?_, htakes.congr hsame, fun entry hmem =>
        (hentries entry hmem).congr hsame hgrows.entry⟩
    · exact (congrArg LogPipe.pipeNext (hsame last hin)).trans hnext
    · exact (congrArg LogPipe.flags (hsame join hjoinIn)).trans hflags
  | pipe flags route =>
    obtain ⟨region, head, last, hfirst, hlast, hregion, hhead, hnew, hpipe⟩ := h
    exact ⟨region, head, last, hfirst, hlast, hregion.mono hgrows.settled subset_rfl, hhead, hnew,
      hpipe.congr (hregion.same hgrows)⟩

theorem append_pipes_of_ne {next i : PipeId} (h : i ≠ last) :
    (tree.append last next).pipes i = tree.pipes i := modify_pipes_of_ne h

theorem append_pipes_self (tree : CfgTree M) (last next : PipeId) :
    (tree.append last next).pipes last = { tree.pipes last with pipeNext := some next } :=
  modify_pipes_self ..

theorem append_flags (tree : CfgTree M) (last next i : PipeId) :
    ((tree.append last next).pipes i).flags = (tree.pipes i).flags := by
  by_cases h : i = last
  · rw [h, append_pipes_self]
  · rw [append_pipes_of_ne h]

/-! ## A part is put behind what there is -/

/-- What two parts that are linked have to do with each other. -/
structure Links (region region' : Set PipeId) (head : Option PipeId) (last last' : PipeId) : Prop where
  lastIn : last ∈ region
  lastNew : last ∉ region'
  headNew : ∀ i, head = some i → i ∉ region'
  endNew : last' ∉ region

variable {flags' : BranchFlags}

theorem Takes.append {region' : Set PipeId} {head head' : Option PipeId} {last' next i : PipeId}
    {route route' : Route M → Route M}
    (h : Takes tree.pipes region head last i route)
    (h' : Takes tree.pipes region' head' last' next route') (hflags : (tree.pipes next).flags = flags')
    (hnext : next ∈ region') (hlinks : Links region region' head last last') :
    Takes (tree.append last next).pipes (region ∪ region') head last' i
      (route ∘ throughHead flags' route') :=
  h.comp h' hflags hlinks.lastIn hnext hlinks.lastNew hlinks.headNew hlinks.endNew
    (append_pipes_self ..) fun _ hi => append_pipes_of_ne hi

theorem EntryOk.append {region' : Set PipeId} {head' : Option PipeId} {last' next : PipeId}
    {entry : Entry M} {route' : Route M → Route M}
    (h : EntryOk tree region last entry) (h' : Takes tree.pipes region' head' last' next route')
    (hflags : (tree.pipes next).flags = flags') (hnext : next ∈ region')
    (hlinks : Links region region' none last last') (hinv : Inv objects tree plan held)
    (hlast : last ∈ held) :
    EntryOk (tree.append last next) (region ∪ region') last'
      (entry.andThen (throughHead flags' route')) := by
  obtain ⟨i, hi, hat, hnone, htakes⟩ := h.pipe
  refine ⟨i, .inl hi, (hinv.modify hlast (keepsUse_append objects last next)).2.2 _ _ hat, ?_,
    htakes.append h' hflags hnext hlinks⟩
  rw [append_flags, hnone]

/-! ## The children -/

variable {compiled : Compiled M} {planned : Part M × Plan M} {sp' : SequencePart M × Plan M}

theorem SequenceRefined.nothing (h : SequenceRefined objects before held flags s (sp, plan))
    {plan' : Plan M} (hc : Refined objects s.tree (held ∪ ends s.firstPipe s.lastPipe)
      (none, none, tree) (.nothing, plan')) :
    SequenceRefined objects before held flags { s with tree := tree } (sp, plan') :=
  ⟨h.grows.trans hc.grows, hc.inv.release subset_union_left, h.part.grow hc.grows⟩

theorem appendHead_finish {hd last' : PipeId} {tail first : Option PipeId} {tailed : Bool}
    (htail : tail = if tailed then some last' else none) (hone : tailed = false → last' = hd)
    (hnext : (tree.pipes last').pipeNext = none) :
    appendHead.finish hd tail s first tree = .ok ⟨first, some last', s.sourceJoinPipe, tree⟩ := by
  cases tailed with
  | true =>
    obtain rfl : tail = some last' := htail
    rfl
  | false =>
    obtain rfl : tail = none := htail
    obtain rfl := hone rfl
    rw [appendHead.finish, lastOfChain, hnext]

theorem ends_finish {hd last' : PipeId} {tail : Option PipeId} {tailed : Bool}
    (htail : tail = if tailed then some last' else none) (hone : tailed = false → last' = hd) :
    ends (some hd) (some last') = ends (some hd) tail := by
  cases tailed with
  | true =>
    obtain rfl : tail = some last' := htail
    rfl
  | false =>
    obtain rfl : tail = none := htail
    obtain rfl := hone rfl
    rw [ends_some, ends_head]

theorem SequenceRefined.pipe {head tail : Option PipeId}
    {route' : Route M → Route M} {tailed : Bool} {plan' : Plan M}
    (h : SequenceRefined objects before held flags s (sp, plan))
    (hc : Refined objects s.tree (held ∪ ends s.firstPipe s.lastPipe) (head, tail, tree)
      (.pipe flags' route' tailed, plan')) :
    Agrees (fun s' sp' => SequenceRefined objects before held flags s' (sp', plan'))
      (sequenceChild flags head tail { s with tree := tree })
      (sp.add (.pipe flags' route' tailed)) := by
  obtain ⟨hgrows, hinv, region', hd, last', hhead, htail, hone, hregion', hnewHd, hnewLast, hpipe⟩ := hc
  obtain rfl : head = some hd := hhead
  have hgrowsTree := h.grows.trans hgrows
  have hnewHd' : ¬Settled before hd := fun hset => hnewHd (h.grows.settled _ hset)
  have hnewLast' : ¬Settled before last' := fun hset => hnewLast (h.grows.settled _ hset)
  cases sp with
  | start =>
    obtain ⟨hfirst, hlast, hjoin⟩ := h.part
    rw [sequenceChild, appendHead]
    dsimp only
    rw [hfirst, hlast]
    refine (appendHead_finish htail hone hpipe.next).symm ▸ Agrees.ok ⟨hgrowsTree, ?_, region', hd,
      last', rfl, rfl, hregion'.mono (fun _ hi => hi) subset_union_left, hnewHd', hnewLast', hpipe⟩
    refine hinv.release (union_subset_union subset_union_left ?_)
    rw [isNone_none, Bool.and_self, if_pos rfl, ends_finish htail hone]
  | source entries rest =>
    obtain ⟨region, last, join, hfirst, hlast, hjoin, hregion, hin, hjoinIn, hnew, hnext, hflags,
      htakes, hentries⟩ := h.part
    have hsame := hregion.same hgrows
    have hheld : last ∈ held ∪ ends s.firstPipe s.lastPipe := .inr (.inr hlast)
    have hmem : last ∈ (held ∪ ends s.firstPipe s.lastPipe) ∪ ends (some hd) tail := .inl hheld
    have hlinks : Links region region' none last last' :=
      ⟨hin, fun hi => (hregion' last hi).2 hheld, nofun, fun hi => hnewLast (hregion last' hi).1⟩
    have hkeeps := keepsUse_append objects last hd
    have hsettled := (hinv.modify hmem hkeeps).2.1
    have hne : last' ≠ last := by
      rintro rfl
      exact hlinks.endNew hin
    have hnext' : ((tree.append last hd).pipes last').pipeNext = none := by
      rw [append_pipes_of_ne hne, hpipe.next]
    have hnone : (tree.pipes last).pipeNext = none := by rw [hsame last hin, hnext]
    rw [sequenceChild, appendHead]
    dsimp only
    rw [hfirst, hlast]
    dsimp only
    rw [hnone]
    refine (appendHead_finish htail hone hnext').symm ▸ Agrees.ok
      ⟨hgrowsTree.modify hinv hmem hkeeps hnew, ?_, region ∪ region', last', join, rfl, rfl, hjoin, ?_,
        .inr hpipe.tailIn, .inl hjoinIn, hnewLast', hnext', ?_, ?_, fun entry hentry => ?_⟩
    · refine (hinv.modify hmem hkeeps).1.release (union_subset_union subset_union_left ?_)
      rw [← ends_finish htail hone]
      exact fun i hi => hi.elim nofun .inr
    · refine (hregion.mono (fun i hi => ?_) subset_rfl).union (hregion'.mono (fun i hi => ?_)
        subset_union_left)
      · exact (hsettled i).2 (hgrows.settled i hi)
      · exact (hsettled i).2 hi
    · rw [append_flags, hsame join hjoinIn, hflags]
    · exact (htakes.congr hsame).append hpipe.takes hpipe.headFlags hpipe.headIn hlinks
    · exact ((hentries entry hentry).congr hsame hgrows.entry).append hpipe.takes hpipe.headFlags
        hpipe.headIn hlinks hinv hmem
  | pipe first route =>
    obtain ⟨region, first', last, hfirst, hlast, hregion, hnewFirst, hnew, hpipe0⟩ := h.part
    have hsame := hregion.same hgrows
    have hheld : last ∈ held ∪ ends s.firstPipe s.lastPipe := .inr (.inr hlast)
    have hheldFirst : first' ∈ held ∪ ends s.firstPipe s.lastPipe := .inr (.inl hfirst)
    have hmem : last ∈ (held ∪ ends s.firstPipe s.lastPipe) ∪ ends (some hd) tail := .inl hheld
    have hlinks : Links region region' (some first') last last' := by
      refine ⟨hpipe0.tailIn, fun hi => (hregion' last hi).2 hheld, fun i hi hin => ?_,
        fun hi => hnewLast (hregion last' hi).1⟩
      obtain rfl := some.inj hi
      exact (hregion' first' hin).2 hheldFirst
    have hkeeps := keepsUse_append objects last hd
    have hsettled := (hinv.modify hmem hkeeps).2.1
    have hne : last' ≠ last := by
      rintro rfl
      exact hlinks.endNew hpipe0.tailIn
    have hnext' : ((tree.append last hd).pipes last').pipeNext = none := by
      rw [append_pipes_of_ne hne, hpipe.next]
    have hnone : (tree.pipes last).pipeNext = none := by rw [hsame last hpipe0.tailIn, hpipe0.next]
    rw [sequenceChild, appendHead]
    dsimp only
    rw [hfirst, hlast]
    dsimp only
    rw [hnone]
    refine (appendHead_finish htail hone hnext').symm ▸ Agrees.ok
      ⟨hgrowsTree.modify hinv hmem hkeeps hnew, ?_, region ∪ region', first', last', rfl, rfl, ?_,
        hnewFirst, hnewLast', .inl hpipe0.headIn, .inr hpipe.tailIn, ?_, hnext', ?_⟩
    · refine (hinv.modify hmem hkeeps).1.release ?_
      rw [← ends_finish htail hone, hfirst, hlast]
      rintro i (hi | hi | hi)
      · exact .inl (.inl hi)
      · exact .inl (.inr (.inl hi))
      · exact .inr (.inr hi)
    · refine (hregion.mono (fun i hi => ?_) subset_rfl).union (hregion'.mono (fun i hi => ?_)
        subset_union_left)
      · exact (hsettled i).2 (hgrows.settled i hi)
      · exact (hsettled i).2 hi
    · rw [append_flags, hsame first' hpipe0.headIn, hpipe0.headFlags]
    · exact (hpipe0.takes.congr hsame).append hpipe.takes hpipe.headFlags hpipe.headIn hlinks

theorem takes_forward {head : Option PipeId} (hkind : (tree.pipes join).kind = .forward) :
    Takes tree.pipes {join} head join join id := by
  intro pipes' hfits next hnext
  exact runs_forward (.inl ((hfits join rfl).1.trans hkind)) hnext

theorem SequenceRefined.source {head tail : Option PipeId} {more : List (Entry M)} {plan' : Plan M}
    (h : SequenceRefined objects before held flags s (sp, plan))
    (hc : Refined objects s.tree (held ∪ ends s.firstPipe s.lastPipe) (head, tail, tree)
      (.source more, plan')) :
    Agrees (fun s' sp' => SequenceRefined objects before held flags s' (sp', plan'))
      (sequenceChild flags head tail { s with tree := tree }) (sp.add (.source more)) := by
  obtain ⟨hgrows, hinv, region', t, hhead, htail, hregion', hin', hnew', hnext', hentries'⟩ := hc
  obtain rfl : head = none := hhead
  obtain rfl : tail = some t := htail
  have hgrowsTree := h.grows.trans hgrows
  have hnewTail : ¬Settled before t := fun hset => hnew' (h.grows.settled _ hset)
  have htailHeld : t ∈ (held ∪ ends s.firstPipe s.lastPipe) ∪ ends none (some t) := .inr (.inr rfl)
  cases sp with
  | start =>
    obtain ⟨hfirst, hlast, hjoin⟩ := h.part
    have hkeeps1 := keepsUse_addFlags objects tree.fresh (joinFlags flags)
    have hkeeps2 := keepsUse_append objects t tree.fresh
    have hmem1 := mem_insert tree.fresh
      ((held ∪ ends s.firstPipe s.lastPipe) ∪ ends none (some t))
    obtain ⟨hinv1, hgrows1⟩ := hinv.newPipe .forward
    obtain ⟨hinv2, hsettled2, hentry2⟩ := hinv1.modify hmem1 hkeeps1
    obtain ⟨hinv3, hsettled3, -⟩ := hinv2.modify (.inr htailHeld) hkeeps2
    have hnewJoin : ¬Settled before tree.fresh := fun hset =>
      not_settled_fresh tree (hgrowsTree.settled _ hset)
    have hne : ∀ i, Settled tree i → i ≠ tree.fresh := fun i hi => hi.ne_fresh
    have hsame : ∀ i ∈ region', ((tree.newPipe .forward).addFlags tree.fresh (joinFlags flags)).pipes i =
        tree.pipes i := fun i hi =>
      (modify_pipes_of_ne (hne i (hregion' i hi).1)).trans (newPipe_pipes_of_ne (hne i (hregion' i hi).1))
    have hself : ((tree.newPipe .forward).addFlags tree.fresh (joinFlags flags)).pipes tree.fresh =
        { LogPipe.ofKind .forward with flags := joinFlags flags } := by
      rw [CfgTree.addFlags, modify_pipes_self, newPipe_pipes_fresh]
      rfl
    have hself' : (((tree.newPipe .forward).addFlags tree.fresh (joinFlags flags)).append t
        tree.fresh).pipes tree.fresh = { LogPipe.ofKind .forward with flags := joinFlags flags } :=
      (append_pipes_of_ne (Ne.symm (hne t (hregion' t hin').1))).trans hself
    have hlinks : Links region' {tree.fresh} none t tree.fresh :=
      ⟨hin', hne t (hregion' t hin').1, nofun, fun hi => hne _ (hregion' _ hi).1 rfl⟩
    rw [sequenceChild, joinSource]
    dsimp only
    rw [hfirst, hjoin]
    refine .ok ⟨(((hgrowsTree.trans hgrows1).modify hinv1 hmem1 hkeeps1 hnewJoin).modify hinv2
      (.inr htailHeld) hkeeps2 hnewTail), ?_, region' ∪ {tree.fresh}, tree.fresh, tree.fresh, rfl, rfl,
      rfl, ?_, .inr rfl, .inr rfl, hnewJoin, congrArg LogPipe.pipeNext hself',
      congrArg LogPipe.flags hself', ?_, fun entry hentry => ?_⟩
    · refine hinv3.release ?_
      rintro i (hi | hi | hi)
      · exact .inr (.inl (.inl hi))
      · cases hi
      · exact .inl (some.inj hi).symm
    · rintro i (hi | rfl)
      · exact ⟨(hsettled3 i).2 ((hsettled2 i).2 (hgrows1.settled i (hregion' i hi).1)),
          fun hmem => (hregion' i hi).2 (.inl hmem)⟩
      · exact ⟨hinv3.inUse _ hmem1, fun hmem => not_settled_fresh tree (hinv.inUse _ (.inl (.inl hmem)))⟩
    · exact (takes_forward (congrArg LogPipe.kind hself')).mono subset_union_right
    · have hentry' : EntryOk ((tree.newPipe .forward).addFlags tree.fresh (joinFlags flags)) region' t
          entry := (hentries' entry hentry).congr hsame fun origin i hat =>
        hentry2 origin i (hgrows1.entry origin i hat)
      have hforward := @takes_forward M _ _ none (congrArg LogPipe.kind hself)
      exact hentry'.append hforward (congrArg LogPipe.flags hself) rfl hlinks hinv2 (.inr htailHeld)
  | source entries rest =>
    obtain ⟨region, last, join, hfirst, hlast, hjoin, hregion, hin, hjoinIn, hnew, hnext, hflags,
      htakes, hentries⟩ := h.part
    have hsame := hregion.same hgrows
    have hheld : last ∈ held ∪ ends s.firstPipe s.lastPipe := .inr (.inr hlast)
    have hlinks : Links region' region none t last :=
      ⟨hin', fun hi => hnew' (hregion t hi).1, nofun, fun hi => (hregion' last hi).2 hheld⟩
    have hkeeps := keepsUse_append objects t join
    obtain ⟨hinv', hsettled, hentry'⟩ := hinv.modify htailHeld hkeeps
    have hkept : ∀ i ∈ region, (tree.append t join).pipes i = s.tree.pipes i := by
      intro i hi
      refine (append_pipes_of_ne ?_).trans (hsame i hi)
      rintro rfl
      exact hlinks.lastNew hi
    rw [sequenceChild, joinSource]
    dsimp only
    rw [hfirst, hjoin]
    refine .ok ⟨hgrowsTree.modify hinv htailHeld hkeeps hnewTail, ?_, region' ∪ region, last, join, rfl,
      hlast, rfl, ?_, .inr hin, .inr hjoinIn, hnew, (congrArg LogPipe.pipeNext (hkept last hin)).trans
        hnext, (congrArg LogPipe.flags (hkept join hjoinIn)).trans hflags,
      (htakes.congr hkept).mono subset_union_right, fun entry hentry => ?_⟩
    · refine hinv'.release ?_
      rw [← hfirst]
      exact subset_union_left
    · refine (hregion'.mono (fun i hi => ?_) subset_union_left).union
        (hregion.mono (fun i hi => ?_) subset_rfl)
      · exact (hsettled i).2 hi
      · exact (hsettled i).2 (hgrows.settled i hi)
    · rcases List.mem_append.1 hentry with hentry | hentry
      · exact ((hentries entry hentry).congr hkept fun origin i hat =>
          hentry' origin i (hgrows.entry origin i hat)).mono subset_union_right
      · exact (hentries' entry hentry).append (htakes.congr hsame)
          ((congrArg LogPipe.flags (hsame join hjoinIn)).trans hflags) hjoinIn hlinks hinv htailHeld
  | pipe first route =>
    obtain ⟨region, first', last, hfirst, -⟩ := h.part
    rw [sequenceChild, joinSource]
    dsimp only
    rw [hfirst]
    exact .error _

theorem SequenceRefined.child (h : SequenceRefined objects before held flags s (sp, plan))
    (hc : Refined objects s.tree (held ∪ ends s.firstPipe s.lastPipe) compiled planned) :
    Agrees (fun s' sp' => SequenceRefined objects before held flags s' (sp', planned.2))
      (sequenceChild flags compiled.1 compiled.2.1 { s with tree := compiled.2.2 })
      (sp.add planned.1) := by
  obtain ⟨head, tail, tree⟩ := compiled
  obtain ⟨part, plan'⟩ := planned
  cases part with
  | nothing =>
    obtain ⟨rfl, rfl⟩ := hc.part
    cases sp with
    | start => exact .ok (h.nothing hc)
    | source entries rest => exact .ok (h.nothing hc)
    | pipe first route => exact .ok (h.nothing hc)
  | source entries => exact h.source hc
  | pipe flags' route' tailed => exact h.pipe hc

/-! ## The end of a sequence -/

theorem PipeOk.addFlags {route : Route M → Route M}
    (h : PipeOk tree region first last flags' route) (more : BranchFlags) :
    PipeOk (tree.addFlags first more) region first last (flags'.join more) route := by
  have hself : (tree.addFlags first more).pipes first = { tree.pipes first with
      flags := (tree.pipes first).flags.join more } := modify_pipes_self ..
  have hpipe : ∀ i, ((tree.addFlags first more).pipes i).kind = (tree.pipes i).kind ∧
      ((tree.addFlags first more).pipes i).pipeNext = (tree.pipes i).pipeNext ∧
      (some i ≠ some first → ((tree.addFlags first more).pipes i).flags = (tree.pipes i).flags) := by
    intro i
    by_cases hi : i = first
    · rw [hi, hself]
      exact ⟨rfl, rfl, fun hne => absurd rfl hne⟩
    · have hother : (tree.addFlags first more).pipes i = tree.pipes i := modify_pipes_of_ne hi
      rw [hother]
      exact ⟨rfl, rfl, fun _ => rfl⟩
  refine ⟨h.headIn, h.tailIn, ?_, (hpipe last).2.1.trans h.next, fun pipes' hfits =>
    h.takes pipes' fun i hi => ?_⟩
  · rw [hself, ← h.headFlags]
  · obtain ⟨hk, hn, hf⟩ := hfits i hi
    obtain ⟨hk', hn', hf'⟩ := hpipe i
    exact ⟨hk.trans hk', fun hne => (hn hne).trans hn', fun hne => (hf hne).trans (hf' hne)⟩

theorem SequenceRefined.finish (h : SequenceRefined objects before held flags s (sp, plan)) :
    Agrees (Refined objects before held) (sequenceEnd flags s)
      ((sp.finish flags).map fun part => (part, plan)) := by
  obtain ⟨hgrows, hinv, hpart⟩ := h
  dsimp only at hinv hpart
  rw [sequenceEnd]
  cases sp with
  | start =>
    obtain ⟨hfirst, hlast, hjoin⟩ := hpart
    rw [SequencePart.finish, hfirst, hlast, hjoin]
    cases flags.flowControl with
    | true => exact .error _
    | false =>
      have hinv : Inv objects s.tree plan held := hinv.release subset_union_left
      obtain ⟨hinv', hgrows'⟩ := hinv.newPipe .forward
      have hnew : ¬Settled before s.tree.fresh := fun hs => not_settled_fresh s.tree (hgrows.settled _ hs)
      have hself : (s.tree.newPipe .forward).pipes s.tree.fresh = .ofKind .forward :=
        newPipe_pipes_fresh ..
      refine .ok ⟨hgrows.trans hgrows', ?_, {s.tree.fresh}, s.tree.fresh, s.tree.fresh, rfl, rfl,
        fun _ => rfl, hinv'.region_one fun hmem => not_settled_fresh s.tree (hinv.inUse _ hmem), hnew,
        hnew, .one (congrArg LogPipe.flags hself) (congrArg LogPipe.pipeNext hself)
          fun pipes' next hk hnext => runs_forward (.inl (hk.trans (congrArg LogPipe.kind hself))) hnext⟩
      rw [ends_some, union_singleton]
      exact hinv'
  | source entries rest =>
    obtain ⟨region, last, join, hfirst, hlast, hjoin, hregion, hin, -, hnew, hnext, -, -, hentries⟩ := hpart
    rw [hfirst, hlast, hjoin, isNone_some, Bool.and_false, if_neg Bool.false_ne_true,
      isNone_some, Bool.and_false, if_neg Bool.false_ne_true]
    rw [hfirst, hlast] at hinv
    refine .ok ⟨hgrows, hinv, region, last, rfl, rfl, hregion, hin, hnew, hnext, fun entry hentry => ?_⟩
    obtain ⟨entry', hmem, rfl⟩ := List.mem_map.1 hentry
    exact hentries entry' hmem
  | pipe first route =>
    obtain ⟨region, head, last, hfirst, hlast, hregion, hnewHead, hnew, hpipe⟩ := hpart
    have hmem : head ∈ held ∪ ends s.firstPipe s.lastPipe := .inr (.inl hfirst)
    have hkeeps := keepsUse_addFlags objects head flags.branch
    have hinv' := hinv.modify hmem hkeeps
    rw [hfirst, hlast, isNone_some, Bool.and_false, Bool.false_and, if_neg Bool.false_ne_true,
      Bool.false_and, if_neg Bool.false_ne_true]
    refine .ok ⟨hgrows.modify hinv hmem hkeeps hnewHead, ?_, region, head, last, rfl, rfl, nofun,
      hregion.mono (fun i hi => (hinv'.2.1 i).2 hi) subset_rfl, hnewHead, hnew,
      hpipe.addFlags flags.branch⟩
    have hthis := hinv'.1
    rw [hfirst, hlast] at hthis
    exact hthis

/-! ## The loop over the children -/

variable {definitions : Content → String → Option LogExprNode} {fuel : Nat}

theorem refines_sequenceLoop (hcompile : NodesRefined objects definitions fuel)
    (children : List LogExprNode) (h : SequenceRefined objects before held flags s (sp, plan))
    (hcached : Cached definitions plan) :
    Agrees (SequenceRefined objects before held flags)
      (sequenceLoop (compileNode definitions fuel) flags children s)
      (planSequenceLoop (planNode definitions objects fuel) children (sp, plan)) := by
  induction children generalizing s sp plan with
  | nil => exact .ok h
  | cons child children ih =>
    rw [sequenceLoop, planSequenceLoop]
    refine (hcompile child s.tree plan _ h.inv hcached).bind fun compiled planned hplan hrefined => ?_
    exact (h.child hrefined).bind fun s' sp' _ hs' => ih hs' (planNode_unfolds hcached hplan).2

theorem refines_sequence (hcompile : NodesRefined objects definitions fuel)
    (h : Inv objects tree plan held) (hcached : Cached definitions plan) (flags : LogFlags)
    (children : List LogExprNode) :
    Agrees (Refined objects tree held)
      (compileSequence (compileNode definitions fuel) flags children tree)
      (planSequence (planNode definitions objects fuel) flags children plan) := by
  rw [compileSequence, planSequence]
  split
  · exact .error _
  · have hstart : SequenceRefined objects tree held flags ⟨none, none, none, tree⟩ (.start, plan) := by
      refine ⟨.refl tree, h.release ?_, rfl, rfl, rfl⟩
      exact union_subset subset_rfl fun i hi => by rcases hi with ⟨⟨⟩⟩ | ⟨⟨⟩⟩
    exact (refines_sequenceLoop hcompile children hstart hcached).bind fun s sp _ hs => hs.finish

end

end SyslogNg.CfgTree
