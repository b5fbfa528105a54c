import SyslogNg.CfgTree.Frames
import SyslogNg.CfgTree.Unfold

/-!
# The compilation refines the plan

`compileNode` fails where `planNode` fails, and else the pipes that it makes do what the part of the plan
says. The loops of sequences and junctions keep what they have made so far.
-/

namespace SyslogNg.CfgTree

open Function Option
open Function (update_of_ne update_self)

variable {M : Type}

/-! ## Results that agree -/

inductive Agrees {α β : Type} (R : α → β → Prop) : Except CompileError α → Except CompileError β → Prop where
  | ok {a : α} {b : β} : R a b → Agrees R (.ok a) (.ok b)
  | error (e : CompileError) : Agrees R (.error e) (.error e)

theorem Agrees.bind {α β α' β' : Type} {R : α → β → Prop} {S : α' → β' → Prop} {x : Except CompileError α}
    {y : Except CompileError β} {f : α → Except CompileError α'} {g : β → Except CompileError β'}
    (h : Agrees R x y) (hfg : ∀ a b, y = .ok b → R a b → Agrees S (f a) (g b)) :
    Agrees S (x.bind f) (y.bind g) := by
  cases h with
  | ok hr => exact hfg _ _ rfl hr
  | error e => exact .error e

theorem Agrees.map {α β α' β' : Type} {R : α → β → Prop} {S : α' → β' → Prop} {x : Except CompileError α}
    {y : Except CompileError β} {f : α → α'} {g : β → β'} (h : Agrees R x y)
    (hfg : ∀ a b, y = .ok b → R a b → S (f a) (g b)) : Agrees S (x.map f) (y.map g) := by
  cases h with
  | ok hr => exact .ok (hfg _ _ rfl hr)
  | error e => exact .error e

theorem Agrees.imp {α β : Type} {R S : α → β → Prop} {x : Except CompileError α}
    {y : Except CompileError β} (h : Agrees R x y) (hrs : ∀ a b, R a b → S a b) : Agrees S x y := by
  cases h with
  | ok hr => exact .ok (hrs _ _ hr)
  | error e => exact .error e

/-! ## Parts -/

/-- The pipes of a region are in use, and those around it are not among them. -/
def Region (tree : CfgTree M) (held region : Set PipeId) : Prop :=
  ∀ s ∈ region, Settled tree s ∧ s ∉ held

/-- The ends of what is compiled. -/
def ends (head tail : Option PipeId) : Set PipeId := fun s => head = some s ∨ tail = some s

def PartOk (before tree : CfgTree M) (held : Set PipeId) (head tail : Option PipeId) : Part M → Prop
  | .nothing => head = none ∧ tail = none
  | .source entries => ∃ region last, head = none ∧ tail = some last ∧ Region tree held region ∧
      last ∈ region ∧ ¬Settled before last ∧ (tree.pipes last).pipeNext = none ∧
      ∀ entry ∈ entries, EntryOk tree region last entry
  | .pipe flags route tailed => ∃ region first last, head = some first ∧
      tail = (if tailed then some last else none) ∧ (tailed = false → last = first) ∧
      Region tree held region ∧ ¬Settled before first ∧ ¬Settled before last ∧
      PipeOk tree region first last flags route

/-- What is compiled, and its part of the plan. -/
structure Refined (objects : Nat → ObjectKind M) (before : CfgTree M) (held : Set PipeId)
    (compiled : Compiled M) (planned : Part M × Plan M) : Prop where
  grows : Grows before compiled.2.2
  inv : Inv objects compiled.2.2 planned.2 (held ∪ ends compiled.1 compiled.2.1)
  part : PartOk before compiled.2.2 held compiled.1 compiled.2.1 planned.1

section

variable {objects : Nat → ObjectKind M} {tree tree' before : CfgTree M} {plan : Plan M}
  {held held' region region' : Set PipeId} {first last s : PipeId} {flags : BranchFlags}
  {route route' : Route M → Route M} {entry : Entry M} {hops : List PipeId}

theorem Region.mono (h : Region tree held region) (hsettled : ∀ s, Settled tree s → Settled tree' s)
    (hsub : held' ⊆ held) : Region tree' held' region :=
  fun s hs => ⟨hsettled s (h s hs).1, fun hmem => (h s hs).2 (hsub hmem)⟩

theorem Region.union (h : Region tree held region) (h' : Region tree held region') :
    Region tree held (region ∪ region') := fun s hs => hs.elim (h s) (h' s)

theorem Fits.mono {pipes pipes' : PipeId → LogPipe M} {head : Option PipeId}
    (h : Fits pipes pipes' region' head last) (hsub : region ⊆ region') :
    Fits pipes pipes' region head last := fun s hs => h s (hsub hs)

theorem Takes.mono {pipes : PipeId → LogPipe M} {head : Option PipeId}
    (h : Takes pipes region head last s route) (hsub : region ⊆ region') :
    Takes pipes region' head last s route := fun pipes' hfits => h pipes' (hfits.mono hsub)

theorem EntryOk.mono (h : EntryOk tree region last entry) (hsub : region ⊆ region') :
    EntryOk tree region' last entry := by
  obtain ⟨s, hs, hat, hflags, htakes⟩ := h.pipe
  exact ⟨s, hsub hs, hat, hflags, htakes.mono hsub⟩

theorem Takes.comp {pipes pipes' : PipeId → LogPipe M} {head head' : Option PipeId} {next last' : PipeId}
    (h : Takes pipes region head last s route) (h' : Takes pipes region' head' last' next route')
    (hflags : (pipes next).flags = flags) (hlast : last ∈ region) (hnext : next ∈ region')
    (hlast' : last ∉ region') (hhead : ∀ i, head = some i → i ∉ region') (hend : last' ∉ region)
    (happend : pipes' last = { pipes last with pipeNext := some next })
    (hother : ∀ i, i ≠ last → pipes' i = pipes i) :
    Takes pipes' (region ∪ region') head last' s (route ∘ throughHead flags route') := by
  intro pipes'' hfits after hafter
  have hsecond : ∀ i ∈ region', pipes' i = pipes i ∧ some i ≠ head := by
    intro i hi
    refine ⟨hother i ?_, fun heq => hhead i heq.symm hi⟩
    rintro rfl
    exact hlast' hi
  have hrun' : RunsBody pipes'' next (route' after) := by
    refine h' pipes'' (fun i hi => ?_) after hafter
    obtain ⟨hk, hn, hf⟩ := hfits i (.inr hi)
    rw [(hsecond i hi).1] at hk hn hf
    exact ⟨hk, hn, fun _ => hf (hsecond i hi).2⟩
  refine h pipes'' (fun i hi => ?_) _ ?_
  · obtain ⟨hk, hn, hf⟩ := hfits i (.inl hi)
    have hne : i ≠ last' := by
      rintro rfl
      exact hend hi
    by_cases heq : i = last
    · subst heq
      rw [happend] at hk hf
      exact ⟨hk, fun hne => absurd rfl hne, hf⟩
    · rw [hother i heq] at hk hn hf
      exact ⟨hk, fun _ => hn hne, hf⟩
  · have hne : last ≠ last' := by
      rintro rfl
      exact hend hlast
    have hnextIs : (pipes'' last).pipeNext = some next := by
      rw [(hfits last (.inl hlast)).2.1 hne, happend]
    rw [hnextIs]
    show Runs pipes'' next (.flowControl flags.hardFlowControl (route' after))
    have hnextFlags : (pipes'' next).flags = flags := by
      rw [(hfits next (.inr hnext)).2.2 (hsecond next hnext).2, (hsecond next hnext).1, hflags]
    rw [RunsBody, hnextFlags] at hrun'
    exact hrun'

theorem PipeOk.one (hflags : (tree.pipes s).flags = .none) (hnext : (tree.pipes s).pipeNext = none)
    (hruns : ∀ pipes' next, (pipes' s).kind = (tree.pipes s).kind →
      RunsNext pipes' (pipes' s).pipeNext next → RunsBody pipes' s (route next)) :
    PipeOk tree {s} s s .none route where
  headIn := rfl
  tailIn := rfl
  headFlags := hflags
  next := hnext
  takes pipes' hfits next := hruns pipes' next (hfits s rfl).1

theorem EntryOk.one (hat : EntryAt tree entry.origin s) (hroute : entry.route = id)
    (hflags : (tree.pipes s).flags = .none)
    (hkind : (tree.pipes s).kind = .forward ∨ (tree.pipes s).kind = .object .source) :
    EntryOk tree {s} s entry := by
  refine ⟨s, rfl, hat, hflags, fun pipes' hfits next hnext => ?_⟩
  rw [hroute]
  exact runs_forward (by rwa [(hfits s rfl).1]) hnext

/-! ## Changes -/

theorem keepsUse_append (objects : Nat → ObjectKind M) (s next : PipeId) :
    KeepsUse objects s fun pipe => { pipe with pipeNext := some next } :=
  fun _ _ _ _ => ⟨rfl, rfl⟩

theorem keepsUse_addFlags (objects : Nat → ObjectKind M) (s : PipeId) (flags : BranchFlags) :
    KeepsUse objects s fun pipe => { pipe with
      flags := ⟨pipe.flags.fallback || flags.fallback, pipe.flags.final || flags.final,
        pipe.flags.hardFlowControl || flags.hardFlowControl⟩ } :=
  fun _ _ _ _ => ⟨rfl, rfl⟩

theorem keepsUse_addNextHop (objects : Nat → ObjectKind M) (s hop : PipeId) :
    KeepsUse objects s fun pipe => match pipe.kind with
      | .multiplexer hops => { pipe with kind := .multiplexer (hops ++ [hop]) }
      | _ => pipe := by
  intro n pipe _ hkind
  dsimp only
  rw [hkind]
  exact ⟨rfl, hkind⟩

theorem ends_some (s : PipeId) : ends (some s) (some s) = {s} := by
  ext i
  constructor
  · rintro (h | h)
    · exact (some.inj h).symm
    · exact (some.inj h).symm
  · rintro rfl
    exact .inl rfl

theorem ends_tail (s : PipeId) : ends none (some s) = {s} := by
  ext i
  constructor
  · rintro (h | h)
    · cases h
    · exact (some.inj h).symm
  · rintro rfl
    exact .inr rfl

theorem ends_head (s : PipeId) : ends (some s) none = {s} := by
  ext i
  constructor
  · rintro (h | h)
    · exact (some.inj h).symm
    · cases h
  · rintro rfl
    exact .inl rfl

theorem union_singleton (held : Set PipeId) (s : PipeId) : held ∪ {s} = insert s held :=
  Set.union_singleton

theorem Inv.region_one (h : Inv objects tree plan (insert s held)) (hnew : s ∉ held) :
    Region tree held {s} := by
  rintro i rfl
  exact ⟨h.inUse i (Set.mem_insert i held), hnew⟩

/-! ## Singles -/

theorem refined_object {n : Nat} (h : Inv objects tree plan held) (hn : plan.used n = false)
    (hother : ∀ s, s ≠ .object n → tree'.pipes s = tree.pipes s)
    (hself : tree'.pipes (.object n) = { tree.pipes (.object n) with inlined := true })
    (haux : tree'.aux = tree.aux) (hmade : tree'.made = tree.made) :
    Refined objects tree held
      (if (tree.pipes (.object n)).isSource then none else some (.object n), some (.object n), tree')
      (objectPart n (objects n), { plan with used := update plan.used n true }) := by
  obtain ⟨hinv, hgrows⟩ := h.useObject hn hother hself haux hmade
  have hfree : ¬Settled tree (.object n) := by
    intro hs
    have hin : (tree.pipes (.object n)).inlined = true := hs
    rw [h.used, hn] at hin
    cases hin
  have hnew : PipeId.object n ∉ held := fun hmem => hfree (h.inUse _ hmem)
  have hpipe : tree'.pipes (.object n) = { LogPipe.ofKind (.object (objects n)) with inlined := true } := by
    rw [hself, h.unused n hn]
  have hflags : (tree'.pipes (.object n)).flags = .none := by rw [hpipe]; rfl
  have hnext : (tree'.pipes (.object n)).pipeNext = none := by rw [hpipe]; rfl
  have hkind : (tree'.pipes (.object n)).kind = .object (objects n) := by rw [hpipe]; rfl
  rw [congrArg LogPipe.isSource (h.unused n hn)]
  cases hobject : objects n with
  | source =>
    refine ⟨hgrows, ?_, {.object n}, .object n, rfl, rfl, hinv.region_one hnew, rfl, hfree, hnext, ?_⟩
    · rw [if_pos, ends_tail, union_singleton]
      · exact hinv
      · rfl
    · intro entry hmem
      obtain rfl := List.mem_singleton.1 hmem
      exact .one rfl rfl hflags (.inr (hobject ▸ hkind))
  | destination id keepsNext =>
    refine ⟨hgrows, ?_, {.object n}, .object n, .object n, rfl, rfl, fun _ => rfl,
      hinv.region_one hnew, hfree, hfree, .one hflags hnext fun pipes' next hk hnext => ?_⟩
    · rw [if_neg, ends_some, union_singleton]
      · exact hinv
      · exact Bool.false_ne_true
    · exact runs_destination (hk.trans (hobject ▸ hkind)) hnext
  | process f clone =>
    refine ⟨hgrows, ?_, {.object n}, .object n, .object n, rfl, rfl, fun _ => rfl,
      hinv.region_one hnew, hfree, hfree, .one hflags hnext fun pipes' next hk hnext => ?_⟩
    · rw [if_neg, ends_some, union_singleton]
      · exact hinv
      · exact Bool.false_ne_true
    · exact runs_process (hk.trans (hobject ▸ hkind)) hnext

theorem refined_clone (h : Inv objects tree plan held) (clone : M → Option M) :
    Refined objects tree held (some tree.fresh, some tree.fresh,
        (tree.newPipe (.object (.process clone (some clone)))).modify tree.fresh fun pipe =>
          { pipe with inlined := true }) (.pipe .none (.process clone) true, plan) := by
  obtain ⟨hinv, hgrows⟩ := h.newPipe (.object (.process clone (some clone)))
  have hkeeps : KeepsUse objects tree.fresh fun pipe => { pipe with inlined := true } :=
    fun n pipe hs => nomatch hs
  have hmem : tree.fresh ∈ insert tree.fresh held := Set.mem_insert ..
  have hpipe : ((tree.newPipe (.object (.process clone (some clone)))).modify tree.fresh fun pipe =>
      { pipe with inlined := true }).pipes tree.fresh =
      { LogPipe.ofKind (.object (.process clone (some clone))) with inlined := true } := by
    rw [modify_pipes_self, newPipe_pipes_fresh]
  have hinv' := (hinv.modify hmem hkeeps).1
  refine ⟨hgrows.modify hinv hmem hkeeps (not_settled_fresh tree), ?_, {tree.fresh}, tree.fresh,
    tree.fresh, rfl, rfl, fun _ => rfl,
    hinv'.region_one fun hmem => not_settled_fresh tree (h.inUse _ hmem), not_settled_fresh tree,
    not_settled_fresh tree, .one ?_ ?_ fun pipes' next hk hnext => ?_⟩
  · rw [ends_some, union_singleton]
    exact hinv'
  · rw [hpipe]; rfl
  · rw [hpipe]; rfl
  · exact runs_process (by rw [hk, hpipe]; rfl) hnext

theorem refines_single (h : Inv objects tree plan held) (object : Nat) :
    Agrees (Refined objects tree held) (compileSingle object tree) (planSingle objects object plan) := by
  rw [compileSingle, planSingle]
  dsimp only
  rw [h.used]
  cases hused : plan.used object with
  | false =>
    exact .ok (refined_object h hused (fun s hs => update_of_ne hs ..) (update_self ..) rfl rfl)
  | true =>
    rw [h.kind]
    cases objects object with
    | source => exact .error _
    | destination id keepsNext => exact .error _
    | process f clone =>
      cases clone with
      | none => exact .error _
      | some clone => exact .ok (refined_clone h clone)

/-! ## References to sources -/

theorem setAux_aux_self (tree : CfgTree M) (content : Content) (name : String) (aux : Option PipeId) :
    (tree.setAux content name aux).aux content = update (tree.aux content) name aux :=
  update_self ..

theorem setAux_aux_of_ne {content content' : Content} (h : content' ≠ content) (name : String)
    (aux : Option PipeId) : (tree.setAux content name aux).aux content' = tree.aux content' :=
  update_of_ne h ..

variable {name : String}

theorem Attached.newPipe {mpx : PipeId} (ha : Attached tree name mpx hops)
    (h : Inv objects tree plan held) (kind : PipeKind M) : Attached (tree.newPipe kind) name mpx hops := by
  obtain ⟨tail, ht, hm⟩ := ha.tail
  have htail : (tree.newPipe kind).pipes tail = tree.pipes tail :=
    newPipe_pipes_of_ne (h.sourceTail name tail ht).1.ne_fresh
  have hmpx : (tree.newPipe kind).pipes mpx = tree.pipes mpx := by
    refine newPipe_pipes_of_ne ?_
    rintro rfl
    exact h.not_sourceMpx_fresh ⟨name, tail, ht, hm⟩
  exact ⟨⟨tail, ht, by rw [htail, hm]⟩, by rw [hmpx, ha.kind], by rw [hmpx, ha.next],
    by rw [hmpx, ha.flags]⟩

theorem refined_attach {tail mpx : PipeId} (h : Inv objects tree plan held)
    (ha : Attached tree name mpx hops) (ht : tree.aux .source name = some tail) :
    Refined objects tree held (attachSource (some tail) tree) (plan.attach name hops.length) := by
  obtain ⟨tail', ht', hm⟩ := ha.tail
  obtain rfl := some.inj (ht.symm.trans ht')
  obtain ⟨hinv, hgrows⟩ := h.newPipe .forward
  have ha' := ha.newPipe h .forward
  have hnext : ((tree.newPipe .forward).pipes tail).pipeNext = some mpx := by
    rw [newPipe_pipes_of_ne (h.sourceTail name tail ht).1.ne_fresh, hm]
  obtain ⟨hinv', hgrows', hentry⟩ := hinv.addHop ha' tree.fresh
  have hne : tree.fresh ≠ mpx := by
    rintro rfl
    exact h.not_sourceMpx_fresh ⟨name, tail, ht, hm⟩
  have hpipe : ((tree.newPipe .forward).addNextHop mpx tree.fresh).pipes tree.fresh =
      .ofKind .forward := (modify_pipes_of_ne hne).trans (newPipe_pipes_fresh ..)
  rw [attachSource]
  dsimp only
  rw [hnext]
  refine ⟨hgrows.trans hgrows', ?_, {tree.fresh}, tree.fresh, rfl, rfl,
    hinv'.region_one fun hmem => not_settled_fresh tree (h.inUse _ hmem), rfl,
    not_settled_fresh tree, by rw [hpipe]; rfl, fun entry hmem => ?_⟩
  · rw [ends_tail, union_singleton]
    exact hinv'
  · obtain rfl := List.mem_singleton.1 hmem
    exact .one hentry rfl (by rw [hpipe]; rfl) (.inl (by rw [hpipe]; rfl))

theorem refined_attach_none (h : Inv objects tree plan held) (hgrows : Grows before tree) :
    Refined objects before held (attachSource none tree) (.source [], plan) := by
  obtain ⟨hinv, hgrows'⟩ := h.newPipe .forward
  refine ⟨hgrows.trans hgrows', ?_, {tree.fresh}, tree.fresh, rfl, rfl,
    hinv.region_one fun hmem => not_settled_fresh tree (h.inUse _ hmem), rfl,
    fun hset => not_settled_fresh tree (hgrows.settled _ hset),
    by rw [attachSource, newPipe_pipes_fresh]; rfl, nofun⟩
  rw [attachSource, ends_tail, union_singleton]
  exact hinv

theorem refined_addSource {head : Option PipeId} {tail : PipeId}
    {entries : List (Entry M)} (h : Inv objects tree plan (held ∪ ends head (some tail)))
    (hgrows : Grows before tree) (hname : plan.sources name = none) (hregion : Region tree held region)
    (hin : tail ∈ region) (hnew : ¬Settled before tail) (hnext : (tree.pipes tail).pipeNext = none)
    (hentries : ∀ entry ∈ entries, EntryOk tree region tail entry) :
    Refined objects before held (attachSource (some tail) (tree.setAux .source name (some tail)))
      ({ plan with groups := plan.groups ++ [(some name, entries)] }.attach name 0) := by
  obtain ⟨hinv1, hgrows1⟩ := h.newPipe .forward
  obtain ⟨hinv2, hgrows2⟩ := hinv1.newPipe (.multiplexer [])
  have hset1 : ∀ s, Settled tree s → s ≠ tree.fresh ∧ s ≠ (tree.newPipe .forward).fresh := fun s hs =>
    ⟨hs.ne_fresh, (hgrows1.settled s hs).ne_fresh⟩
  have htail := hset1 tail (hregion tail hin).1
  have hsame : ∀ s ∈ region, ((tree.newPipe .forward).newPipe (.multiplexer [])).pipes s =
      tree.pipes s := by
    intro s hs
    rw [newPipe_pipes_of_ne (hset1 s (hregion s hs).1).2, newPipe_pipes_of_ne (hset1 s (hregion s hs).1).1]
  have hfresh : (tree.newPipe .forward).fresh ≠ tree.fresh := by
    intro heq
    exact absurd (PipeId.made.inj heq) (Nat.succ_ne_self tree.made)
  have hheld : ∀ s ∈ held, Settled tree s := fun s hs => h.inUse s (.inl hs)
  have hadds : AddsSource ((tree.newPipe .forward).newPipe (.multiplexer []))
      ((((tree.setAux .source name (some tail)).newPipe .forward).newPipe (.multiplexer [])).append tail
        (tree.newPipe .forward).fresh |>.addNextHop (tree.newPipe .forward).fresh tree.fresh)
      name tail (.made (tree.made + 1)) tree.fresh := by
    have hmpx : ((((tree.setAux .source name (some tail)).newPipe .forward).newPipe
        (.multiplexer [])).append tail (tree.newPipe .forward).fresh).pipes
          (tree.newPipe .forward).fresh = .ofKind (.multiplexer []) :=
      (modify_pipes_of_ne (Ne.symm htail.2)).trans (newPipe_pipes_fresh ..)
    exact {
      aux := setAux_aux_self tree .source name (some tail)
      destination := @setAux_aux_of_ne M tree .source .destination nofun name (some tail)
      made := rfl
      appended := (modify_pipes_of_ne htail.2).trans (modify_pipes_self ..)
      hops := by
        refine (addNextHop_eq (congrArg LogPipe.kind hmpx)).trans ?_
        rw [hmpx]
        rfl
      other := fun s hs hs' => (modify_pipes_of_ne hs').trans (modify_pipes_of_ne hs) }
  have hmem : tail ∈ insert (tree.newPipe .forward).fresh
      (insert tree.fresh (held ∪ ends head (some tail))) := .inr (.inr (.inr (.inr rfl)))
  obtain ⟨hinv, hgrows', hentry⟩ := @Inv.addSource M objects _ _ plan _ (insert tree.fresh held) region
    tail before name (tree.made + 1) tree.fresh entries hinv2 ((hgrows.trans hgrows1).trans hgrows2)
    hadds hname hmem (Set.mem_insert _ _) htail.2 hnew
    (fun hs => not_settled_fresh _ ((hgrows.trans hgrows1).settled _ hs))
    (fun s hs => hs.elim (fun heq => .inr (.inl heq)) fun hs => .inr (.inr (.inl hs)))
    (fun hs => hs.elim htail.1 (hregion tail hin).2)
    (fun hs => hs.elim hfresh fun hs => (hset1 _ (hheld _ hs)).2 rfl)
    (fun s hs => ⟨hgrows2.settled s (hgrows1.settled s (hregion s hs).1),
      fun hmem => hmem.elim (hset1 s (hregion s hs).1).1 (hregion s hs).2,
      (hset1 s (hregion s hs).1).2⟩)
    hin (fun entry hmem => (hentries entry hmem).congr hsame
      fun origin s hat => hgrows2.entry origin s (hgrows1.entry origin s hat))
  have hpipe : (((((tree.setAux .source name (some tail)).newPipe .forward).newPipe
      (.multiplexer [])).append tail (tree.newPipe .forward).fresh).addNextHop
        (tree.newPipe .forward).fresh tree.fresh).pipes tree.fresh = .ofKind .forward := by
    rw [hadds.other _ (Ne.symm htail.1) (Ne.symm hfresh), newPipe_pipes_of_ne (Ne.symm hfresh),
      newPipe_pipes_fresh]
  have hnext' : (((tree.setAux .source name (some tail)).newPipe .forward).pipes tail).pipeNext =
      none := (congrArg LogPipe.pipeNext (newPipe_pipes_of_ne htail.1)).trans hnext
  rw [attachSource]
  dsimp only
  rw [hnext']
  refine ⟨hgrows', ?_, {tree.fresh}, tree.fresh, rfl, rfl,
    hinv.region_one fun hmem => not_settled_fresh tree (hheld _ hmem), rfl,
    fun hs => not_settled_fresh tree (hgrows.settled _ hs), ?_, fun entry hmem => ?_⟩
  · rw [ends_tail, union_singleton]
    exact hinv
  · exact congrArg LogPipe.pipeNext hpipe
  · obtain rfl := List.mem_singleton.1 hmem
    exact .one hentry rfl (congrArg LogPipe.flags hpipe) (.inl (congrArg LogPipe.kind hpipe))

/-! ## References to destinations -/

theorem sourceMpx_congr (hpipes : tree'.pipes = tree.pipes) (haux : tree'.aux .source = tree.aux .source) :
    SourceMpx tree' s ↔ SourceMpx tree s := by
  rw [SourceMpx, SourceMpx, hpipes, haux]

theorem settled_congr (hpipes : tree'.pipes = tree.pipes) (hmade : tree'.made = tree.made)
    (haux : tree'.aux .source = tree.aux .source) : Settled tree' s ↔ Settled tree s := by
  cases s with
  | object n => rw [Settled, Settled, hpipes]
  | made n => rw [Settled, Settled, hmade, sourceMpx_congr hpipes haux]

theorem attached_congr {mpx : PipeId} (hpipes : tree'.pipes = tree.pipes)
    (haux : tree'.aux .source = tree.aux .source) (h : Attached tree name mpx hops) :
    Attached tree' name mpx hops :=
  ⟨by rw [hpipes, haux]; exact h.tail, by rw [hpipes, h.kind], by rw [hpipes, h.next],
    by rw [hpipes, h.flags]⟩

theorem entryAt_congr (hpipes : tree'.pipes = tree.pipes) (haux : tree'.aux .source = tree.aux .source)
    (origin : Origin) (h : EntryAt tree origin s) : EntryAt tree' origin s := by
  cases origin with
  | driver n => exact h
  | attach name index =>
    obtain ⟨mpx, hops, ha, hindex⟩ := h
    exact ⟨mpx, hops, attached_congr hpipes haux ha, hindex⟩

theorem Inv.setDestination {aux : Option PipeId} {hop : Option (Route.Hop M)}
    (h : Inv objects tree plan held) (hgrows : Grows before tree) (name : String)
    (hdest : DestinationOk tree held aux hop) :
    Inv objects (tree.setAux .destination name aux)
        { plan with destinations := update plan.destinations name hop } held ∧
      Grows before (tree.setAux .destination name aux) := by
  have hpipes : (tree.setAux .destination name aux).pipes = tree.pipes := rfl
  have haux : (tree.setAux .destination name aux).aux .source = tree.aux .source :=
    @setAux_aux_of_ne M tree .destination .source nofun name aux
  have hset : ∀ s, Settled tree s → Settled (tree.setAux .destination name aux) s := fun s hs =>
    (settled_congr hpipes rfl haux).2 hs
  have hfree : ∀ s, Settled tree s → s ∉ held →
      Settled (tree.setAux .destination name aux) s ∧ s ∉ held := fun s hs hheld => ⟨hset s hs, hheld⟩
  have hentry : ∀ origin s, EntryAt tree origin s →
      EntryAt (tree.setAux .destination name aux) origin s := fun origin s hat =>
    entryAt_congr hpipes haux origin hat
  have hsource : ∀ name' tail, tree.aux .source name' = some tail →
      (tree.setAux .destination name aux).aux .source name' = some tail := by
    intro name' tail ht
    rw [haux, ht]
  refine ⟨{
    kind := h.kind
    used := h.used
    unused := h.unused
    inUse := fun s hs => hset s (h.inUse s hs)
    destination := fun name' => ?_
    noSource := fun name' hn => by rw [haux, h.noSource name' hn]
    attached := fun name' n hn => by
      obtain ⟨mpx, hops, ha, hlen⟩ := h.attached name' n hn
      exact ⟨mpx, hops, attached_congr hpipes haux ha, hlen⟩
    sourceTail := fun name' tail ht => by
      rw [haux] at ht
      obtain ⟨hs, hheld, hm⟩ := h.sourceTail name' tail ht
      exact ⟨hset tail hs, hheld, hm⟩
    distinct := fun name1 name2 tail1 tail2 mpx ht1 ht2 => by
      rw [haux] at ht1 ht2
      exact h.distinct name1 name2 tail1 tail2 mpx ht1 ht2
    group := fun group hg => (h.group group hg).congr hfree (fun _ _ _ => rfl) hentry hsource },
    fun s hs => hset s (hgrows.settled s hs), hgrows.same,
    fun origin s hat => hentry origin s (hgrows.entry origin s hat),
    fun name' tail ht => hsource name' tail (hgrows.source name' tail ht)⟩
  rw [setAux_aux_self]
  by_cases heq : name' = name
  · dsimp only
    rw [heq, update_self, update_self]
    exact hdest.congr hfree fun _ _ _ => rfl
  · dsimp only
    rw [update_of_ne heq, update_of_ne heq]
    exact (h.destination name').congr hfree fun _ _ _ => rfl

theorem Inv.addGroup {group : Group M} (h : Inv objects tree plan held) (hgroup : GroupOk tree held group) :
    Inv objects tree { plan with groups := plan.groups ++ [group] } held :=
  { h with
    group := fun g hg => by
      rcases List.mem_append.1 hg with hg | hg
      · exact h.group g hg
      · exact List.mem_singleton.1 hg ▸ hgroup }

theorem refined_fork {aux : Option PipeId} {hop : Option (Route.Hop M)} (h : Inv objects tree plan held)
    (hgrows : Grows before tree) (hdest : DestinationOk tree held aux hop) :
    Refined objects before held (forkDestination aux tree) (forkPart hop.toList, plan) := by
  obtain ⟨hinv, hgrows'⟩ := h.newPipe (.multiplexer [])
  have hnew : tree.fresh ∉ held := fun hmem => not_settled_fresh tree (h.inUse _ hmem)
  have hfree : ¬Settled before tree.fresh := fun hs => not_settled_fresh tree (hgrows.settled _ hs)
  cases aux with
  | none =>
    cases hop with
    | some hop => exact hdest.elim
    | none =>
      rw [forkDestination]
      refine ⟨hgrows.trans hgrows', ?_, {tree.fresh}, tree.fresh, tree.fresh, rfl, rfl, fun _ => rfl,
        hinv.region_one hnew, hfree, hfree, .one ?_ ?_ fun pipes' next hk hnext => ?_⟩
      · rw [ends_head, union_singleton]
        exact hinv
      · rw [newPipe_pipes_fresh]; rfl
      · rw [newPipe_pipes_fresh]; rfl
      · have hkind : (pipes' tree.fresh).kind = .multiplexer [] := by
          rw [hk, newPipe_pipes_fresh]; rfl
        exact runs_multiplexer hkind .nil hnext
  | some head =>
    cases hop with
    | none => exact hdest.elim
    | some hop =>
      obtain ⟨region, hregion, hhead, hflags, hruns⟩ := hdest
      have hmem : tree.fresh ∈ insert tree.fresh held := Set.mem_insert ..
      have hkeeps := keepsUse_addNextHop objects tree.fresh head
      obtain ⟨hinv', hsettled, -⟩ := hinv.modify hmem hkeeps
      have hself : ((tree.newPipe (.multiplexer [])).addNextHop tree.fresh head).pipes tree.fresh =
          .ofKind (.multiplexer [head]) := by
        have hkind : ((tree.newPipe (.multiplexer [])).pipes tree.fresh).kind = .multiplexer [] := by
          rw [newPipe_pipes_fresh]; rfl
        rw [addNextHop_eq hkind, newPipe_pipes_fresh]
        rfl
      have hsame : ∀ s ∈ region, ((tree.newPipe (.multiplexer [])).addNextHop tree.fresh head).pipes s =
          tree.pipes s := by
        intro s hs
        have hne := (hregion s hs).1.ne_fresh
        exact (modify_pipes_of_ne hne).trans (newPipe_pipes_of_ne hne)
      rw [forkDestination]
      refine ⟨(hgrows.trans hgrows').modify hinv hmem hkeeps hfree, ?_, insert tree.fresh region,
        tree.fresh, tree.fresh, rfl, rfl, fun _ => rfl, ?_, hfree, hfree, ?_⟩
      · rw [ends_head, union_singleton]
        exact hinv'
      · intro s hs
        rcases hs with rfl | hs
        · exact ⟨hinv'.inUse _ hmem, hnew⟩
        · exact ⟨(hsettled s).2 (hgrows'.settled s (hregion s hs).1), (hregion s hs).2⟩
      · refine ⟨.inl rfl, .inl rfl, by rw [hself]; rfl, by rw [hself]; rfl, fun pipes' hfits next hnext => ?_⟩
        have hkind : (pipes' tree.fresh).kind = .multiplexer [head] := by
          rw [(hfits tree.fresh (.inl rfl)).1, hself]; rfl
        have hpipes : ∀ s ∈ region, SamePipe (tree.pipes s) (pipes' s) := by
          intro s hs
          have hne := (hregion s hs).1.ne_fresh
          obtain ⟨hk, hn, hf⟩ := hfits s (.inr hs)
          rw [hsame s hs] at hk hn hf
          exact ⟨hk, hn hne, hf fun heq => hne (some.inj heq)⟩
        refine runs_multiplexer hkind (.cons ⟨?_, ?_⟩ .nil) hnext
        · rw [(hpipes head hhead).2.2, hflags]
        · have hrun := hruns pipes' hpipes
          rw [RunsBody, (hpipes head hhead).2.2, hflags] at hrun
          exact hrun

/-! ## References -/

theorem setAux_none {content : Content} (h : tree.aux content name = none) :
    tree.setAux content name none = tree := by
  obtain ⟨pipes, made, initializedPipes, aux⟩ := tree
  have h : aux content name = none := h
  rw [CfgTree.setAux, ← h, update_eq_self, update_eq_self]

theorem Inv.source_none (h : Inv objects tree plan held) :
    tree.aux .source name = none ↔ plan.sources name = none := by
  refine ⟨fun haux => ?_, h.noSource name⟩
  cases hsome : plan.sources name with
  | none => rfl
  | some n =>
    obtain ⟨mpx, hops, ha, -⟩ := h.attached name n hsome
    obtain ⟨tail, ht, -⟩ := ha.tail
    rw [haux] at ht
    cases ht

theorem refines_source {compiled : Compiled M} {planned : Part M × Plan M}
    (h : Refined objects before held compiled planned) (hname : planned.2.sources name = none) :
    Refined objects before held
      (attachSource compiled.2.1 (compiled.2.2.setAux .source name compiled.2.1))
      (planned.2.addSource name planned.1) := by
  obtain ⟨head, tail, tree⟩ := compiled
  obtain ⟨part, plan⟩ := planned
  obtain ⟨hgrows, hinv, hpart⟩ := h
  have hheld : held ⊆ held ∪ ends head tail := Set.subset_union_left
  have hnone := setAux_none (hinv.source_none.2 hname)
  dsimp only at hpart hname hinv hgrows ⊢
  cases part with
  | nothing =>
    obtain ⟨-, rfl⟩ := hpart
    rw [hnone]
    exact refined_attach_none (hinv.release hheld) hgrows
  | source entries =>
    obtain ⟨region, last, rfl, rfl, hregion, hin, hnew, hnext, hentries⟩ := hpart
    exact refined_addSource hinv hgrows hname hregion hin hnew hnext hentries
  | pipe flags route tailed =>
    obtain ⟨region, first, last, rfl, htail, -, hregion, -, hnew, hpipe⟩ := hpart
    cases tailed with
    | false =>
      obtain rfl : tail = none := htail
      rw [hnone]
      exact refined_attach_none (hinv.release hheld) hgrows
    | true =>
      obtain rfl : tail = some last := htail
      exact refined_addSource hinv hgrows hname hregion hpipe.tailIn hnew hpipe.next nofun

theorem refines_destination {compiled : Compiled M} {planned : Part M × Plan M}
    (h : Refined objects before held compiled planned) :
    Refined objects before held
      (forkDestination compiled.1 (compiled.2.2.setAux .destination name compiled.1))
      (planned.2.addDestination name planned.1) := by
  obtain ⟨head, tail, tree⟩ := compiled
  obtain ⟨part, plan⟩ := planned
  obtain ⟨hgrows, hends, hpart⟩ := h
  have hinv : Inv objects tree plan held := hends.release Set.subset_union_left
  have hnone : DestinationOk tree held none none := trivial
  clear hends
  dsimp only at hpart hgrows ⊢
  cases part with
  | nothing =>
    obtain ⟨rfl, -⟩ := hpart
    obtain ⟨hinv', hgrows'⟩ := hinv.setDestination hgrows name hnone
    exact @refined_fork M objects _ before _ held none none hinv' hgrows' trivial
  | source entries =>
    obtain ⟨region, last, rfl, -, hregion, hin, -, hnext, hentries⟩ := hpart
    have hgroup : GroupOk tree held (none, entries) := ⟨region, last, hregion, hin, hnext, hentries⟩
    obtain ⟨hinv', hgrows'⟩ := (hinv.addGroup hgroup).setDestination hgrows name hnone
    exact @refined_fork M objects _ before _ held none none hinv' hgrows' trivial
  | pipe flags route tailed =>
    obtain ⟨region, first, last, rfl, -, -, hregion, -, -, hpipe⟩ := hpart
    have hdest : DestinationOk tree held (some first) (some (flags, route .drop)) := by
      refine ⟨region, hregion, hpipe.headIn, hpipe.headFlags, fun pipes' hpipes => ?_⟩
      refine hpipe.takes pipes' (fun s hs => ?_) .drop ?_
      · obtain ⟨hk, hn, hf⟩ := hpipes s hs
        exact ⟨hk, fun _ => hn, fun _ => hf⟩
      · rw [(hpipes last hpipe.tailIn).2.1, hpipe.next]
        rfl
    obtain ⟨hinv', hgrows'⟩ := hinv.setDestination hgrows name hdest
    have hthis := hinv'.destination name
    dsimp only at hthis
    rw [setAux_aux_self, update_self, update_self] at hthis
    exact refined_fork hinv' hgrows' hthis

section

variable {definitions : Content → String → Option LogExprNode} {fuel : Nat}

variable (definitions objects fuel) in
/-- The compilation of the nodes refines the plan. -/
def NodesRefined : Prop :=
  ∀ (node : LogExprNode) (tree : CfgTree M) (plan : Plan M) (held : Set PipeId),
    Inv objects tree plan held → Cached definitions plan → Agrees (Refined objects tree held)
      (compileNode definitions fuel node tree) (planNode definitions objects fuel node plan)

theorem refines_reference (hcompile : NodesRefined objects definitions fuel)
    (h : Inv objects tree plan held) (hcached : Cached definitions plan) (content : Content)
    (name : String) :
    Agrees (Refined objects tree held)
      (compileReference definitions (compileNode definitions fuel) content name tree)
      (planReference definitions (planNode definitions objects fuel) content name plan) := by
  rw [compileReference, planReference]
  cases hdef : definitions content name with
  | none => exact .error _
  | some node =>
    have hnode := hcompile node tree plan held h hcached
    cases content with
    | source =>
      cases hsources : plan.sources name with
      | some index =>
        obtain ⟨mpx, hops, ha, rfl⟩ := h.attached name index hsources
        obtain ⟨tail, ht, hm⟩ := ha.tail
        dsimp only
        rw [ht]
        exact .ok (refined_attach h ha ht)
      | none =>
        dsimp only
        rw [h.noSource name hsources]
        exact hnode.map fun compiled planned hplan hrefined => refines_source hrefined
          ((planNode_sources_self hcached hdef hplan).trans hsources)
    | destination =>
      have hdest := h.destination name
      dsimp only
      cases haux : tree.aux .destination name with
      | some head =>
        cases hop : plan.destinations name with
        | none =>
          rw [haux, hop] at hdest
          exact hdest.elim
        | some hop' =>
          rw [haux, hop] at hdest
          exact .ok (refined_fork h (Grows.refl tree) hdest)
      | none =>
        cases hop : plan.destinations name with
        | some hop' =>
          rw [haux, hop] at hdest
          exact hdest.elim
        | none => exact hnode.map fun compiled planned _ hrefined => refines_destination hrefined
    | filter => exact hnode
    | parser => exact hnode
    | rewrite => exact hnode

end

end

end SyslogNg.CfgTree
