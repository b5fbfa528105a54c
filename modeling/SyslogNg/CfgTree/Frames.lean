import SyslogNg.CfgTree.Plan

/-!
# What the compilation leaves alone

The compilation of a part sets the pipes of that part, and the multiplexers behind the sources with a
name. All other pipes are settled; those that the sequences and junctions around the part have still to
link are held. `Inv` says that the pipes do what the plan says.
-/

namespace SyslogNg.CfgTree

open Option
open Function (update_of_ne update_self)

variable {M : Type}

/-! ## Settled pipes -/

/-- The multiplexer behind a source with a name. -/
def SourceMpx (tree : CfgTree M) (s : PipeId) : Prop :=
  ∃ name tail, tree.aux .source name = some tail ∧ (tree.pipes tail).pipeNext = some s

/-- The pipe is in use, and it is not one that more hops are added to at any time. -/
def Settled (tree : CfgTree M) : PipeId → Prop
  | .object n => (tree.pipes (.object n)).inlined = true
  | .made n => n < tree.made ∧ ¬SourceMpx tree (.made n)

/-- The places that a source is attached to. -/
structure Attached (tree : CfgTree M) (name : String) (mpx : PipeId) (hops : List PipeId) : Prop where
  tail : ∃ tail, tree.aux .source name = some tail ∧ (tree.pipes tail).pipeNext = some mpx
  kind : (tree.pipes mpx).kind = .multiplexer hops
  next : (tree.pipes mpx).pipeNext = none
  flags : (tree.pipes mpx).flags = .none

/-- The pipe that messages of an origin come to. -/
def EntryAt (tree : CfgTree M) : Origin → PipeId → Prop
  | .driver n, s => s = .object n
  | .attach name index, s => ∃ mpx hops, Attached tree name mpx hops ∧ hops[index]? = some s

/-- What a step of the compilation leaves as it is. -/
structure Grows (tree tree' : CfgTree M) : Prop where
  settled : ∀ s, Settled tree s → Settled tree' s
  same : ∀ s, Settled tree s → tree'.pipes s = tree.pipes s
  entry : ∀ origin s, EntryAt tree origin s → EntryAt tree' origin s
  source : ∀ name tail, tree.aux .source name = some tail → tree'.aux .source name = some tail

theorem Grows.refl (tree : CfgTree M) : Grows tree tree :=
  ⟨fun _ h => h, fun _ _ => rfl, fun _ _ h => h, fun _ _ h => h⟩

theorem Grows.trans {t u v : CfgTree M} (h : Grows t u) (h' : Grows u v) : Grows t v where
  settled s hs := h'.settled s (h.settled s hs)
  same s hs := (h'.same s (h.settled s hs)).trans (h.same s hs)
  entry origin s hs := h'.entry origin s (h.entry origin s hs)
  source name tail ht := h'.source name tail (h.source name tail ht)

/-! ## What a part does -/

/-- Pipes that are as they were in a region, but for the flags of the head and what is behind the
tail. -/
def Fits (pipes pipes' : PipeId → LogPipe M) (region : Set PipeId) (head : Option PipeId)
    (tail : PipeId) : Prop :=
  ∀ s ∈ region, (pipes' s).kind = (pipes s).kind ∧
    (s ≠ tail → (pipes' s).pipeNext = (pipes s).pipeNext) ∧
    (some s ≠ head → (pipes' s).flags = (pipes s).flags)

/-- From `s` to the tail, the pipes take the route. -/
def Takes (pipes : PipeId → LogPipe M) (region : Set PipeId) (head : Option PipeId)
    (tail s : PipeId) (route : Route M → Route M) : Prop :=
  ∀ pipes', Fits pipes pipes' region head tail → ∀ next,
    RunsNext pipes' (pipes' tail).pipeNext next → RunsBody pipes' s (route next)

/-- The pipes from a head to a tail. -/
structure PipeOk (tree : CfgTree M) (region : Set PipeId) (head tail : PipeId) (flags : BranchFlags)
    (route : Route M → Route M) : Prop where
  headIn : head ∈ region
  tailIn : tail ∈ region
  headFlags : (tree.pipes head).flags = flags
  next : (tree.pipes tail).pipeNext = none
  takes : Takes tree.pipes region (some head) tail head route

/-- The pipes from the entries of a source to its tail. -/
structure EntryOk (tree : CfgTree M) (region : Set PipeId) (tail : PipeId) (entry : Entry M) : Prop where
  pipe : ∃ s ∈ region, EntryAt tree entry.origin s ∧ (tree.pipes s).flags = .none ∧
    Takes tree.pipes region none tail s entry.route

/-- A source that is compiled as a whole: it ends there, or the multiplexer is behind it. -/
def GroupOk (tree : CfgTree M) (held : Set PipeId) (group : Group M) : Prop :=
  ∃ region tail, (∀ s ∈ region, Settled tree s ∧ s ∉ held) ∧ tail ∈ region ∧
    (match group.1 with
      | none => (tree.pipes tail).pipeNext = none
      | some name => tree.aux .source name = some tail) ∧
    ∀ entry ∈ group.2, EntryOk tree region tail entry

/-- The pipe is as it was. -/
def SamePipe (pipe pipe' : LogPipe M) : Prop :=
  pipe'.kind = pipe.kind ∧ pipe'.pipeNext = pipe.pipeNext ∧ pipe'.flags = pipe.flags

/-- A destination that is compiled. -/
def DestinationOk (tree : CfgTree M) (held : Set PipeId) : Option PipeId → Option (Route.Hop M) → Prop
  | none, none => True
  | some head, some hop => ∃ region : Set PipeId, (∀ s ∈ region, Settled tree s ∧ s ∉ held) ∧
      head ∈ region ∧ (tree.pipes head).flags = hop.1 ∧
      ∀ pipes', (∀ s ∈ region, SamePipe (tree.pipes s) (pipes' s)) → RunsBody pipes' head hop.2
  | _, _ => False

/-- The pipes do what the plan says. -/
structure Inv (objects : Nat → ObjectKind M) (tree : CfgTree M) (plan : Plan M)
    (held : Set PipeId) : Prop where
  kind : ∀ n, (tree.pipes (.object n)).kind = .object (objects n)
  used : ∀ n, (tree.pipes (.object n)).inlined = plan.used n
  unused : ∀ n, plan.used n = false → tree.pipes (.object n) = .ofKind (.object (objects n))
  inUse : ∀ s ∈ held, Settled tree s
  destination : ∀ name,
    DestinationOk tree held (tree.aux .destination name) (plan.destinations name)
  noSource : ∀ name, plan.sources name = none → tree.aux .source name = none
  attached : ∀ name n, plan.sources name = some n →
    ∃ mpx hops, Attached tree name mpx hops ∧ hops.length = n
  sourceTail : ∀ name tail, tree.aux .source name = some tail → Settled tree tail ∧ tail ∉ held ∧
    ∃ m, (tree.pipes tail).pipeNext = some (.made m) ∧ m < tree.made
  distinct : ∀ name name' tail tail' mpx, tree.aux .source name = some tail →
    tree.aux .source name' = some tail' → (tree.pipes tail).pipeNext = some mpx →
    (tree.pipes tail').pipeNext = some mpx → name = name'
  group : ∀ group ∈ plan.groups, GroupOk tree held group

section

variable {objects : Nat → ObjectKind M} {tree tree' : CfgTree M} {plan : Plan M}
  {held held' region : Set PipeId} {head tail s : PipeId} {flags : BranchFlags}
  {route : Route M → Route M} {entry : Entry M}

theorem Fits.refl (pipes : PipeId → LogPipe M) (region : Set PipeId) (head : Option PipeId)
    (tail : PipeId) : Fits pipes pipes region head tail :=
  fun _ _ => ⟨rfl, fun _ => rfl, fun _ => rfl⟩

theorem Takes.congr {pipes pipes' : PipeId → LogPipe M} {first : Option PipeId}
    (h : Takes pipes region first tail s route) (hsame : ∀ s ∈ region, pipes' s = pipes s) :
    Takes pipes' region first tail s route := by
  intro pipes'' hfits
  refine h pipes'' fun i hi => ?_
  rw [← hsame i hi]
  exact hfits i hi

theorem PipeOk.congr (h : PipeOk tree region head tail flags route)
    (hsame : ∀ s ∈ region, tree'.pipes s = tree.pipes s) :
    PipeOk tree' region head tail flags route where
  headIn := h.headIn
  tailIn := h.tailIn
  headFlags := by rw [hsame _ h.headIn, h.headFlags]
  next := by rw [hsame _ h.tailIn, h.next]
  takes := h.takes.congr hsame

theorem EntryOk.congr (h : EntryOk tree region tail entry)
    (hsame : ∀ s ∈ region, tree'.pipes s = tree.pipes s)
    (hentry : ∀ origin s, EntryAt tree origin s → EntryAt tree' origin s) :
    EntryOk tree' region tail entry := by
  obtain ⟨s, hs, hat, hflags, htakes⟩ := h.pipe
  exact ⟨⟨s, hs, hentry _ _ hat, by rw [hsame s hs, hflags], htakes.congr hsame⟩⟩

theorem GroupOk.congr {group : Group M} (h : GroupOk tree held group)
    (hsettled : ∀ s, Settled tree s → s ∉ held → Settled tree' s ∧ s ∉ held')
    (hsame : ∀ s, Settled tree s → s ∉ held → tree'.pipes s = tree.pipes s)
    (hentry : ∀ origin s, EntryAt tree origin s → EntryAt tree' origin s)
    (hsource : ∀ name tail, tree.aux .source name = some tail → tree'.aux .source name = some tail) :
    GroupOk tree' held' group := by
  obtain ⟨region, tail, hregion, htail, howner, hentries⟩ := h
  have hsame' : ∀ s ∈ region, tree'.pipes s = tree.pipes s := fun s hs =>
    hsame s (hregion s hs).1 (hregion s hs).2
  refine ⟨region, tail, fun s hs => hsettled s (hregion s hs).1 (hregion s hs).2, htail, ?_,
    fun entry hmem => (hentries entry hmem).congr hsame' hentry⟩
  obtain ⟨owner, entries⟩ := group
  cases owner with
  | none => exact (congrArg LogPipe.pipeNext (hsame' tail htail)).trans howner
  | some name => exact hsource name tail howner

theorem DestinationOk.congr {aux : Option PipeId} {hop : Option (Route.Hop M)}
    (h : DestinationOk tree held aux hop)
    (hsettled : ∀ s, Settled tree s → s ∉ held → Settled tree' s ∧ s ∉ held')
    (hsame : ∀ s, Settled tree s → s ∉ held → tree'.pipes s = tree.pipes s) :
    DestinationOk tree' held' aux hop := by
  cases aux with
  | none =>
    cases hop with
    | none => trivial
    | some hop => exact h.elim
  | some head =>
    cases hop with
    | none => exact h.elim
    | some hop =>
      obtain ⟨region, hregion, hhead, hflags, hruns⟩ := h
      have hsame' : ∀ s ∈ region, tree'.pipes s = tree.pipes s := fun s hs =>
        hsame s (hregion s hs).1 (hregion s hs).2
      refine ⟨region, fun s hs => hsettled s (hregion s hs).1 (hregion s hs).2, hhead, ?_,
        fun pipes' hpipes => hruns pipes' fun s hs => hsame' s hs ▸ hpipes s hs⟩
      rw [hsame' head hhead, hflags]

theorem Inv.release (h : Inv objects tree plan held) (hsub : held' ⊆ held) :
    Inv objects tree plan held' := by
  have hsettled : ∀ s, Settled tree s → s ∉ held → Settled tree s ∧ s ∉ held' :=
    fun s hs hheld => ⟨hs, fun hmem => hheld (hsub hmem)⟩
  exact { h with
    inUse := fun s hs => h.inUse s (hsub hs)
    destination := fun name => (h.destination name).congr hsettled fun _ _ _ => rfl
    sourceTail := fun name tail ht =>
      ⟨(h.sourceTail name tail ht).1, fun hmem => (h.sourceTail name tail ht).2.1 (hsub hmem),
        (h.sourceTail name tail ht).2.2⟩
    group := fun group hg => (h.group group hg).congr hsettled (fun _ _ _ => rfl)
      (fun _ _ hat => hat) fun _ _ ht => ht }

/-! ## A pipe comes into use -/

@[simp] theorem newPipe_pipes_fresh (tree : CfgTree M) (kind : PipeKind M) :
    (tree.newPipe kind).pipes tree.fresh = .ofKind kind := update_self ..

theorem newPipe_pipes_of_ne {kind : PipeKind M} (h : s ≠ tree.fresh) :
    (tree.newPipe kind).pipes s = tree.pipes s := update_of_ne h ..

theorem Settled.ne_fresh (h : Settled tree s) : s ≠ tree.fresh := by
  rintro rfl
  exact absurd h.1 (Nat.lt_irrefl _)

theorem not_settled_fresh (tree : CfgTree M) : ¬Settled tree tree.fresh := fun h => h.ne_fresh rfl

theorem object_ne_fresh (n : Nat) : PipeId.object n ≠ tree.fresh := nofun

/-- The pipe is one that was compiled. -/
def InUse (tree : CfgTree M) : PipeId → Prop
  | .object n => (tree.pipes (.object n)).inlined = true
  | .made n => n < tree.made

structure Uses (tree tree' : CfgTree M) (s : PipeId) : Prop where
  aux : tree'.aux = tree.aux
  made : tree.made ≤ tree'.made
  other : ∀ s', s' ≠ s → tree'.pipes s' = tree.pipes s'
  free : ¬Settled tree s
  mpx : ¬SourceMpx tree s
  inUse : InUse tree' s

theorem Inv.use {used : Nat → Bool} (h : Inv objects tree plan held) (hs : Uses tree tree' s)
    (hkind : ∀ n, (tree'.pipes (.object n)).kind = .object (objects n))
    (hused : ∀ n, (tree'.pipes (.object n)).inlined = used n)
    (hunused : ∀ n, used n = false → tree'.pipes (.object n) = .ofKind (.object (objects n))) :
    Inv objects tree' { plan with used := used } (insert s held) ∧ Grows tree tree' := by
  have hne : ∀ s', Settled tree s' → s' ≠ s := by
    rintro s' hs' rfl
    exact hs.free hs'
  have hsame : ∀ s', Settled tree s' → tree'.pipes s' = tree.pipes s' := fun s' hs' =>
    hs.other s' (hne s' hs')
  have haux : ∀ name tail, tree'.aux .source name = some tail ↔ tree.aux .source name = some tail := by
    intro name tail
    rw [hs.aux]
  have hnext : ∀ name tail, tree.aux .source name = some tail → tree'.pipes tail = tree.pipes tail :=
    fun name tail ht => hsame tail (h.sourceTail name tail ht).1
  have hmpx : ∀ s', SourceMpx tree' s' ↔ SourceMpx tree s' := by
    intro s'
    constructor
    · rintro ⟨name, tail, ht, hs'⟩
      rw [haux] at ht
      exact ⟨name, tail, ht, by rw [← hnext name tail ht, hs']⟩
    · rintro ⟨name, tail, ht, hs'⟩
      exact ⟨name, tail, (haux name tail).2 ht, by rw [hnext name tail ht, hs']⟩
  have hsettled : ∀ s', Settled tree s' → Settled tree' s' := by
    intro s' hs'
    cases s' with
    | object n =>
      show (tree'.pipes _).inlined = true
      rw [hsame _ hs']
      exact hs'
    | made n => exact ⟨Nat.lt_of_lt_of_le hs'.1 hs.made, fun hm => hs'.2 ((hmpx _).1 hm)⟩
  have hnow : Settled tree' s := by
    have hin := hs.inUse
    cases s with
    | object n => exact hin
    | made n => exact ⟨hin, fun hm => hs.mpx ((hmpx _).1 hm)⟩
  have hattached : ∀ name mpx hops, Attached tree name mpx hops → Attached tree' name mpx hops := by
    intro name mpx hops ha
    obtain ⟨tail, ht, hm⟩ := ha.tail
    have heq : tree'.pipes mpx = tree.pipes mpx := by
      refine hs.other mpx ?_
      rintro rfl
      exact hs.mpx ⟨name, tail, ht, hm⟩
    exact ⟨⟨tail, (haux name tail).2 ht, by rw [hnext name tail ht, hm]⟩, by rw [heq, ha.kind],
      by rw [heq, ha.next], by rw [heq, ha.flags]⟩
  have hentry : ∀ origin s', EntryAt tree origin s' → EntryAt tree' origin s' := by
    intro origin s' hat
    cases origin with
    | driver n => exact hat
    | attach name index =>
      obtain ⟨mpx, hops, ha, hindex⟩ := hat
      exact ⟨mpx, hops, hattached name mpx hops ha, hindex⟩
  have hfree : ∀ s', Settled tree s' → s' ∉ held → Settled tree' s' ∧ s' ∉ insert s held :=
    fun s' hs' hheld => ⟨hsettled s' hs', fun hmem => hmem.elim (hne s' hs') hheld⟩
  refine ⟨?_, hsettled, hsame, hentry, fun name tail ht => (haux name tail).2 ht⟩
  exact {
    kind := hkind
    used := hused
    unused := hunused
    inUse := fun s' hs' => by
      rcases hs' with rfl | hs'
      · exact hnow
      · exact hsettled s' (h.inUse s' hs')
    destination := fun name => by
      rw [hs.aux]
      exact (h.destination name).congr hfree fun s' hs' _ => hsame s' hs'
    noSource := fun name hn => by
      rw [hs.aux]
      exact h.noSource name hn
    attached := fun name n hn => by
      obtain ⟨mpx, hops, ha, hlen⟩ := h.attached name n hn
      exact ⟨mpx, hops, hattached name mpx hops ha, hlen⟩
    sourceTail := fun name tail ht => by
      rw [haux] at ht
      obtain ⟨hset, hheld, m, hm, hlt⟩ := h.sourceTail name tail ht
      exact ⟨(hfree tail hset hheld).1, (hfree tail hset hheld).2, m, by rw [hsame tail hset, hm],
        Nat.lt_of_lt_of_le hlt hs.made⟩
    distinct := fun name name' tail tail' mpx ht ht' hm hm' => by
      rw [haux] at ht ht'
      exact h.distinct name name' tail tail' mpx ht ht' (by rw [← hnext name tail ht, hm])
        (by rw [← hnext name' tail' ht', hm'])
    group := fun group hg => (h.group group hg).congr hfree (fun s' hs' _ => hsame s' hs') hentry
      fun name tail ht => (haux name tail).2 ht }

theorem Inv.not_sourceMpx_fresh (h : Inv objects tree plan held) : ¬SourceMpx tree tree.fresh := by
  rintro ⟨name, tail, ht, hs⟩
  obtain ⟨m, hm, hlt⟩ := (h.sourceTail name tail ht).2.2
  rw [hs] at hm
  cases hm
  exact absurd hlt (Nat.lt_irrefl _)

theorem Inv.newPipe (h : Inv objects tree plan held) (kind : PipeKind M) :
    Inv objects (tree.newPipe kind) plan (insert tree.fresh held) ∧ Grows tree (tree.newPipe kind) := by
  have hobject : ∀ n, (tree.newPipe kind).pipes (.object n) = tree.pipes (.object n) := fun n =>
    newPipe_pipes_of_ne (object_ne_fresh n)
  refine h.use ⟨rfl, Nat.le_succ _, fun s' hs' => newPipe_pipes_of_ne hs', not_settled_fresh tree,
    h.not_sourceMpx_fresh, Nat.lt_succ_self _⟩ (fun n => ?_) (fun n => ?_) fun n hn => ?_
  · rw [hobject, h.kind]
  · rw [hobject, h.used]
  · rw [hobject, h.unused n hn]

theorem Inv.useObject {n : Nat} (h : Inv objects tree plan held) (hn : plan.used n = false)
    (hother : ∀ s, s ≠ .object n → tree'.pipes s = tree.pipes s)
    (hself : tree'.pipes (.object n) = { tree.pipes (.object n) with inlined := true })
    (haux : tree'.aux = tree.aux) (hmade : tree'.made = tree.made) :
    Inv objects tree' { plan with used := Function.update plan.used n true }
        (insert (.object n) held) ∧ Grows tree tree' := by
  have hnot : ¬SourceMpx tree (.object n) := by
    rintro ⟨name, tail, ht, hs⟩
    obtain ⟨m, hm, -⟩ := (h.sourceTail name tail ht).2.2
    rw [hs] at hm
    cases hm
  have hfree : ¬Settled tree (.object n) := by
    intro hs
    have hin : (tree.pipes (.object n)).inlined = true := hs
    rw [h.used, hn] at hin
    cases hin
  refine h.use ⟨haux, Nat.le_of_eq hmade.symm, hother, hfree, hnot, ?_⟩ (fun m => ?_) (fun m => ?_)
    fun m hm => ?_
  · show (tree'.pipes (.object n)).inlined = true
    rw [hself]
  · by_cases heq : m = n
    · rw [heq, hself]
      exact h.kind n
    · rw [hother _ fun hobject => heq (PipeId.object.inj hobject), h.kind]
  · by_cases heq : m = n
    · rw [heq, hself, update_self]
    · rw [hother _ fun hobject => heq (PipeId.object.inj hobject), h.used, update_of_ne heq]
  · by_cases heq : m = n
    · rw [heq, update_self] at hm
      cases hm
    · rw [update_of_ne heq] at hm
      rw [hother _ fun hobject => heq (PipeId.object.inj hobject), h.unused m hm]

/-! ## A pipe that is held is set -/

theorem modify_pipes_self (tree : CfgTree M) (s : PipeId) (f : LogPipe M → LogPipe M) :
    (tree.modify s f).pipes s = f (tree.pipes s) := update_self ..

theorem modify_pipes_of_ne {s' : PipeId} {f : LogPipe M → LogPipe M} (h : s' ≠ s) :
    (tree.modify s f).pipes s' = tree.pipes s' := update_of_ne h ..

/-- What a change of a pipe that is in use leaves as it is. -/
def KeepsUse (objects : Nat → ObjectKind M) (s : PipeId) (f : LogPipe M → LogPipe M) : Prop :=
  ∀ n pipe, s = .object n → pipe.kind = .object (objects n) →
    (f pipe).inlined = pipe.inlined ∧ (f pipe).kind = pipe.kind

theorem Inv.modify {f : LogPipe M → LogPipe M} (h : Inv objects tree plan held) (hs : s ∈ held)
    (hf : KeepsUse objects s f) :
    Inv objects (tree.modify s f) plan held ∧ (∀ s', Settled (tree.modify s f) s' ↔ Settled tree s') ∧
      ∀ origin s', EntryAt tree origin s' → EntryAt (tree.modify s f) origin s' := by
  have htail : ∀ name tail, tree.aux .source name = some tail →
      (tree.modify s f).pipes tail = tree.pipes tail := fun name tail ht =>
    modify_pipes_of_ne fun heq => (h.sourceTail name tail ht).2.1 (heq ▸ hs)
  have hmpx : ∀ s', SourceMpx (tree.modify s f) s' ↔ SourceMpx tree s' := by
    intro s'
    constructor
    · rintro ⟨name, tail, ht, hs'⟩
      exact ⟨name, tail, ht, by rw [← htail name tail ht, hs']⟩
    · rintro ⟨name, tail, ht, hs'⟩
      exact ⟨name, tail, ht, by rw [htail name tail ht, hs']⟩
  have hinlined : ∀ n, ((tree.modify s f).pipes (.object n)).inlined =
      (tree.pipes (.object n)).inlined := by
    intro n
    by_cases heq : PipeId.object n = s
    · rw [← heq, modify_pipes_self, (hf n _ heq.symm (h.kind n)).1]
    · rw [modify_pipes_of_ne heq]
  have hsettled : ∀ s', Settled (tree.modify s f) s' ↔ Settled tree s' := by
    intro s'
    cases s' with
    | object n => rw [Settled, Settled, hinlined]
    | made n => exact and_congr_right fun _ => not_congr (hmpx _)
  have hattached : ∀ name mpx hops, Attached tree name mpx hops →
      Attached (tree.modify s f) name mpx hops := by
    intro name mpx hops ha
    obtain ⟨tail, ht, hm⟩ := ha.tail
    have hne : mpx ≠ s := by
      rintro rfl
      obtain ⟨m, hm', -⟩ := (h.sourceTail name tail ht).2.2
      rw [hm] at hm'
      obtain rfl := some.inj hm'
      exact (h.inUse _ hs).2 ⟨name, tail, ht, hm⟩
    have heq := @modify_pipes_of_ne M tree s mpx f hne
    exact ⟨⟨tail, ht, by rw [htail name tail ht, hm]⟩, by rw [heq, ha.kind], by rw [heq, ha.next],
      by rw [heq, ha.flags]⟩
  have hentry : ∀ origin s', EntryAt tree origin s' → EntryAt (tree.modify s f) origin s' := by
    intro origin s' hat
    cases origin with
    | driver n => exact hat
    | attach name index =>
      obtain ⟨mpx, hops, ha, hindex⟩ := hat
      exact ⟨mpx, hops, hattached name mpx hops ha, hindex⟩
  have hfree : ∀ s', Settled tree s' → s' ∉ held → Settled (tree.modify s f) s' ∧ s' ∉ held :=
    fun s' hs' hheld => ⟨(hsettled s').2 hs', hheld⟩
  have hsame : ∀ s', Settled tree s' → s' ∉ held → (tree.modify s f).pipes s' = tree.pipes s' :=
    fun s' _ hheld => modify_pipes_of_ne fun heq => hheld (heq ▸ hs)
  refine ⟨?_, hsettled, hentry⟩
  exact {
    kind := fun n => by
      by_cases heq : PipeId.object n = s
      · rw [← heq, modify_pipes_self, (hf n _ heq.symm (h.kind n)).2, h.kind]
      · rw [modify_pipes_of_ne heq, h.kind]
    used := fun n => by rw [hinlined, h.used]
    unused := fun n hn => by
      have hne : PipeId.object n ≠ s := by
        rintro rfl
        have hin : (tree.pipes (.object n)).inlined = true := h.inUse _ hs
        rw [h.used, hn] at hin
        cases hin
      rw [modify_pipes_of_ne hne, h.unused n hn]
    inUse := fun s' hs' => (hsettled s').2 (h.inUse s' hs')
    destination := fun name => (h.destination name).congr hfree hsame
    noSource := h.noSource
    attached := fun name n hn => by
      obtain ⟨mpx, hops, ha, hlen⟩ := h.attached name n hn
      exact ⟨mpx, hops, hattached name mpx hops ha, hlen⟩
    sourceTail := fun name tail ht => by
      obtain ⟨hset, hheld, m, hm, hlt⟩ := h.sourceTail name tail ht
      exact ⟨(hsettled tail).2 hset, hheld, m, by rw [htail name tail ht, hm], hlt⟩
    distinct := fun name name' tail tail' mpx ht ht' hm hm' =>
      h.distinct name name' tail tail' mpx ht ht' (by rw [← htail name tail ht, hm])
        (by rw [← htail name' tail' ht', hm'])
    group := fun group hg => (h.group group hg).congr hfree hsame hentry fun _ _ ht => ht }

theorem Grows.modify {before : CfgTree M} {f : LogPipe M → LogPipe M} (hgrows : Grows before tree)
    (h : Inv objects tree plan held) (hs : s ∈ held) (hf : KeepsUse objects s f)
    (hnew : ¬Settled before s) : Grows before (tree.modify s f) := by
  obtain ⟨-, hsettled, hentry⟩ := h.modify hs hf
  refine ⟨fun s' hs' => (hsettled s').2 (hgrows.settled s' hs'), fun s' hs' => ?_,
    fun origin s' hat => hentry origin s' (hgrows.entry origin s' hat), hgrows.source⟩
  have hne : s' ≠ s := by
    rintro rfl
    exact hnew hs'
  rw [modify_pipes_of_ne hne, hgrows.same s' hs']

/-! ## A source is attached -/

theorem Inv.ne_mpx {name : String} {mpx : PipeId} {hops : List PipeId} (h : Inv objects tree plan held)
    (ha : Attached tree name mpx hops) : ¬Settled tree mpx ∧ ∃ m, mpx = .made m := by
  obtain ⟨tail, ht, hm⟩ := ha.tail
  obtain ⟨m, hm', -⟩ := (h.sourceTail name tail ht).2.2
  rw [hm] at hm'
  obtain rfl := some.inj hm'
  exact ⟨fun hs => hs.2 ⟨name, tail, ht, hm⟩, m, rfl⟩

theorem addNextHop_eq {mpx hop : PipeId} {hops : List PipeId}
    (h : (tree.pipes mpx).kind = .multiplexer hops) :
    (tree.addNextHop mpx hop).pipes mpx =
      { tree.pipes mpx with kind := .multiplexer (hops ++ [hop]) } := by
  rw [CfgTree.addNextHop, modify_pipes_self, h]

theorem Inv.addHop {name : String} {mpx : PipeId} {hops : List PipeId} (h : Inv objects tree plan held)
    (ha : Attached tree name mpx hops) (hop : PipeId) :
    Inv objects (tree.addNextHop mpx hop) (plan.attach name hops.length).2 held ∧
      Grows tree (tree.addNextHop mpx hop) ∧
      EntryAt (tree.addNextHop mpx hop) (.attach name hops.length) hop := by
  obtain ⟨hfree, m, rfl⟩ := h.ne_mpx ha
  have hother : ∀ s, s ≠ .made m → (tree.addNextHop (.made m) hop).pipes s = tree.pipes s :=
    fun s hs => modify_pipes_of_ne hs
  have hobject : ∀ n, (tree.addNextHop (.made m) hop).pipes (.object n) = tree.pipes (.object n) :=
    fun n => hother (.object n) nofun
  have hself := @addNextHop_eq M tree (.made m) hop hops ha.kind
  have hnext : ∀ s, ((tree.addNextHop (.made m) hop).pipes s).pipeNext = (tree.pipes s).pipeNext := by
    intro s
    by_cases heq : s = .made m
    · rw [heq, hself]
    · rw [hother s heq]
  have hsame : ∀ s, Settled tree s → (tree.addNextHop (.made m) hop).pipes s = tree.pipes s := by
    intro s hs
    refine hother s ?_
    rintro rfl
    exact hfree hs
  have hmpx : ∀ s, SourceMpx (tree.addNextHop (.made m) hop) s ↔ SourceMpx tree s := by
    intro s
    constructor
    · rintro ⟨name, tail, ht, hs⟩
      exact ⟨name, tail, ht, (hnext tail).symm.trans hs⟩
    · rintro ⟨name, tail, ht, hs⟩
      exact ⟨name, tail, ht, (hnext tail).trans hs⟩
  have hsettled : ∀ s, Settled tree s → Settled (tree.addNextHop (.made m) hop) s := by
    intro s hs
    cases s with
    | object n =>
      show ((tree.addNextHop (.made m) hop).pipes _).inlined = true
      rw [hsame _ hs]
      exact hs
    | made n => exact ⟨hs.1, fun hm => hs.2 ((hmpx _).1 hm)⟩
  have hattached : Attached (tree.addNextHop (.made m) hop) name (.made m) (hops ++ [hop]) := by
    obtain ⟨tail, ht, hm⟩ := ha.tail
    refine ⟨⟨tail, ht, (hnext tail).trans hm⟩, ?_, ?_, ?_⟩
    · rw [hself]
    · rw [hself]
      exact ha.next
    · rw [hself]
      exact ha.flags
  have hattached' : ∀ name' mpx' hops', name' ≠ name → Attached tree name' mpx' hops' →
      Attached (tree.addNextHop (.made m) hop) name' mpx' hops' := by
    intro name' mpx' hops' hne ha'
    obtain ⟨tail, ht, hm⟩ := ha.tail
    obtain ⟨tail', ht', hm'⟩ := ha'.tail
    have heq : (tree.addNextHop (.made m) hop).pipes mpx' = tree.pipes mpx' := by
      refine hother mpx' ?_
      rintro rfl
      exact hne (h.distinct name' name tail' tail _ ht' ht hm' hm)
    exact ⟨⟨tail', ht', (hnext tail').trans hm'⟩, by rw [heq, ha'.kind], by rw [heq, ha'.next],
      by rw [heq, ha'.flags]⟩
  have hunique : ∀ mpx' hops', Attached tree name mpx' hops' → mpx' = .made m ∧ hops' = hops := by
    intro mpx' hops' ha'
    obtain ⟨tail, ht, hm⟩ := ha.tail
    obtain ⟨tail', ht', hm'⟩ := ha'.tail
    rw [ht] at ht'
    obtain rfl := some.inj ht'
    rw [hm] at hm'
    obtain rfl := some.inj hm'
    have hk := ha.kind.symm.trans ha'.kind
    exact ⟨rfl, (PipeKind.multiplexer.inj hk).symm⟩
  have hentry : ∀ origin s, EntryAt tree origin s →
      EntryAt (tree.addNextHop (.made m) hop) origin s := by
    intro origin s hat
    cases origin with
    | driver n => exact hat
    | attach name' index =>
      obtain ⟨mpx', hops', ha', hindex⟩ := hat
      by_cases heq : name' = name
      · subst heq
        obtain ⟨rfl, rfl⟩ := hunique mpx' hops' ha'
        refine ⟨_, _, hattached, ?_⟩
        rw [List.getElem?_append_left (List.getElem?_eq_some_iff.1 hindex).1, hindex]
      · exact ⟨mpx', hops', hattached' name' mpx' hops' heq ha', hindex⟩
  have hfreeHeld : ∀ s, Settled tree s → s ∉ held →
      Settled (tree.addNextHop (.made m) hop) s ∧ s ∉ held := fun s hs hheld =>
    ⟨hsettled s hs, hheld⟩
  refine ⟨?_, ⟨hsettled, hsame, hentry, fun _ _ ht => ht⟩, _, _, hattached, by
    rw [List.getElem?_append_right (Nat.le_refl _), Nat.sub_self]
    rfl⟩
  exact {
    kind := fun n => by rw [hobject, h.kind]
    used := fun n => by
      rw [hobject]
      exact h.used n
    unused := fun n hn => by
      rw [hobject]
      exact h.unused n hn
    inUse := fun s hs => hsettled s (h.inUse s hs)
    destination := fun name => (h.destination name).congr hfreeHeld fun s hs _ => hsame s hs
    noSource := fun name' hn => by
      by_cases heq : name' = name
      · subst heq
        rw [attach_sources_self] at hn
        cases hn
      · exact h.noSource name' ((attach_sources_of_ne heq _ _).symm.trans hn)
    attached := fun name' n hn => by
      by_cases heq : name' = name
      · subst heq
        rw [attach_sources_self] at hn
        exact ⟨_, _, hattached, by rw [List.length_append, List.length_singleton, some.inj hn]⟩
      · obtain ⟨mpx', hops', ha', hlen⟩ :=
          h.attached name' n ((attach_sources_of_ne heq _ _).symm.trans hn)
        exact ⟨mpx', hops', hattached' name' mpx' hops' heq ha', hlen⟩
    sourceTail := fun name tail ht => by
      obtain ⟨hset, hheld, m', hm, hlt⟩ := h.sourceTail name tail ht
      exact ⟨hsettled tail hset, hheld, m', (hnext tail).trans hm, hlt⟩
    distinct := fun name name' tail tail' mpx ht ht' hm hm' =>
      h.distinct name name' tail tail' mpx ht ht' ((hnext tail).symm.trans hm)
        ((hnext tail').symm.trans hm')
    group := fun group hg => (h.group group hg).congr hfreeHeld (fun s hs _ => hsame s hs) hentry
      fun _ _ ht => ht }

/-- What changes when a source is compiled: the multiplexer is put behind its tail. -/
structure AddsSource (tree tree' : CfgTree M) (name : String) (tail mpx attach : PipeId) : Prop where
  aux : tree'.aux .source = Function.update (tree.aux .source) name (some tail)
  destination : tree'.aux .destination = tree.aux .destination
  made : tree'.made = tree.made
  appended : tree'.pipes tail = { tree.pipes tail with pipeNext := some mpx }
  hops : tree'.pipes mpx = .ofKind (.multiplexer [attach])
  other : ∀ s, s ≠ tail → s ≠ mpx → tree'.pipes s = tree.pipes s

theorem Inv.addSource {before : CfgTree M} {name : String} {m : Nat} {attach : PipeId}
    {entries : List (Entry M)} (h : Inv objects tree plan held) (hgrows : Grows before tree)
    (hs : AddsSource tree tree' name tail (.made m) attach) (hname : plan.sources name = none)
    (htail : tail ∈ held) (hmpx : .made m ∈ held) (hne : tail ≠ .made m) (htailNew : ¬Settled before tail)
    (hmpxNew : ¬Settled before (.made m)) (hsub : held' ⊆ held) (htail' : tail ∉ held')
    (hmpx' : .made m ∉ held') (hregion : ∀ s ∈ region, Settled tree s ∧ s ∉ held' ∧ s ≠ .made m)
    (hin : tail ∈ region) (hentries : ∀ entry ∈ entries, EntryOk tree region tail entry) :
    Inv objects tree' ({ plan with groups := plan.groups ++ [(some name, entries)] }.attach name 0).2
        held' ∧ Grows before tree' ∧ EntryAt tree' (.attach name 0) attach := by
  have hnone : tree.aux .source name = none := h.noSource name hname
  have haux : ∀ name' tail', tree.aux .source name' = some tail' →
      name' ≠ name ∧ tree'.aux .source name' = some tail' := by
    intro name' tail' ht
    have hne' : name' ≠ name := by
      rintro rfl
      rw [hnone] at ht
      cases ht
    exact ⟨hne', by rw [hs.aux, update_of_ne hne', ht]⟩
  have haux' : tree'.aux .source name = some tail := by rw [hs.aux, update_self]
  have hself : (tree'.pipes tail).pipeNext = some (.made m) := by rw [hs.appended]
  have hkept : ∀ name' tail', tree.aux .source name' = some tail' →
      tree'.pipes tail' = tree.pipes tail' := by
    intro name' tail' ht
    obtain ⟨-, hheld, -⟩ := h.sourceTail name' tail' ht
    exact hs.other tail' (fun heq => hheld (heq ▸ htail)) fun heq => hheld (heq ▸ hmpx)
  have hmpxs : ∀ s, SourceMpx tree' s ↔ SourceMpx tree s ∨ s = .made m := by
    intro s
    constructor
    · rintro ⟨name', tail', ht, hm⟩
      by_cases heq : name' = name
      · rw [heq, haux'] at ht
        obtain rfl := some.inj ht
        rw [hself] at hm
        exact .inr (some.inj hm).symm
      · rw [hs.aux, update_of_ne heq] at ht
        exact .inl ⟨name', tail', ht, by rw [← hkept name' tail' ht, hm]⟩
    · rintro (⟨name', tail', ht, hm⟩ | rfl)
      · exact ⟨name', tail', (haux name' tail' ht).2, by rw [hkept name' tail' ht, hm]⟩
      · exact ⟨name, tail, haux', hself⟩
  have hinlined : ∀ n, (tree'.pipes (.object n)).inlined = (tree.pipes (.object n)).inlined ∧
      (tree'.pipes (.object n)).kind = (tree.pipes (.object n)).kind := by
    intro n
    by_cases heq : PipeId.object n = tail
    · rw [heq, hs.appended]
      exact ⟨rfl, rfl⟩
    · rw [hs.other _ heq nofun]
      exact ⟨rfl, rfl⟩
  have hsettled : ∀ s, Settled tree s → s ≠ .made m → Settled tree' s := by
    intro s hset hsm
    cases s with
    | object n =>
      show (tree'.pipes _).inlined = true
      rw [(hinlined n).1]
      exact hset
    | made n =>
      exact ⟨hs.made.symm ▸ hset.1, fun hm => ((hmpxs _).1 hm).elim hset.2 hsm⟩
  have hfree : ∀ s, Settled tree s → s ∉ held → Settled tree' s ∧ s ∉ held' := by
    intro s hset hheld
    exact ⟨hsettled s hset fun heq => hheld (heq ▸ hmpx), fun hmem => hheld (hsub hmem)⟩
  have hsame : ∀ s, Settled tree s → s ∉ held → tree'.pipes s = tree.pipes s := fun s _ hheld =>
    hs.other s (fun heq => hheld (heq ▸ htail)) fun heq => hheld (heq ▸ hmpx)
  have hattached : Attached tree' name (.made m) [attach] :=
    ⟨⟨tail, haux', hself⟩, by rw [hs.hops]; rfl, by rw [hs.hops]; rfl, by rw [hs.hops]; rfl⟩
  have hattached' : ∀ name' mpx' hops', Attached tree name' mpx' hops' →
      Attached tree' name' mpx' hops' := by
    intro name' mpx' hops' ha
    obtain ⟨tail', ht, hm⟩ := ha.tail
    have hfreeMpx := (h.ne_mpx ha).1
    have heq : tree'.pipes mpx' = tree.pipes mpx' := by
      refine hs.other mpx' ?_ ?_
      · rintro rfl
        exact hfreeMpx (h.inUse _ htail)
      · rintro rfl
        exact hfreeMpx (h.inUse _ hmpx)
    exact ⟨⟨tail', (haux name' tail' ht).2, by rw [hkept name' tail' ht, hm]⟩, by rw [heq, ha.kind],
      by rw [heq, ha.next], by rw [heq, ha.flags]⟩
  have hentry : ∀ origin s, EntryAt tree origin s → EntryAt tree' origin s := by
    intro origin s hat
    cases origin with
    | driver n => exact hat
    | attach name' index =>
      obtain ⟨mpx', hops', ha, hindex⟩ := hat
      exact ⟨mpx', hops', hattached' name' mpx' hops' ha, hindex⟩
  have hsource : ∀ name' tail', tree.aux .source name' = some tail' →
      tree'.aux .source name' = some tail' := fun name' tail' ht => (haux name' tail' ht).2
  refine ⟨?_, ⟨?_, ?_, ?_, ?_⟩, _, _, hattached, rfl⟩
  · exact {
      kind := fun n => by rw [(hinlined n).2, h.kind]
      used := fun n => by
        rw [(hinlined n).1]
        exact h.used n
      unused := fun n hn => by
        have hnot : PipeId.object n ≠ tail := by
          rintro rfl
          have hin : (tree.pipes (.object n)).inlined = true := h.inUse _ htail
          rw [h.used] at hin
          exact Bool.false_ne_true (hn.symm.trans hin)
        rw [hs.other _ hnot nofun]
        exact h.unused n hn
      inUse := fun s hmem => hsettled s (h.inUse s (hsub hmem)) fun heq => hmpx' (heq ▸ hmem)
      destination := fun name => by
        rw [hs.destination]
        exact (h.destination name).congr hfree hsame
      noSource := fun name' hn => by
        by_cases heq : name' = name
        · subst heq
          rw [attach_sources_self] at hn
          cases hn
        · rw [hs.aux, update_of_ne heq]
          exact h.noSource name' ((attach_sources_of_ne heq _ _).symm.trans hn)
      attached := fun name' n hn => by
        by_cases heq : name' = name
        · subst heq
          rw [attach_sources_self] at hn
          exact ⟨_, _, hattached, some.inj hn⟩
        · obtain ⟨mpx', hops', ha, hlen⟩ :=
            h.attached name' n ((attach_sources_of_ne heq _ _).symm.trans hn)
          exact ⟨mpx', hops', hattached' name' mpx' hops' ha, hlen⟩
      sourceTail := fun name' tail' ht => by
        by_cases heq : name' = name
        · rw [heq, haux'] at ht
          obtain rfl := some.inj ht
          exact ⟨hsettled _ (h.inUse _ htail) hne, htail', m, hself, by
            have hlt := (h.inUse _ hmpx).1
            rw [hs.made]
            exact hlt⟩
        · rw [hs.aux, update_of_ne heq] at ht
          obtain ⟨hset, hheld, m', hm, hlt⟩ := h.sourceTail name' tail' ht
          exact ⟨(hfree tail' hset hheld).1, (hfree tail' hset hheld).2, m',
            by rw [hkept name' tail' ht, hm], by rw [hs.made]; exact hlt⟩
      distinct := fun name1 name2 tail1 tail2 mpx ht1 ht2 hm1 hm2 => by
        -- the multiplexer is none of those that there were
        have hnew : ∀ name' tail', tree.aux .source name' = some tail' →
            (tree'.pipes tail').pipeNext ≠ some (.made m) := by
          intro name' tail' ht hm
          rw [hkept name' tail' ht] at hm
          exact (h.inUse _ hmpx).2 ⟨name', tail', ht, hm⟩
        by_cases heq1 : name1 = name
        · by_cases heq2 : name2 = name
          · rw [heq1, heq2]
          · rw [heq1, haux'] at ht1
            obtain rfl := some.inj ht1
            rw [hself] at hm1
            obtain rfl := some.inj hm1
            rw [hs.aux, update_of_ne heq2] at ht2
            exact absurd hm2 (hnew name2 tail2 ht2)
        · rw [hs.aux, update_of_ne heq1] at ht1
          by_cases heq2 : name2 = name
          · rw [heq2, haux'] at ht2
            obtain rfl := some.inj ht2
            rw [hself] at hm2
            obtain rfl := some.inj hm2
            exact absurd hm1 (hnew name1 tail1 ht1)
          · rw [hs.aux, update_of_ne heq2] at ht2
            exact h.distinct name1 name2 tail1 tail2 mpx ht1 ht2 (by rw [← hkept name1 tail1 ht1, hm1])
              (by rw [← hkept name2 tail2 ht2, hm2])
      group := fun group hg => by
        rcases List.mem_append.1 hg with hg | hg
        · exact (h.group group hg).congr hfree hsame hentry hsource
        · obtain rfl := List.mem_singleton.1 hg
          refine ⟨region, tail, fun s hs' => ⟨hsettled s (hregion s hs').1 (hregion s hs').2.2,
            (hregion s hs').2.1⟩, hin, haux', fun entry hmem => ?_⟩
          obtain ⟨s, hsr, hat, hflags, htakes⟩ := (hentries entry hmem).pipe
          have hpipe : ∀ s ∈ region, (tree'.pipes s).kind = (tree.pipes s).kind ∧
              (s ≠ tail → (tree'.pipes s).pipeNext = (tree.pipes s).pipeNext) ∧
              (tree'.pipes s).flags = (tree.pipes s).flags := by
            intro s hsr
            by_cases heq : s = tail
            · rw [heq, hs.appended]
              exact ⟨rfl, fun hne => absurd rfl hne, rfl⟩
            · rw [hs.other s heq (hregion s hsr).2.2]
              exact ⟨rfl, fun _ => rfl, rfl⟩
          refine ⟨s, hsr, hentry _ _ hat, (hpipe s hsr).2.2.trans hflags, fun pipes' hfits =>
            htakes pipes' fun i hi => ?_⟩
          obtain ⟨hk, hn, hf⟩ := hfits i hi
          obtain ⟨hk', hn', hf'⟩ := hpipe i hi
          exact ⟨hk.trans hk', fun hne => (hn hne).trans (hn' hne), fun hne => (hf hne).trans hf'⟩ }
  · exact fun s hset => hsettled s (hgrows.settled s hset) fun heq => hmpxNew (heq ▸ hset)
  · intro s hset
    rw [hs.other s (fun heq => htailNew (heq ▸ hset)) (fun heq => hmpxNew (heq ▸ hset)), hgrows.same s hset]
  · exact fun origin s hat => hentry origin s (hgrows.entry origin s hat)
  · exact fun name' tail' ht => hsource name' tail' (hgrows.source name' tail' ht)

end

end SyslogNg.CfgTree
