import SyslogNg.DbParser.PatternDbActions

/-!
# What it means to track the contexts

`held key history` are the messages of a key since its last context expired, the newest first.
`TracksExactly` is what the state must be like; `Tracked` is the invariant that gives it, with what
the code relies on besides: a context is referenced by the table and by its timer, and a context
that is not in the table has been freed.
-/

namespace SyslogNg.DbParser

open Lib Time List
open SyslogFormat (LogMessage NVHandle)

/-- The rule's scope and the context id, and as the scope demands host, program and pid, are those
of the key. -/
structure Belongs (key : PDBStateKey) (a : Arrival) : Prop where
  scope : a.rule.contextScope = key.scope
  contextId : a.rule.contextIdTemplate.map (fun template => cString (template a.msg)) =
    some key.sessionId
  host : key.scope ≠ .global → key.host = some (cString (a.msg.getValue .host))
  program : key.scope = .program ∨ key.scope = .process →
    key.program = some (cString (a.msg.getValue .program))
  pid : key.scope = .process → key.pid = some (cString (a.msg.getValue .pid))

instance (key : PDBStateKey) (a : Arrival) : Decidable (Belongs key a) :=
  decidable_of_iff (a.rule.contextScope = key.scope ∧
    a.rule.contextIdTemplate.map (fun template => cString (template a.msg)) = some key.sessionId ∧
    (key.scope ≠ .global → key.host = some (cString (a.msg.getValue .host))) ∧
    (key.scope = .program ∨ key.scope = .process →
      key.program = some (cString (a.msg.getValue .program))) ∧
    (key.scope = .process → key.pid = some (cString (a.msg.getValue .pid))))
    ⟨fun ⟨h1, h2, h3, h4, h5⟩ => ⟨h1, h2, h3, h4, h5⟩, fun ⟨h1, h2, h3, h4, h5⟩ => ⟨h1, h2, h3, h4, h5⟩⟩

/-- The messages of a key since its last context expired, the newest first. -/
def held (key : PDBStateKey) : List PDBEvent → List Arrival
  | [] => []
  | .arrived a :: older => if Belongs key a then a :: held key older else held key older
  | .expired _ gone _ :: older => if pdbStateKeyEqual gone key then [] else held key older
  | .timeoutActions _ :: older => held key older
  | .emitted _ _ :: older => held key older

/-- The context of `last` is to expire at `time`. -/
def DueAt (time : Nat) (last : Arrival) : Prop :=
  (time : Int) = last.now + last.rule.contextTimeout

/-- Each context expired at the time of its last message plus the timeout of the rule. -/
def OnTime : List PDBEvent → Prop
  | [] => True
  | .expired _ key now :: older => (∃ last ∈ (held key older).head?, DueAt now last) ∧ OnTime older
  | .arrived _ :: older => OnTime older
  | .timeoutActions _ :: older => OnTime older
  | .emitted _ _ :: older => OnTime older

def PDBEvent.isTimeoutOf (ctx : Nat) : PDBEvent → Bool
  | .timeoutActions c => c == ctx
  | _ => false

/-- How often the timeout actions of a context have been run. -/
def timeoutRuns (ctx : Nat) (history : List PDBEvent) : Nat :=
  history.countP (PDBEvent.isTimeoutOf ctx)

def Expired (ctx : Nat) (history : List PDBEvent) : Prop := ∃ key now, .expired ctx key now ∈ history

/-- The contexts are those the messages ask for, each with one timer; the timeout actions are run
when a context expires, if there is an emit function that takes what they make. -/
structure TracksExactly (s : PatternDB) : Prop where
  timerOfContext : ∀ key ctx, (key, .context ctx) ∈ s.state →
    ∃! entry, entry ∈ s.timers ∧ entry.timer = ctx
  contextOfTimer : ∀ entry ∈ s.timers, ∃! key, (key, .context entry.timer) ∈ s.state
  timersOnce : (s.timers.map (·.timer)).Nodup
  messages : ∀ key ctx, (key, .context ctx) ∈ s.state → ∃ context, s.contexts ctx = some context ∧
    context.key = key ∧ context.messages = (held key s.history).reverse.map (·.ref)
  complete : ∀ key : PDBStateKey, key.type = .context → held key s.history ≠ [] →
    ∃ ctx, s.lookup key = some (.context ctx)
  target : ∀ key ctx, (key, .context ctx) ∈ s.state → ∀ entry ∈ s.timers, entry.timer = ctx →
    s.now ≤ entry.target ∧ ∃ last ∈ (held key s.history).head?, DueAt entry.target last
  onTime : OnTime s.history
  runsOfExpired : ∀ ctx, Expired ctx s.history → timeoutRuns ctx s.history = s.emit.toNat
  runsOfOther : ∀ ctx, ¬ Expired ctx s.history → timeoutRuns ctx s.history = 0
  notExpired : ∀ key ctx, (key, .context ctx) ∈ s.state → ¬ Expired ctx s.history
  keysApart : s.state.Pairwise fun e f => pdbStateKeyEqual e.1 f.1 = false
  kindsApart : ∀ key ctx key' rl, (key, .context ctx) ∈ s.state → (key', .rateLimit rl) ∈ s.state →
    pdbStateKeyEqual key key' = false

/-! ## Belonging to a key -/

variable {key key' : PDBStateKey} {a : Arrival} {history events : List PDBEvent} {ctx : Nat}

theorem belongs_iff (htype : key.type = .context) :
    Belongs key a ↔ ∃ template, a.rule.contextIdTemplate = some template ∧
      key.normal = pdbStateKeySetup .context a.rule a.msg (cString (template a.msg)) := by
  obtain ⟨host, program, pid, sid, scope, type⟩ := key
  cases htype
  constructor
  · rintro ⟨hscope, hid, hhost, hprogram, hpid⟩
    obtain ⟨template, htemplate, hsid⟩ := Option.map_eq_some_iff.1 hid
    refine ⟨template, htemplate, ?_⟩
    unfold pdbStateKeySetup
    cases scope <;> simp_all [PDBStateKey.normal]
  · rintro ⟨template, htemplate, hkey⟩
    unfold pdbStateKeySetup at hkey
    cases scope <;> cases hscope : a.rule.contextScope <;>
      simp [PDBStateKey.normal, hscope] at hkey
    all_goals
      constructor
      all_goals simp_all

/-! ## Events that no context sees -/

/-- No message came and no context expired. -/
def PDBEvent.Quiet (event : PDBEvent) : Prop :=
  PatternDB.Emission event ∨ ∃ ctx, event = .timeoutActions ctx

theorem held_quiet (h : ∀ event ∈ events, event.Quiet) :
    held key (events ++ history) = held key history := by
  induction events with
  | nil => rfl
  | cons event events ih =>
    obtain ⟨hevent, hevents⟩ := forall_mem_cons.1 h
    obtain ⟨msg, synthetic, rfl⟩ | ⟨c, rfl⟩ := hevent
    · exact ih hevents
    · exact ih hevents

theorem onTime_quiet (h : ∀ event ∈ events, event.Quiet) :
    OnTime (events ++ history) ↔ OnTime history := by
  induction events with
  | nil => exact .rfl
  | cons event events ih =>
    obtain ⟨hevent, hevents⟩ := forall_mem_cons.1 h
    obtain ⟨msg, synthetic, rfl⟩ | ⟨c, rfl⟩ := hevent
    · exact ih hevents
    · exact ih hevents

theorem expired_quiet (h : ∀ event ∈ events, event.Quiet) :
    Expired ctx (events ++ history) ↔ Expired ctx history := by
  constructor
  · rintro ⟨key, now, hmem⟩
    obtain hmem | hmem := mem_append.1 hmem
    · obtain ⟨msg, synthetic, heq⟩ | ⟨c, heq⟩ := h _ hmem
      · cases heq
      · cases heq
    · exact ⟨key, now, hmem⟩
  · rintro ⟨key, now, hmem⟩
    exact ⟨key, now, mem_append_right _ hmem⟩

theorem timeoutRuns_emissions (h : ∀ event ∈ events, PatternDB.Emission event) :
    timeoutRuns ctx (events ++ history) = timeoutRuns ctx history := by
  unfold timeoutRuns
  have hnone : events.countP (PDBEvent.isTimeoutOf ctx) = 0 := countP_eq_zero.2 fun event he => by
    obtain ⟨msg, synthetic, rfl⟩ := h event he
    simp [PDBEvent.isTimeoutOf]
  rw [countP_append, hnone, Nat.zero_add]

theorem timeoutRuns_cons (event : PDBEvent) :
    timeoutRuns ctx (event :: history) =
      timeoutRuns ctx history + (event.isTimeoutOf ctx).toNat := by
  unfold timeoutRuns
  rw [countP_cons]
  cases event.isTimeoutOf ctx <;> rfl

/-! ## The invariant -/

/-- The context of an entry of the table, and its timer. -/
structure Kept (s : PatternDB) (key : PDBStateKey) (ctx : Nat) (context : PDBContext) (last : Arrival)
    (older : List Arrival) : Prop where
  live : s.contexts ctx = some context
  ofKey : context.key = key
  refCnt : context.refCnt = 2
  timer : context.timer = true
  rule : context.rule = some last.rule
  contents : held key s.history = last :: older
  messages : context.messages = (last :: older).reverse.map (·.ref)
  target : ∃ entry ∈ s.timers, entry.timer = ctx ∧ DueAt entry.target last

structure Tracked (s : PatternDB) : Prop where
  table : TableOk s.state
  kept : ∀ key ctx, (key, .context ctx) ∈ s.state → ∃ context last older, Kept s key ctx context last older
  timers : ∀ entry ∈ s.timers, ∃ key, (key, .context entry.timer) ∈ s.state
  timersOnce : (s.timers.map (·.timer)).Nodup
  ahead : ∀ entry ∈ s.timers, s.now ≤ entry.target
  complete : ∀ key : PDBStateKey, key.type = .context → held key s.history ≠ [] →
    ∃ found ctx, (found, .context ctx) ∈ s.state ∧ pdbStateKeyEqual found key = true
  old : ∀ key ctx, (key, .context ctx) ∈ s.state → ctx < s.nextContext
  oldExpired : ∀ ctx, Expired ctx s.history → ctx < s.nextContext
  notExpired : ∀ key ctx, (key, .context ctx) ∈ s.state → ¬ Expired ctx s.history
  onTime : OnTime s.history
  runsOfExpired : ∀ ctx, Expired ctx s.history → timeoutRuns ctx s.history = s.emit.toNat
  runsOfOther : ∀ ctx, ¬ Expired ctx s.history → timeoutRuns ctx s.history = 0

namespace Tracked

variable {s t : PatternDB} {entry : TWEntry}

theorem entry_unique (h : (s.timers.map (·.timer)).Nodup) {entry' : TWEntry} (he : entry ∈ s.timers)
    (he' : entry' ∈ s.timers) (heq : entry.timer = entry'.timer) : entry = entry' :=
  inj_on_of_nodup_map h he he' heq

theorem key_unique (h : Tracked s) (hmem : (key, .context ctx) ∈ s.state)
    (hmem' : (key', .context ctx) ∈ s.state) : key = key' := by
  obtain ⟨context, last, older, hkept⟩ := h.kept key ctx hmem
  obtain ⟨context', last', older', hkept'⟩ := h.kept key' ctx hmem'
  have hsame : context = context' := Option.some.inj (hkept.live.symm.trans hkept'.live)
  rw [← hkept.ofKey, hsame, hkept'.ofKey]

theorem tracksExactly (h : Tracked s) : TracksExactly s where
  timerOfContext := by
    intro key ctx hmem
    obtain ⟨context, last, older, hkept⟩ := h.kept key ctx hmem
    obtain ⟨entry, he, htimer, -⟩ := hkept.target
    refine ⟨entry, ⟨he, htimer⟩, fun entry' ⟨he', htimer'⟩ => ?_⟩
    exact entry_unique h.timersOnce he' he (htimer'.trans htimer.symm)
  contextOfTimer := by
    intro entry he
    obtain ⟨key, hmem⟩ := h.timers entry he
    exact ⟨key, hmem, fun key' hmem' => h.key_unique hmem' hmem⟩
  timersOnce := h.timersOnce
  messages := by
    intro key ctx hmem
    obtain ⟨context, last, older, hkept⟩ := h.kept key ctx hmem
    exact ⟨context, hkept.live, hkept.ofKey, by rw [hkept.messages, hkept.contents]⟩
  complete := by
    intro key htype hheld
    obtain ⟨found, ctx, hmem, heq⟩ := h.complete key htype hheld
    exact ⟨ctx, PatternDB.lookup_of_mem h.table hmem heq⟩
  target := by
    intro key ctx hmem entry he htimer
    obtain ⟨context, last, older, hkept⟩ := h.kept key ctx hmem
    obtain ⟨entry', he', htimer', hdue⟩ := hkept.target
    have hsame := entry_unique h.timersOnce he he' (htimer.trans htimer'.symm)
    refine ⟨h.ahead entry he, last, ?_, hsame ▸ hdue⟩
    rw [hkept.contents, head?_cons]
    rfl
  onTime := h.onTime
  runsOfExpired := h.runsOfExpired
  runsOfOther := h.runsOfOther
  notExpired := h.notExpired
  keysApart := h.table.apart
  kindsApart := by
    intro key ctx key' rl hmem hmem'
    refine pdbStateKeyEqual_false_iff.2 fun heq => ?_
    have hkind := h.table.kinds _ hmem
    have hkind' := (h.table.kinds _ hmem').1
    rw [EntryOk, type_eq_of_normal heq, hkind'] at hkind
    cases hkind

theorem new (lastTick : GTimeVal) (emit : Bool) : Tracked (patternDbNew lastTick emit) where
  table := .nil
  kept := fun _ _ h => (not_mem_nil h).elim
  timers := fun _ h => (not_mem_nil h).elim
  timersOnce := nodup_nil
  ahead := fun _ h => (not_mem_nil h).elim
  complete := fun _ _ h => (h rfl).elim
  old := fun _ _ h => (not_mem_nil h).elim
  oldExpired := fun _ ⟨_, _, h⟩ => (not_mem_nil h).elim
  notExpired := fun _ _ h => (not_mem_nil h).elim
  onTime := trivial
  runsOfExpired := fun _ ⟨_, _, h⟩ => (not_mem_nil h).elim
  runsOfOther := fun _ _ => rfl

theorem frame (h : Tracked s) (hf : PatternDB.ActionsFrame s t) : Tracked t := by
  obtain ⟨events, hhistory, hemissions⟩ := hf.history
  have hquiet : ∀ event ∈ events, event.Quiet := fun event he => .inl (hemissions event he)
  have hheld : ∀ key, held key t.history = held key s.history := fun key => by
    rw [hhistory, held_quiet hquiet]
  have hexpired : ∀ ctx, Expired ctx t.history ↔ Expired ctx s.history := fun ctx => by
    rw [hhistory, expired_quiet hquiet]
  have hruns : ∀ ctx, timeoutRuns ctx t.history = timeoutRuns ctx s.history := fun ctx => by
    rw [hhistory, timeoutRuns_emissions hemissions]
  constructor
  · exact hf.table h.table
  · intro key ctx hmem
    obtain ⟨context, last, older, hkept⟩ := h.kept key ctx ((hf.entries key ctx).1 hmem)
    refine ⟨context, last, older, ?_, hkept.ofKey, hkept.refCnt, hkept.timer, hkept.rule, ?_,
      hkept.messages, ?_⟩
    · rw [hf.contexts]
      exact hkept.live
    · rw [hheld]
      exact hkept.contents
    · rw [hf.timers]
      exact hkept.target
  · intro entry he
    obtain ⟨key, hmem⟩ := h.timers entry (hf.timers ▸ he)
    exact ⟨key, (hf.entries key _).2 hmem⟩
  · rw [hf.timers]
    exact h.timersOnce
  · rw [hf.timers, hf.now]
    exact h.ahead
  · intro key htype hne
    rw [hheld] at hne
    obtain ⟨found, ctx, hmem, heq⟩ := h.complete key htype hne
    exact ⟨found, ctx, (hf.entries found ctx).2 hmem, heq⟩
  · intro key ctx hmem
    rw [hf.nextContext]
    exact h.old key ctx ((hf.entries key ctx).1 hmem)
  · intro ctx hgone
    rw [hf.nextContext]
    exact h.oldExpired ctx ((hexpired ctx).1 hgone)
  · intro key ctx hmem
    rw [hexpired]
    exact h.notExpired key ctx ((hf.entries key ctx).1 hmem)
  · rw [hhistory, onTime_quiet hquiet]
    exact h.onTime
  · intro ctx hgone
    rw [hruns, hf.emit]
    exact h.runsOfExpired ctx ((hexpired ctx).1 hgone)
  · intro ctx hgone
    rw [hruns]
    exact h.runsOfOther ctx ((hexpired ctx).not.1 hgone)

theorem setNow (h : Tracked s) {now : Nat} (hnow : ∀ entry ∈ s.timers, now ≤ entry.target) :
    Tracked { s with now := now } where
  table := h.table
  kept := fun key ctx hmem => by
    obtain ⟨context, last, older, hkept⟩ := h.kept key ctx hmem
    exact ⟨context, last, older, hkept.live, hkept.ofKey, hkept.refCnt, hkept.timer, hkept.rule,
      hkept.contents, hkept.messages, hkept.target⟩
  timers := h.timers
  timersOnce := h.timersOnce
  ahead := hnow
  complete := h.complete
  old := h.old
  oldExpired := h.oldExpired
  notExpired := h.notExpired
  onTime := h.onTime
  runsOfExpired := h.runsOfExpired
  runsOfOther := h.runsOfOther

theorem setLastTick (h : Tracked s) (lastTick : GTimeVal) : Tracked { s with lastTick := lastTick } :=
  h.frame (.of_state rfl rfl rfl rfl rfl rfl ⟨[], rfl, fun _ he => (not_mem_nil he).elim⟩)

end Tracked

end SyslogNg.DbParser
