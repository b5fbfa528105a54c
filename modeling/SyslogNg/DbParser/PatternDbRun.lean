import SyslogNg.DbParser.PatternDbTracking

/-!
# The contexts over whole runs

What firing a timer does (`Fired`) and what a message does (`Arrived`) keep the invariant, and so
does every operation, if the sum of time and timeout stays below `2 ^ 64` where a timer is set. It
does not where the timestamp is before 1970: the negative `tv_sec` becomes a time at the end of
the `guint64`, and the target of a timer set then is a small number the wheel has long passed.
-/

namespace SyslogNg.DbParser

open Lib Time List Function
open Option hiding map map_map
open SyslogFormat (LogMessage NVHandle)
open List (mem_cons mem_map)
open Option (bind_eq_some_iff)

variable {s t self : PatternDB} {W : Platform} {key : PDBStateKey} {ctx : Nat} {entry : TWEntry}

namespace PatternDB

/-! ## A timer is fired -/

variable {context : PDBContext}

theorem contextUnref_shared (hctx : self.contexts ctx = some context)
    (hcnt : context.refCnt = 2) :
    self.contextUnref ctx = some (self.setContext ctx (some { context with refCnt := 1 })) := by
  simp [contextUnref, hctx, hcnt]

theorem contextUnref_last (self : PatternDB) (hcnt : context.refCnt = 1)
    (timers : List TWEntry) :
    { self.setContext ctx (some context) with timers := timers }.contextUnref ctx =
      some ({ self.setContext ctx (some context) with timers := timers }.setContext ctx none) := by
  simp [contextUnref, setContext, hcnt]

theorem remove_context (htable : TableOk self.state) (hmem : (key, .context ctx) ∈ self.state)
    (hctx : self.contexts ctx = some context) (hcnt : context.refCnt = 2) :
    self.remove key = some
      ({ self with state := self.state.filter fun e => !pdbStateKeyEqual e.1 key }.setContext ctx
        (some { context with refCnt := 1 })) := by
  rw [remove, lookup_of_mem htable hmem (pdbStateKeyEqual_refl key)]
  exact contextUnref_shared hctx hcnt

/-- `t` is `s` after `entry` was fired and with it the context of `key` gone. -/
structure Fired (s : PatternDB) (key : PDBStateKey) (entry : TWEntry) (t : PatternDB) : Prop where
  contexts : ∀ ctx, ctx ≠ entry.timer → t.contexts ctx = s.contexts ctx
  nextContext : t.nextContext = s.nextContext
  emit : t.emit = s.emit
  now : t.now = entry.target
  timers : t.timers = s.timers.erase entry
  entries : ∀ found ctx, (found, .context ctx) ∈ t.state ↔
    (found, .context ctx) ∈ s.state ∧ pdbStateKeyEqual found key = false
  table : TableOk t.state
  history : ∃ events, t.history = .expired entry.timer key entry.target :: (events ++ s.history) ∧
    (∀ event ∈ events, event.Quiet) ∧ ∀ ctx, timeoutRuns ctx (events ++ s.history) =
      timeoutRuns ctx s.history + if entry.timer = ctx then s.emit.toNat else 0

/-- The event of the timeout actions: they are run if there is an emit function. -/
def timeoutEvents (emit : Bool) (ctx : Nat) : List PDBEvent :=
  if emit then [.timeoutActions ctx] else []

theorem quiet_timeoutEvents {emit : Bool} : ∀ event ∈ timeoutEvents emit ctx, event.Quiet := by
  intro event he
  unfold timeoutEvents at he
  split at he
  · exact .inr ⟨ctx, mem_singleton.1 he⟩
  · exact (not_mem_nil he).elim

theorem timeoutRuns_timeoutEvents {emit : Bool} (ctx' : Nat) (history : List PDBEvent) :
    timeoutRuns ctx' (timeoutEvents emit ctx ++ history) =
      timeoutRuns ctx' history + if ctx = ctx' then emit.toNat else 0 := by
  cases emit with
  | false => simp [timeoutEvents]
  | true =>
    refine (timeoutRuns_cons _).trans ?_
    by_cases heq : ctx = ctx' <;> simp [PDBEvent.isTimeoutOf, heq]

theorem runTimeoutActions_frame {context : PDBContext} (hself : TableOk self.state)
    (h : self.runTimeoutActions W ctx context = some t) :
    ActionsFrame { self with history := timeoutEvents self.emit ctx ++ self.history } t := by
  obtain ⟨rule, -, h⟩ := bind_eq_some_iff.1 h
  obtain ⟨last, -, h⟩ := bind_eq_some_iff.1 h
  unfold timeoutEvents
  split at h
  case isTrue hemit =>
    rw [if_pos hemit]
    exact runActions_frame hself h
  case isFalse hemit =>
    rw [if_neg hemit]
    cases h
    exact .refl _

theorem fire_fired (h : Tracked s) (he : entry ∈ s.timers) (hfire : s.fire W entry = some t) :
    ∃ key, (key, .context entry.timer) ∈ s.state ∧ Fired s key entry t := by
  obtain ⟨key, hmem⟩ := h.timers entry he
  obtain ⟨context, last, older, hkept⟩ := h.kept key _ hmem
  refine ⟨key, hmem, ?_⟩
  obtain ⟨removed, hexpire, hfire⟩ := bind_eq_some_iff.1 hfire
  obtain ⟨context', hcontext, hexpire⟩ := bind_eq_some_iff.1 hexpire
  obtain ⟨ran, hran, hexpire⟩ := bind_eq_some_iff.1 hexpire
  have hsame : context' = context := some.inj (hcontext.symm.trans hkept.live)
  rw [hsame] at hran hexpire
  rw [hkept.ofKey] at hexpire
  have hframe := @runTimeoutActions_frame ran { s with now := entry.target } W _ _ h.table hran
  obtain ⟨events, hhistory, hemissions⟩ := hframe.history
  have hcontexts : ran.contexts = s.contexts := hframe.contexts
  have htable : TableOk (ran.record (.expired entry.timer key ran.now)).state :=
    hframe.table h.table
  -- the table still has the context, which loses one reference there and one with the timer
  have hlive : (ran.record (.expired entry.timer key ran.now)).contexts entry.timer = some context :=
    (congrFun hcontexts _).trans hkept.live
  have hentry : (key, .context entry.timer) ∈
      (ran.record (.expired entry.timer key ran.now)).state := (hframe.entries key _).2 hmem
  rw [remove_context htable hentry hlive hkept.refCnt] at hexpire
  cases hexpire
  rw [contextUnref_last _ rfl] at hfire
  cases hfire
  have hnow : ran.now = entry.target := hframe.now
  constructor
  · intro ctx hne
    simp [setContext, hne, hcontexts, record]
  · exact hframe.nextContext
  · exact hframe.emit
  · exact hnow
  · exact congrArg (·.erase entry) hframe.timers
  · intro found ctx
    have hentries : (found, .context ctx) ∈ ran.state ↔ (found, .context ctx) ∈ s.state :=
      hframe.entries found ctx
    rw [← hentries]
    simp [setContext, record]
  · exact htable.filter _
  · refine ⟨events ++ timeoutEvents s.emit entry.timer, ?_, fun event he => ?_, fun ctx => ?_⟩
    · rw [← hnow, append_assoc]
      exact congrArg _ hhistory
    · obtain he | he := mem_append.1 he
      · exact .inl (hemissions event he)
      · exact quiet_timeoutEvents event he
    · rw [append_assoc, timeoutRuns_emissions hemissions, timeoutRuns_timeoutEvents]

end PatternDB

open PatternDB

namespace Tracked

theorem fired (h : Tracked s) (he : entry ∈ s.timers) (hmem : (key, .context entry.timer) ∈ s.state)
    (hmin : ∀ e ∈ s.timers, entry.target ≤ e.target) (hf : Fired s key entry t) : Tracked t := by
  obtain ⟨events, hhistory, hquiet, hruns⟩ := hf.history
  have hother : ∀ found ctx, (found, .context ctx) ∈ s.state →
      pdbStateKeyEqual found key = false → ctx ≠ entry.timer := by
    rintro found ctx hfound hne rfl
    rw [h.key_unique hfound hmem, pdbStateKeyEqual_refl] at hne
    cases hne
  have hheld : ∀ found, pdbStateKeyEqual found key = false →
      held found t.history = held found s.history := fun found hne => by
    rw [pdbStateKeyEqual_comm] at hne
    simp only [hhistory, held, hne, Bool.false_eq_true, if_false, held_quiet hquiet]
  have hexpired : ∀ ctx, Expired ctx t.history ↔ ctx = entry.timer ∨ Expired ctx s.history := by
    intro ctx
    have hsame : Expired ctx (events ++ s.history) ↔ Expired ctx s.history := expired_quiet hquiet
    rw [← hsame, hhistory]
    constructor
    · rintro ⟨gone, now, hgone⟩
      obtain heq | hgone := mem_cons.1 hgone
      · cases heq
        exact .inl rfl
      · exact .inr ⟨gone, now, hgone⟩
    · rintro (rfl | ⟨gone, now, hgone⟩)
      · exact ⟨key, _, mem_cons_self⟩
      · exact ⟨gone, now, mem_cons_of_mem _ hgone⟩
  have hcount : ∀ ctx, timeoutRuns ctx t.history =
      timeoutRuns ctx s.history + if entry.timer = ctx then s.emit.toNat else 0 := fun ctx => by
    rw [hhistory, timeoutRuns_cons, hruns]
    rfl
  have hnodup : s.timers.Nodup := List.Nodup.of_map _ h.timersOnce
  constructor
  · exact hf.table
  · intro found ctx hfound
    obtain ⟨hfound, hne⟩ := (hf.entries found ctx).1 hfound
    have hctx := hother found ctx hfound hne
    obtain ⟨context, last, older, hkept⟩ := h.kept found ctx hfound
    obtain ⟨e, hemem, htimer, hdue⟩ := hkept.target
    refine ⟨context, last, older, ?_, hkept.ofKey, hkept.refCnt, hkept.timer, hkept.rule, ?_,
      hkept.messages, e, ?_, htimer, hdue⟩
    · rw [hf.contexts ctx hctx]
      exact hkept.live
    · rw [hheld found hne]
      exact hkept.contents
    · rw [hf.timers, mem_erase_of_ne]
      · exact hemem
      · rintro rfl
        exact hctx htimer.symm
  · intro e hemem
    rw [hf.timers, hnodup.mem_erase_iff] at hemem
    obtain ⟨found, hfound⟩ := h.timers e hemem.2
    refine ⟨found, (hf.entries found _).2 ⟨hfound, ?_⟩⟩
    rw [Bool.eq_false_iff]
    intro heq
    have hone := h.table.eq_of_equal hfound hmem heq
    have htimer : e.timer = entry.timer := by
      injection hone with _ hone
      injection hone
    exact hemem.1 (entry_unique h.timersOnce hemem.2 he htimer)
  · rw [hf.timers]
    exact h.timersOnce.sublist ((erase_sublist).map _)
  · intro e hemem
    rw [hf.timers] at hemem
    rw [hf.now]
    exact hmin e (mem_of_mem_erase hemem)
  · intro found htype hne
    have hkey : pdbStateKeyEqual found key = false := by
      rw [Bool.eq_false_iff]
      intro heq
      rw [pdbStateKeyEqual_comm] at heq
      simp [hhistory, held, heq] at hne
    rw [hheld found hkey] at hne
    obtain ⟨found', ctx, hfound, heq⟩ := h.complete found htype hne
    refine ⟨found', ctx, (hf.entries found' ctx).2 ⟨hfound, ?_⟩, heq⟩
    rw [pdbStateKeyEqual_false_iff] at hkey ⊢
    rwa [pdbStateKeyEqual_iff.1 heq]
  · intro found ctx hfound
    rw [hf.nextContext]
    exact h.old found ctx ((hf.entries found ctx).1 hfound).1
  · intro ctx hgone
    rw [hf.nextContext]
    obtain rfl | hgone := (hexpired ctx).1 hgone
    · exact h.old key _ hmem
    · exact h.oldExpired ctx hgone
  · intro found ctx hfound hgone
    obtain ⟨hfound, hne⟩ := (hf.entries found ctx).1 hfound
    obtain heq | hgone := (hexpired ctx).1 hgone
    · exact hother found ctx hfound hne heq
    · exact h.notExpired found ctx hfound hgone
  · obtain ⟨context, last, older, hkept⟩ := h.kept key _ hmem
    obtain ⟨e, hemem, htimer, hdue⟩ := hkept.target
    rw [entry_unique h.timersOnce hemem he htimer] at hdue
    rw [hhistory]
    refine ⟨⟨last, ?_, hdue⟩, (onTime_quiet hquiet).2 h.onTime⟩
    rw [held_quiet hquiet, hkept.contents]
    rfl
  · intro ctx hgone
    rw [hcount, hf.emit]
    obtain rfl | hgone := (hexpired ctx).1 hgone
    · rw [h.runsOfOther _ (h.notExpired key _ hmem), if_pos rfl, Nat.zero_add]
    · have hne : entry.timer ≠ ctx := by
        rintro rfl
        exact h.notExpired key _ hmem hgone
      rw [h.runsOfExpired ctx hgone, if_neg hne, Nat.add_zero]
  · intro ctx hgone
    rw [hexpired, not_or] at hgone
    rw [hcount, h.runsOfOther ctx hgone.2, if_neg (Ne.symm hgone.1)]

theorem fireAll {rest : List TWEntry} {newNow : Nat} (h : Tracked s)
    (hsorted : rest.Pairwise (·.target ≤ ·.target)) (hnodup : rest.Nodup)
    (hmem : ∀ e ∈ rest, e ∈ s.timers ∧ e.target < newNow)
    (hrest : ∀ e ∈ s.timers, e ∈ rest ∨ newNow ≤ e.target) (hfold : rest.foldlM (fire W) s = some t) :
    Tracked t ∧ ∀ e ∈ t.timers, newNow ≤ e.target := by
  induction rest generalizing s with
  | nil =>
    cases hfold
    exact ⟨h, fun e he => (hrest e he).resolve_left not_mem_nil⟩
  | cons entry rest ih =>
    rw [foldlM_cons] at hfold
    obtain ⟨u, hfire, hfold⟩ := bind_eq_some_iff.1 hfold
    obtain ⟨hle, hsorted⟩ := pairwise_cons.1 hsorted
    obtain ⟨hnew, hnodup⟩ := nodup_cons.1 hnodup
    obtain ⟨hentry, hmem⟩ := forall_mem_cons.1 hmem
    obtain ⟨key, hkey, hf⟩ := fire_fired h hentry.1 hfire
    have hmin : ∀ e ∈ s.timers, entry.target ≤ e.target := by
      intro e he
      obtain he | hlate := hrest e he
      · obtain rfl | he := mem_cons.1 he
        · exact le_rfl
        · exact hle e he
      · exact hentry.2.le.trans hlate
    have hu := h.fired hentry.1 hkey hmin hf
    have hall : s.timers.Nodup := List.Nodup.of_map _ h.timersOnce
    refine ih hu hsorted hnodup (fun e he => ⟨?_, (hmem e he).2⟩) (fun e he => ?_) hfold
    · rw [hf.timers, hall.mem_erase_iff]
      exact ⟨fun heq => hnew (heq ▸ he), (hmem e he).1⟩
    · rw [hf.timers, hall.mem_erase_iff] at he
      obtain hin | hlate := hrest e he.2
      · exact .inl ((mem_cons.1 hin).resolve_left he.1)
      · exact .inr hlate

theorem wheelSetTime {newNow : Nat} (h : Tracked s) (hset : s.wheelSetTime W newNow = some t) :
    Tracked t ∧ t.now = max s.now newNow ∧ ∀ e ∈ t.timers, s.now ≤ e.target := by
  unfold PatternDB.wheelSetTime at hset
  split at hset
  case isTrue hle =>
    cases hset
    exact ⟨h, (max_eq_left hle).symm, h.ahead⟩
  case isFalse hlt =>
    obtain ⟨u, hfold, hset⟩ := bind_eq_some_iff.1 hset
    cases hset
    have hperm := W.perm s.history (s.due newNow)
    have hdue : ∀ e, e ∈ s.due newNow ↔ e ∈ s.timers ∧ s.now ≤ e.target ∧ e.target < newNow :=
      fun e => by simp [due]
    have hall : s.timers.Nodup := List.Nodup.of_map _ h.timersOnce
    obtain ⟨hu, hlate⟩ := h.fireAll (W.sorted _ _) (hperm.nodup_iff.2 (hall.filter _))
      (fun e he => by
        obtain ⟨hmem, -, hbefore⟩ := (hdue e).1 (hperm.mem_iff.1 he)
        exact ⟨hmem, hbefore⟩)
      (fun e he => by
        rw [hperm.mem_iff, hdue, or_iff_not_imp_right, not_le]
        exact fun hbefore => ⟨he, h.ahead e he, hbefore⟩) hfold
    refine ⟨hu.setNow hlate, by dsimp only; omega, fun e he => ?_⟩
    have := hlate e he
    omega

end Tracked

/-! ## A message arrives -/

namespace PatternDB

/-- `t` is `s` after the message of `a` went into the context `ctx` of `key`. -/
structure Arrived (s : PatternDB) (key : PDBStateKey) (ctx : Nat) (a : Arrival) (t : PatternDB) :
    Prop where
  belongs : Belongs key a
  isContext : key.type = .context
  context : ∃ context, t.contexts ctx = some context ∧ context.key = key ∧ context.refCnt = 2 ∧
    context.timer = true ∧ context.rule = some a.rule ∧
    context.messages = (a :: held key s.history).reverse.map (·.ref)
  contexts : ∀ ctx', ctx' ≠ ctx → t.contexts ctx' = s.contexts ctx'
  entries : ∀ found ctx', (found, .context ctx') ∈ t.state ↔
    (found, .context ctx') ∈ s.state ∨ found = key ∧ ctx' = ctx
  owner : ∀ found, (found, .context ctx) ∈ s.state → found = key
  table : TableOk t.state
  timer : ∃ entry ∈ t.timers, entry.timer = ctx ∧ DueAt entry.target a
  timers : ∀ entry : TWEntry, entry.timer ≠ ctx → (entry ∈ t.timers ↔ entry ∈ s.timers)
  timersOnce : (t.timers.map (·.timer)).Nodup
  ahead : ∀ entry ∈ t.timers, entry.timer = ctx → t.now ≤ entry.target
  now : t.now = s.now
  emit : t.emit = s.emit
  old : ctx < t.nextContext ∧ s.nextContext ≤ t.nextContext
  notExpired : ¬ Expired ctx s.history
  history : t.history = .arrived a :: s.history

theorem wheelTarget_eq {timeout : Int} (hpos : 1 ≤ timeout) (hlt : self.now + timeout < 2 ^ 64) :
    (self.wheelTarget timeout : Int) = self.now + timeout := by
  unfold wheelTarget
  omega

end PatternDB

namespace Tracked

variable {a : Arrival}

theorem arrived (h : Tracked s) (ha : Arrived s key ctx a t) : Tracked t := by
  obtain ⟨context, hlive, hofKey, hcnt, htimer, hrule, hmessages⟩ := ha.context
  have hkey : (key, .context ctx) ∈ t.state := (ha.entries key ctx).2 (.inr ⟨rfl, rfl⟩)
  have hcons : held key t.history = a :: held key s.history := by
    rw [ha.history, held, if_pos ha.belongs]
  -- a message belongs to the contexts of one key only
  have hheld : ∀ found ctx', (found, .context ctx') ∈ t.state → found ≠ key →
      held found t.history = held found s.history := by
    intro found ctx' hfound hne
    rw [ha.history, held, if_neg]
    intro hbelongs
    obtain ⟨template, htemplate, hnormal⟩ := (belongs_iff ha.isContext).1 ha.belongs
    obtain ⟨template', htemplate', hnormal'⟩ := (belongs_iff (ha.table.kinds _ hfound)).1 hbelongs
    rw [htemplate] at htemplate'
    cases htemplate'
    have hone := ha.table.eq_of_equal hfound hkey (pdbStateKeyEqual_iff.2 (hnormal'.trans hnormal.symm))
    exact hne (congrArg Prod.fst hone)
  have hexpired : ∀ ctx', Expired ctx' t.history ↔ Expired ctx' s.history := by
    intro ctx'
    rw [ha.history]
    constructor
    · rintro ⟨gone, now, hgone⟩
      obtain heq | hgone := mem_cons.1 hgone
      · cases heq
      · exact ⟨gone, now, hgone⟩
    · rintro ⟨gone, now, hgone⟩
      exact ⟨gone, now, mem_cons_of_mem _ hgone⟩
  have hcount : ∀ ctx', timeoutRuns ctx' t.history = timeoutRuns ctx' s.history := fun ctx' => by
    rw [ha.history, timeoutRuns_cons]
    rfl
  constructor
  · exact ha.table
  · intro found ctx' hfound
    by_cases hne : found = key
    · subst hne
      have hctx : ctx' = ctx := by
        have hone := ha.table.eq_of_equal hfound hkey (pdbStateKeyEqual_refl _)
        injection hone with _ hone
        injection hone
      subst hctx
      exact ⟨context, a, held found s.history, hlive, hofKey, hcnt, htimer, hrule, hcons, hmessages,
        ha.timer⟩
    · have hold := ((ha.entries found ctx').1 hfound).resolve_right fun heq => hne heq.1
      have hctx : ctx' ≠ ctx := by
        rintro rfl
        exact hne (ha.owner found hold)
      obtain ⟨context', last, older, hkept⟩ := h.kept found ctx' hold
      obtain ⟨entry, he, htimer', hdue⟩ := hkept.target
      refine ⟨context', last, older, ?_, hkept.ofKey, hkept.refCnt, hkept.timer, hkept.rule, ?_,
        hkept.messages, entry, ?_, htimer', hdue⟩
      · rw [ha.contexts ctx' hctx]
        exact hkept.live
      · rw [hheld found ctx' hfound hne]
        exact hkept.contents
      · exact (ha.timers entry (htimer' ▸ hctx)).2 he
  · intro entry he
    by_cases heq : entry.timer = ctx
    · rw [heq]
      exact ⟨key, hkey⟩
    · obtain ⟨found, hfound⟩ := h.timers entry ((ha.timers entry heq).1 he)
      exact ⟨found, (ha.entries found _).2 (.inl hfound)⟩
  · exact ha.timersOnce
  · intro entry he
    by_cases heq : entry.timer = ctx
    · exact ha.ahead entry he heq
    · rw [ha.now]
      exact h.ahead entry ((ha.timers entry heq).1 he)
  · intro found htype hne
    by_cases hbelongs : Belongs found a
    · obtain ⟨template, htemplate, hnormal⟩ := (belongs_iff htype).1 hbelongs
      obtain ⟨template', htemplate', hnormal'⟩ := (belongs_iff ha.isContext).1 ha.belongs
      rw [htemplate] at htemplate'
      cases htemplate'
      exact ⟨key, ctx, hkey, pdbStateKeyEqual_iff.2 (hnormal'.trans hnormal.symm)⟩
    · rw [ha.history, held, if_neg hbelongs] at hne
      obtain ⟨found', ctx', hfound, heq⟩ := h.complete found htype hne
      exact ⟨found', ctx', (ha.entries found' ctx').2 (.inl hfound), heq⟩
  · intro found ctx' hfound
    obtain hold | ⟨-, rfl⟩ := (ha.entries found ctx').1 hfound
    · exact (h.old found ctx' hold).trans_le ha.old.2
    · exact ha.old.1
  · intro ctx' hgone
    exact (h.oldExpired ctx' ((hexpired ctx').1 hgone)).trans_le ha.old.2
  · intro found ctx' hfound
    rw [hexpired]
    obtain hold | ⟨-, rfl⟩ := (ha.entries found ctx').1 hfound
    · exact h.notExpired found ctx' hold
    · exact ha.notExpired
  · rw [ha.history]
    exact h.onTime
  · intro ctx' hgone
    rw [hcount, ha.emit]
    exact h.runsOfExpired ctx' ((hexpired ctx').1 hgone)
  · intro ctx' hgone
    rw [hcount]
    exact h.runsOfOther ctx' ((hexpired ctx').not.1 hgone)

theorem arrived_found (h : Tracked s) (hmem : (key, .context ctx) ∈ s.state) (hbelongs : Belongs key a)
    (hnow : a.now = s.now) (hpos : 1 ≤ a.rule.contextTimeout)
    (hlt : s.now + a.rule.contextTimeout < 2 ^ 64) (hadd : s.addToContext a.rule ctx a.ref = some t) :
    Arrived s key ctx a (t.record (.arrived a)) := by
  obtain ⟨context, last, older, hkept⟩ := h.kept key ctx hmem
  obtain ⟨entry, he, htimer, -⟩ := hkept.target
  obtain ⟨context', hcontext, hadd⟩ := bind_eq_some_iff.1 hadd
  have hsame : context' = context := some.inj (hcontext.symm.trans hkept.live)
  subst hsame
  rw [if_pos hkept.timer] at hadd
  cases hadd
  have hset : ∀ e : TWEntry, (if e.timer = ctx then ⟨ctx, s.wheelTarget a.rule.contextTimeout⟩
      else e).timer = e.timer := fun e => by
    split
    case isTrue heq => exact heq.symm
    case isFalse => rfl
  have htarget := wheelTarget_eq hpos hlt
  constructor
  · exact hbelongs
  · exact h.table.kinds _ hmem
  · refine ⟨_, update_self _ _ _, hkept.ofKey, hkept.refCnt, hkept.timer, rfl, ?_⟩
    simp [hkept.messages, hkept.contents]
  · intro ctx' hne
    exact update_of_ne hne _ _
  · intro found ctx'
    constructor
    · exact .inl
    · rintro (hfound | ⟨rfl, rfl⟩)
      · exact hfound
      · exact hmem
  · exact fun found hfound => h.key_unique hfound hmem
  · exact h.table
  · refine ⟨_, mem_map.2 ⟨entry, he, if_pos htimer⟩, rfl, ?_⟩
    rw [DueAt, hnow]
    exact htarget
  · intro e hne
    constructor
    · intro hmem'
      obtain ⟨e', he', heq⟩ := mem_map.1 hmem'
      split at heq
      · exact (hne (by rw [← heq])).elim
      · exact heq ▸ he'
    · exact fun hmem' => mem_map.2 ⟨e, hmem', if_neg hne⟩
  · have hmap : (s.timers.map fun e => if e.timer = ctx then
        (⟨ctx, s.wheelTarget a.rule.contextTimeout⟩ : TWEntry) else e).map (·.timer) =
        s.timers.map (·.timer) := by
      rw [map_map]
      exact map_congr_left fun e _ => hset e
    exact (congrArg List.Nodup hmap).mpr h.timersOnce
  · intro e hmem' heq
    obtain ⟨e', -, rfl⟩ := mem_map.1 hmem'
    rw [if_pos ((hset e').symm.trans heq)]
    change s.now ≤ s.wheelTarget a.rule.contextTimeout
    omega
  · rfl
  · rfl
  · exact ⟨h.old key ctx hmem, le_rfl⟩
  · exact h.notExpired key ctx hmem
  · rfl

theorem arrived_new (h : Tracked s) (htype : key.type = .context) (hnone : s.lookup key = none)
    (hbelongs : Belongs key a)
    (hnow : a.now = s.now) (hpos : 1 ≤ a.rule.contextTimeout)
    (hlt : s.now + a.rule.contextTimeout < 2 ^ 64)
    (hadd : (s.contextNew key).1.addToContext a.rule (s.contextNew key).2 a.ref = some t) :
    Arrived s key (s.contextNew key).2 a (t.record (.arrived a)) := by
  have hempty : held key s.history = [] := by
    by_contra hne
    obtain ⟨found, ctx, hmem, heq⟩ := h.complete key htype hne
    rw [lookup_of_mem h.table hmem heq] at hnone
    cases hnone
  have hunused : ∀ entry ∈ s.timers, entry.timer ≠ s.nextContext := fun entry he => by
    obtain ⟨found, hfound⟩ := h.timers entry he
    exact (h.old found _ hfound).ne
  obtain ⟨context, hcontext, hadd⟩ := bind_eq_some_iff.1 hadd
  have hfirst : (s.contextNew key).1.contexts (s.contextNew key).2 =
      some ⟨key, none, false, [], 1⟩ := update_self s.nextContext _ s.contexts
  obtain rfl := some.inj (hfirst.symm.trans hcontext)
  cases hadd
  have htarget := wheelTarget_eq hpos hlt
  constructor
  · exact hbelongs
  · exact htype
  · refine ⟨_, update_self _ _ _, rfl, rfl, rfl, rfl, ?_⟩
    rw [hempty]
    rfl
  · intro ctx' hne
    exact (update_of_ne hne _ _).trans (update_of_ne hne _ _)
  · intro found ctx'
    change (found, PDBStateEntry.context ctx') ∈ (key, .context s.nextContext) :: s.state ↔ _
    rw [mem_cons, or_comm, Prod.mk.injEq, PDBStateEntry.context.injEq]
    rfl
  · exact fun found hfound => ((h.old found _ hfound).false).elim
  · exact h.table.cons htype (lookup_eq_none hnone)
  · refine ⟨_, mem_cons_self, rfl, ?_⟩
    rw [DueAt, hnow]
    exact htarget
  · intro e hne
    refine mem_cons.trans (or_iff_right ?_)
    rintro rfl
    exact hne rfl
  · refine nodup_cons.2 ⟨fun hmem => ?_, h.timersOnce⟩
    obtain ⟨entry, he, heq⟩ := mem_map.1 hmem
    exact hunused entry he heq
  · intro e hmem heq
    obtain rfl | hmem := mem_cons.1 hmem
    · change s.now ≤ s.wheelTarget a.rule.contextTimeout
      omega
    · exact (hunused e hmem heq).elim
  · rfl
  · rfl
  · exact ⟨Nat.lt_succ_self _, Nat.le_succ _⟩
  · exact fun hgone => ((h.oldExpired _ hgone).false).elim
  · rfl

theorem now_of_addToContext {rule : PDBRule} {ref : MsgRef}
    (h : s.addToContext rule ctx ref = some t) : t.now = s.now := by
  obtain ⟨context, -, hadd⟩ := bind_eq_some_iff.1 h
  dsimp only at hadd
  split at hadd
  · cases hadd
    rfl
  · cases hadd
    rfl

theorem correlate {rule : PDBRule} {ref : MsgRef} {template : LogMessage → List UInt8}
    (h : Tracked s) (htemplate : rule.contextIdTemplate = some template)
    (hpos : 1 ≤ rule.contextTimeout) (hlt : s.now + rule.contextTimeout < 2 ^ 64)
    (hcorrelate : s.correlate rule ref template = some (t, ctx)) : Tracked t := by
  obtain ⟨⟨found, ctx'⟩, hfind, hrest⟩ := bind_eq_some_iff.1 hcorrelate
  obtain ⟨added, hadd, hadded⟩ := bind_eq_some_iff.1 hrest
  obtain ⟨rfl, rfl⟩ := Prod.mk.inj (some.inj hadded)
  have hkey := pdbStateKeySetup_normal .context rule (s.messages ref) (cString (template (s.messages ref)))
  have htype := pdbStateKeySetup_type .context rule (s.messages ref) (cString (template (s.messages ref)))
  rw [now_of_addToContext hadd]
  unfold findContext at hfind
  split at hfind
  case h_1 ctx'' hlookup =>
    obtain ⟨rfl, rfl⟩ := Prod.mk.inj (some.inj hfind)
    obtain ⟨key, hmem, heq⟩ := lookup_eq_some hlookup
    have hbelongs : Belongs key ⟨ref, s.messages ref, rule, s.now⟩ :=
      (belongs_iff (h.table.kinds _ hmem)).2
        ⟨template, htemplate, (pdbStateKeyEqual_iff.1 heq).trans hkey⟩
    exact h.arrived (h.arrived_found hmem hbelongs rfl hpos hlt hadd)
  case h_2 => cases hfind
  case h_3 hlookup =>
    have hbelongs : Belongs (pdbStateKeySetup .context rule (s.messages ref)
        (cString (template (s.messages ref)))) ⟨ref, s.messages ref, rule, s.now⟩ :=
      (belongs_iff htype).2 ⟨template, htemplate, hkey⟩
    obtain ⟨rfl, rfl⟩ := Prod.mk.inj (some.inj hfind)
    exact h.arrived (h.arrived_new htype hlookup hbelongs rfl hpos hlt hadd)

/-! ## Operations and runs -/

theorem processRule {rule : PDBRule} {ref : MsgRef} (h : Tracked s) (hpos : 1 ≤ rule.contextTimeout)
    (hlt : rule.contextIdTemplate.isSome → s.now + rule.contextTimeout < 2 ^ 64)
    (hprocess : s.processRule W rule ref = some t) : Tracked t := by
  unfold PatternDB.processRule at hprocess
  split at hprocess
  case h_1 template htemplate =>
    obtain ⟨⟨u, ctx⟩, hcorrelate, hprocess⟩ := bind_eq_some_iff.1 hprocess
    obtain ⟨context, -, hprocess⟩ := bind_eq_some_iff.1 hprocess
    have hu := h.correlate htemplate hpos (hlt (by rw [htemplate]; rfl)) hcorrelate
    exact hu.frame (applyRule_frame hu.table hprocess)
  case h_2 => exact h.frame (applyRule_frame h.table hprocess)

end Tracked

/-- The context timeouts of rules are at least 1. -/
def PDBOp.TimeoutOk : PDBOp → Prop
  | .process (some rule) _ _ _ => 1 ≤ rule.contextTimeout
  | _ => True

/-- The time a message of a rule with a context id sets the timer wheel to, plus the timeout of the
rule, is a `guint64`. -/
def PDBOp.InTime (self : PatternDB) : PDBOp → Prop
  | .process (some rule) _ content clock => rule.contextIdTemplate.isSome →
    ((max self.now (clampedTime clock content.stamp) : Nat) : Int) + rule.contextTimeout < 2 ^ 64
  | _ => True

def PDBStep (W : Platform) (s : PatternDB) (op : PDBOp) (t : PatternDB) : Prop :=
  op.TimeoutOk ∧ patternDbStep W s op = some t

theorem Tracked.step {op : PDBOp} (h : Tracked s) (hop : op.TimeoutOk) (hin : op.InTime s)
    (hstep : patternDbStep W s op = some t) : Tracked t := by
  cases op with
  | process rule msg content clock =>
    obtain ⟨u, hset, hprocess⟩ := bind_eq_some_iff.1 hstep
    have hs : Tracked { s.setMessage (.input msg) content with lastTick := clock } :=
      (h.frame (setMessage_frame s _ content)).setLastTick clock
    obtain ⟨hu, hnow, -⟩ := hs.wheelSetTime hset
    cases rule with
    | none =>
      cases hprocess
      split
      · exact hu.frame (record_frame u content false)
      · exact hu
    | some rule =>
      refine hu.processRule hop (fun hid => ?_) hprocess
      rw [hnow]
      exact hin hid
  | timerTick clock =>
    change s.timerTick W clock = some t at hstep
    unfold PatternDB.timerTick at hstep
    dsimp only at hstep
    split at hstep
    · cases hstep
      exact h
    · obtain ⟨u, hset, hstep⟩ := bind_eq_some_iff.1 hstep
      cases hstep
      exact (h.wheelSetTime hset).1.setLastTick _
  | expireState =>
    obtain ⟨u, hset, hstep⟩ := bind_eq_some_iff.1 hstep
    cases hstep
    obtain ⟨hu, -, hahead⟩ := h.wheelSetTime hset
    exact hu.setNow hahead

/-- Correllation contexts are tracked exactly in every run in which no message sets a timer whose
target is beyond the `guint64`. -/
theorem contexts_tracked_exactly {ops : List PDBOp} {lastTick : GTimeVal} {emit : Bool}
    (h : Run (fun s op t => PDBStep W s op t ∧ op.InTime s) (patternDbNew lastTick emit) ops s) :
    TracksExactly s := by
  have hinv : Tracked s := by
    refine Run.invariant (fun s op t hstep hs => ?_) h (Tracked.new lastTick emit)
    obtain ⟨⟨hop, hnext⟩, hin⟩ := hstep
    exact hs.step hop hin hnext
  exact hinv.tracksExactly

/-- A timer wheel that fires timers with one target in the order they were set. -/
def earliestFirst : Platform where
  order := fun _ due => due.insertionSort (·.target ≤ ·.target)
  perm := fun _ due => perm_insertionSort _ due
  sorted := fun _ due => by
    have : Std.Total fun a b : TWEntry => a.target ≤ b.target := ⟨fun a b => Nat.le_total _ _⟩
    have : IsTrans TWEntry fun a b => a.target ≤ b.target := ⟨fun _ _ _ => Nat.le_trans⟩
    exact pairwise_insertionSort _ due
  tickSec := fun diff => diff.tdiv 1000000
  tickRest := fun diff diffSec => -(diff - diffSec * 1000000)
  recvd := fun _ => ⟨0, 0, 0⟩

def tenSecondRule : PDBRule where
  ruleId := []
  msg := ⟨[]⟩
  contextTimeout := 10
  contextScope := .global
  contextIdTemplate := some fun _ => [99]
  actions := []

/-- The second before 1970, and the same clock time in 2012. -/
def messageAt (tvSec : Int) : LogMessage := { msgNewEmpty ⟨0, 0, 0⟩ with stamp := ⟨tvSec, 0, 0⟩ }

/-- A message of the rule, in 2012. -/
def arrival2012 (tvSec : Int) : PDBOp :=
  .process (some tenSecondRule) 0 (messageAt tvSec) ⟨1325376000, 0⟩

theorem arrival2012_timeoutOk (tvSec : Int) : (arrival2012 tvSec).TimeoutOk :=
  show (1 : Int) ≤ 10 by decide

theorem contexts_tracked_exactly_after_one : ∃ s, patternDbStep earliestFirst
    (patternDbNew ⟨1325376000, 0⟩ true) (arrival2012 1325376000) = some s ∧ TracksExactly s := by
  have hsome : (patternDbStep earliestFirst (patternDbNew ⟨1325376000, 0⟩ true)
    (arrival2012 1325376000)).isSome = true := rfl
  obtain ⟨s, hs⟩ := isSome_iff_exists.1 hsome
  have hop : (arrival2012 1325376000).TimeoutOk := arrival2012_timeoutOk _
  have hin : (arrival2012 1325376000).InTime (patternDbNew ⟨1325376000, 0⟩ true) := fun _ => by decide
  exact ⟨s, hs, contexts_tracked_exactly (.single ⟨⟨hop, hs⟩, hin⟩)⟩

/-- A message of the second before 1970 gets a context whose timer is set for second 9, which
the wheel has passed: its time is `2 ^ 64 - 1`. -/
theorem context_outlives_its_timeout : ¬ ∀ (W : Platform) (lastTick : GTimeVal) (emit : Bool)
    (ops : List PDBOp) (s : PatternDB), Run (PDBStep W) (patternDbNew lastTick emit) ops s →
    TracksExactly s := by
  intro h
  have htracks := h earliestFirst ⟨1325376000, 0⟩ true
    [arrival2012 (-1)] _ (.single ⟨arrival2012_timeoutOk _, rfl⟩)
  have hahead := htracks.target _ 0 mem_cons_self ⟨0, 9⟩ mem_cons_self rfl
  exact absurd hahead.1 (by decide)

end SyslogNg.DbParser
