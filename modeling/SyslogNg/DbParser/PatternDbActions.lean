import SyslogNg.Lib.Run
import SyslogNg.DbParser.PatternDb

/-!
# What the actions of a rule leave alone

Two keys are equal when their `normal` forms are: the fields the scope does not look at do not
count. The table is well formed (`TableOk`) when its keys differ and each entry is of the kind its
key says. Actions emit messages and count their rate limits, and that is all they do
(`ActionsFrame`): the contexts, the timers and the time stay.
-/

namespace SyslogNg.DbParser

open Lib Time List Option
open SyslogFormat (LogMessage NVHandle)

/-! ## Equality of keys -/

/-- The key without the fields that its scope does not look at. -/
def PDBStateKey.normal (key : PDBStateKey) : PDBStateKey :=
  match key.scope with
  | .process => key
  | .program => { key with pid := none }
  | .host => { key with pid := none, program := none }
  | .global => { key with pid := none, program := none, host := none }

variable {key1 key2 : PDBStateKey}

theorem pdbStateKeyEqual_iff : pdbStateKeyEqual key1 key2 = true ↔ key1.normal = key2.normal := by
  obtain ⟨host1, program1, pid1, sid1, scope1, type1⟩ := key1
  obtain ⟨host2, program2, pid2, sid2, scope2, type2⟩ := key2
  cases scope1 <;> cases scope2 <;>
    simp [pdbStateKeyEqual, PDBStateKey.normal] <;> grind

theorem pdbStateKeyEqual_false_iff : pdbStateKeyEqual key1 key2 = false ↔ key1.normal ≠ key2.normal := by
  rw [Ne, ← pdbStateKeyEqual_iff, Bool.not_eq_true]

@[simp] theorem pdbStateKeyEqual_refl (key : PDBStateKey) : pdbStateKeyEqual key key = true :=
  pdbStateKeyEqual_iff.2 rfl

theorem pdbStateKeyEqual_comm (key1 key2 : PDBStateKey) :
    pdbStateKeyEqual key1 key2 = pdbStateKeyEqual key2 key1 := by
  rw [Bool.eq_iff_iff, pdbStateKeyEqual_iff, pdbStateKeyEqual_iff, eq_comm]

@[simp] theorem PDBStateKey.normal_type (key : PDBStateKey) : key.normal.type = key.type := by
  unfold normal
  split <;> rfl

theorem type_eq_of_normal (h : key1.normal = key2.normal) : key1.type = key2.type := by
  rw [← key1.normal_type, h, key2.normal_type]

@[simp] theorem pdbStateKeySetup_type (type : StateKeyType) (rule : PDBRule) (msg : LogMessage)
    (sessionId : List UInt8) : (pdbStateKeySetup type rule msg sessionId).type = type := by
  unfold pdbStateKeySetup
  split <;> rfl

@[simp] theorem pdbStateKeySetup_normal (type : StateKeyType) (rule : PDBRule) (msg : LogMessage)
    (sessionId : List UInt8) :
    (pdbStateKeySetup type rule msg sessionId).normal = pdbStateKeySetup type rule msg sessionId := by
  unfold pdbStateKeySetup
  cases hscope : rule.contextScope <;> simp [PDBStateKey.normal]

/-! ## The table -/

/-- The entry is of the kind its key says. -/
def EntryOk : PDBStateKey × PDBStateEntry → Prop
  | (key, .context _) => key.type = .context
  | (key, .rateLimit rl) => key.type = .rateLimit ∧ rl.key = key

structure TableOk (state : List (PDBStateKey × PDBStateEntry)) : Prop where
  kinds : ∀ entry ∈ state, EntryOk entry
  apart : state.Pairwise fun e f => pdbStateKeyEqual e.1 f.1 = false

namespace TableOk

variable {state : List (PDBStateKey × PDBStateEntry)} {key : PDBStateKey} {entry : PDBStateEntry}

theorem nil : TableOk [] := ⟨fun _ h => (not_mem_nil h).elim, List.Pairwise.nil⟩

theorem filter (h : TableOk state) (p : PDBStateKey × PDBStateEntry → Bool) : TableOk (state.filter p) :=
  ⟨fun entry he => h.kinds entry (mem_of_mem_filter he), h.apart.filter _⟩

theorem eq_of_equal (h : TableOk state) {e f : PDBStateKey × PDBStateEntry} (he : e ∈ state)
    (hf : f ∈ state) (heq : pdbStateKeyEqual e.1 f.1 = true) : e = f := by
  by_contra hne
  have : Std.Symm fun e f : PDBStateKey × PDBStateEntry =>
      pdbStateKeyEqual e.1 f.1 = false := ⟨fun e f hef => by
    rw [pdbStateKeyEqual_comm]
    exact hef⟩
  have hfalse := h.apart.forall he hf hne
  rw [heq] at hfalse
  cases hfalse

theorem cons (h : TableOk state) (hentry : EntryOk (key, entry))
    (hnew : ∀ e ∈ state, pdbStateKeyEqual e.1 key = false) : TableOk ((key, entry) :: state) := by
  refine ⟨fun e he => ?_, pairwise_cons.2 ⟨fun e he => ?_, h.apart⟩⟩
  · obtain rfl | he := mem_cons.1 he
    · exact hentry
    · exact h.kinds e he
  · rw [pdbStateKeyEqual_comm]
    exact hnew e he

end TableOk

namespace PatternDB

variable {self t : PatternDB} {key : PDBStateKey}

theorem lookup_eq_none (h : self.lookup key = none) :
    ∀ e ∈ self.state, pdbStateKeyEqual e.1 key = false := by
  intro e he
  have hnone := map_eq_none_iff.1 h
  simpa using find?_eq_none.1 hnone e he

theorem lookup_eq_some {entry : PDBStateEntry} (h : self.lookup key = some entry) :
    ∃ found, (found, entry) ∈ self.state ∧ pdbStateKeyEqual found key = true := by
  obtain ⟨⟨found, entry'⟩, hfind, hentry⟩ := map_eq_some_iff.1 h
  cases hentry
  exact ⟨found, mem_of_find?_eq_some hfind, by simpa using find?_some hfind⟩

theorem lookup_of_mem (h : TableOk self.state) {found : PDBStateKey} {entry : PDBStateEntry}
    (hmem : (found, entry) ∈ self.state) (heq : pdbStateKeyEqual found key = true) :
    self.lookup key = some entry := by
  cases hlookup : self.lookup key with
  | none =>
    have hfalse := lookup_eq_none hlookup _ hmem
    rw [heq] at hfalse
    cases hfalse
  | some entry' =>
    obtain ⟨found', hmem', heq'⟩ := lookup_eq_some hlookup
    have hsame : pdbStateKeyEqual found' found = true := by
      rw [pdbStateKeyEqual_iff] at heq heq' ⊢
      rw [heq, heq']
    have hone := h.eq_of_equal hmem' hmem hsame
    cases hone
    rfl

/-! ## The frame of the actions -/

/-- A message was emitted: no context and no timer has to do with it. -/
def Emission (event : PDBEvent) : Prop := ∃ msg synthetic, event = .emitted msg synthetic

/-- `t` is `s` with messages emitted and rate limits counted. -/
structure ActionsFrame (s t : PatternDB) : Prop where
  contexts : t.contexts = s.contexts
  nextContext : t.nextContext = s.nextContext
  now : t.now = s.now
  timers : t.timers = s.timers
  emit : t.emit = s.emit
  history : ∃ events, t.history = events ++ s.history ∧ ∀ event ∈ events, Emission event
  entries : ∀ key ctx, (key, .context ctx) ∈ t.state ↔ (key, .context ctx) ∈ s.state
  table : TableOk s.state → TableOk t.state

namespace ActionsFrame

variable {s u : PatternDB}

theorem refl (s : PatternDB) : ActionsFrame s s where
  contexts := rfl
  nextContext := rfl
  now := rfl
  timers := rfl
  emit := rfl
  history := ⟨[], rfl, fun _ h => nomatch h⟩
  entries := fun _ _ => .rfl
  table := id

theorem trans (h1 : ActionsFrame s t) (h2 : ActionsFrame t u) : ActionsFrame s u where
  contexts := h2.contexts.trans h1.contexts
  nextContext := h2.nextContext.trans h1.nextContext
  now := h2.now.trans h1.now
  timers := h2.timers.trans h1.timers
  emit := h2.emit.trans h1.emit
  history := by
    obtain ⟨events, heq, hall⟩ := h1.history
    obtain ⟨events', heq', hall'⟩ := h2.history
    refine ⟨events' ++ events, by rw [heq', heq, append_assoc], fun event he => ?_⟩
    obtain he | he := mem_append.1 he
    · exact hall' event he
    · exact hall event he
  entries := fun key ctx => (h2.entries key ctx).trans (h1.entries key ctx)
  table := fun h => h2.table (h1.table h)

theorem of_state (hcontexts : t.contexts = s.contexts) (hnext : t.nextContext = s.nextContext)
    (hnow : t.now = s.now) (htimers : t.timers = s.timers) (hemit : t.emit = s.emit)
    (hstate : t.state = s.state)
    (hhistory : ∃ events, t.history = events ++ s.history ∧ ∀ event ∈ events, Emission event) :
    ActionsFrame s t where
  contexts := hcontexts
  nextContext := hnext
  now := hnow
  timers := htimers
  emit := hemit
  history := hhistory
  entries := fun key ctx => by rw [hstate]
  table := fun h => hstate ▸ h

theorem of_table (hentries : ∀ key ctx, (key, .context ctx) ∈ t.state ↔ (key, .context ctx) ∈ s.state)
    (htable : TableOk s.state → TableOk t.state) (ht : t = { s with state := t.state }) :
    ActionsFrame s t where
  contexts := by rw [ht]
  nextContext := by rw [ht]
  now := by rw [ht]
  timers := by rw [ht]
  emit := by rw [ht]
  history := ⟨[], by rw [ht]; rfl, fun _ h => nomatch h⟩
  entries := hentries
  table := htable

end ActionsFrame

theorem setMessage_frame (self : PatternDB) (ref : MsgRef) (msg : LogMessage) :
    ActionsFrame self (self.setMessage ref msg) :=
  .of_state rfl rfl rfl rfl rfl rfl ⟨[], rfl, fun _ h => nomatch h⟩

theorem record_frame (self : PatternDB) (msg : LogMessage) (synthetic : Bool) :
    ActionsFrame self (self.record (.emitted msg synthetic)) := by
  refine .of_state rfl rfl rfl rfl rfl rfl ⟨[.emitted msg synthetic], rfl, fun event he => ?_⟩
  exact ⟨msg, synthetic, mem_singleton.1 he⟩

theorem messageApply_frame (self : PatternDB) (message : PDBMessage) (context : List MsgRef)
    (sessionId : Option (List UInt8)) (ref : MsgRef) :
    ActionsFrame self (self.messageApply message context sessionId ref) :=
  foldl_rel .refl (fun _ _ _ => .trans) fun self _ => setMessage_frame self ref _

theorem generate_frame (W : Platform) (self : PatternDB) (action : PDBAction) (message : PDBMessage)
    (context : Option PDBContext) (ref : MsgRef) :
    ActionsFrame self (generate W self action message context ref) := by
  unfold generate
  cases context with
  | none =>
    exact ((setMessage_frame _ _ _).trans (messageApply_frame _ _ _ _ _)).trans (record_frame _ _ _)
  | some context =>
    exact ((setMessage_frame _ _ _).trans (messageApply_frame _ _ _ _ _)).trans (record_frame _ _ _)

variable {action : PDBAction}

theorem deposit_key {now : Nat} {rl rl' : PDBRateLimit} (h : deposit action now rl = some rl') :
    rl'.key = rl.key := by
  unfold deposit at h
  split at h
  · cases h
    rfl
  · obtain ⟨credits, -, h⟩ := bind_eq_some_iff.1 h
    split at h
    · cases h
      rfl
    · cases h
      rfl

theorem setRateLimit_frame (self : PatternDB) (rl : PDBRateLimit)
    (hfound : ∃ rl', (rl.key, .rateLimit rl') ∈ self.state) (hself : TableOk self.state) :
    ActionsFrame self (self.setRateLimit rl) := by
  obtain ⟨rl', hmem⟩ := hfound
  have hkind := (hself.kinds _ hmem).1
  refine .of_table (fun key ctx => ?_) (fun _ => ⟨fun entry he => ?_, ?_⟩) rfl
  · -- a context has a key of the other type
    constructor
    · intro h
      obtain ⟨e, he, heq⟩ := mem_map.1 h
      split at heq
      · cases heq
      · rwa [← heq]
    · intro h
      refine mem_map.2 ⟨_, h, if_neg fun heq => ?_⟩
      have htype := type_eq_of_normal (pdbStateKeyEqual_iff.1 heq)
      rw [hself.kinds _ h, hkind] at htype
      cases htype
  · obtain ⟨e, hmem', rfl⟩ := mem_map.1 he
    split
    case isTrue heq =>
      have hone := hself.eq_of_equal hmem' hmem heq
      rw [hone]
      exact ⟨hkind, rfl⟩
    case isFalse => exact hself.kinds e hmem'
  · refine List.Pairwise.map _ (fun e f hef => ?_) hself.apart
    have hkey : ∀ e : PDBStateKey × PDBStateEntry,
        (if pdbStateKeyEqual e.1 rl.key then (e.1, .rateLimit rl) else e).1 = e.1 := fun e => by
      split <;> rfl
    rw [hkey, hkey]
    exact hef

theorem findRateLimit_frame {rl : PDBRateLimit} (hkey : key.type = .rateLimit)
    (hself : TableOk self.state) (h : self.findRateLimit key = some (t, rl)) :
    ActionsFrame self t ∧ ∃ rl', (rl.key, .rateLimit rl') ∈ t.state := by
  unfold findRateLimit at h
  split at h
  case h_1 rl' hlookup =>
    obtain ⟨found, hmem, -⟩ := lookup_eq_some hlookup
    have hfound := (hself.kinds _ hmem).2
    cases h
    exact ⟨.refl _, rl, by rwa [hfound]⟩
  case h_2 => cases h
  case h_3 hlookup =>
    cases h
    refine ⟨.of_table (fun key' ctx => ?_) (fun hok => ?_) rfl, ⟨key, 0, 0⟩, mem_cons_self⟩
    · simp
    · exact hok.cons ⟨hkey, rfl⟩ (lookup_eq_none hlookup)

variable {rule : PDBRule} {ref : MsgRef}

theorem checkRateLimit_frame {passed : Bool} (hself : TableOk self.state)
    (h : self.checkRateLimit rule action ref = some (t, passed)) : ActionsFrame self t := by
  unfold checkRateLimit at h
  split at h
  · cases h
    exact .refl _
  obtain ⟨⟨self', rl⟩, hfind, h⟩ := bind_eq_some_iff.1 h
  obtain ⟨rl', hdeposit, h⟩ := bind_eq_some_iff.1 h
  obtain ⟨hframe, hfound⟩ := findRateLimit_frame (pdbStateKeySetup_type _ _ _ _) hself hfind
  rw [← deposit_key hdeposit] at hfound
  split at h
  · cases h
    exact hframe.trans (setRateLimit_frame _ { rl' with buckets := _ } hfound (hframe.table hself))
  · cases h
    exact hframe.trans (setRateLimit_frame _ rl' hfound (hframe.table hself))

variable {context : Option PDBContext}

theorem runAction_frame {W : Platform} {trigger : ActionTrigger}
    (hself : TableOk self.state)
    (h : runAction W rule trigger context ref self action = some t) : ActionsFrame self t := by
  unfold runAction at h
  split at h
  · cases h
    exact .refl _
  split at h
  · cases h
    exact .refl _
  obtain ⟨⟨self', passed⟩, hcheck, h⟩ := bind_eq_some_iff.1 h
  have hframe := checkRateLimit_frame hself hcheck
  cases hcontent : action.content with
  | none =>
    rw [hcontent] at h
    cases h
    exact hframe
  | some message =>
    rw [hcontent] at h
    cases passed with
    | false =>
      cases h
      exact hframe
    | true =>
      cases h
      exact hframe.trans (generate_frame W self' action message context ref)

theorem runActions_frame {W : Platform} {trigger : ActionTrigger}
    (hself : TableOk self.state) (h : self.runActions W rule trigger context ref = some t) :
    ActionsFrame self t := by
  refine foldlM_rel (R := fun s t => TableOk s.state → ActionsFrame s t) ?_ ?_ ?_ h hself
  · exact fun s _ => .refl s
  · intro s t u h1 h2 hs
    exact (h1 hs).trans (h2 ((h1 hs).table hs))
  · exact fun s a t hstep hs => runAction_frame hs hstep

theorem applyRule_frame {W : Platform}
    (hself : TableOk self.state) (h : self.applyRule W rule context ref = some t) :
    ActionsFrame self t := by
  unfold applyRule at h
  dsimp only at h
  have happly := messageApply_frame self rule.msg (context.elim [ref] (·.messages))
    (context.map (·.key.sessionId)) ref
  generalize self.messageApply _ _ _ _ = applied at h happly
  split at h
  · have hemit := happly.trans (record_frame applied (applied.messages ref) false)
    exact hemit.trans (runActions_frame (hemit.table hself) h)
  · cases h
    exact happly

end PatternDB

end SyslogNg.DbParser
