import SyslogNg.DbParser.TimerWheel
import SyslogNg.SyslogFormat.Parse

/-!
# The correllation state of the pattern database (`modules/dbparser/patterndb.c`)

One hash table holds the contexts and the rate-limit states; a context is also held by its timer.
The rules themselves are outside: an operation is given the rule the lookup found, and a message
comes with the values the lookup has set. Templates and filters are functions, and so is the
order in which a timer wheel that is exact fires its timers. Tags are left out, as nothing here
reads them.

A context and the `TWEntry` of its timer are named by one number that is never used again. An
operation is `none` where the code would use a freed context, take one kind of entry for the
other, or divide by zero.
-/

namespace SyslogNg.DbParser

open Lib Time
open SyslogFormat (LogMessage NVHandle)

/-- `RCS_GLOBAL` and so on. -/
inductive ContextScope where
  | global
  | host
  | program
  | process
  deriving DecidableEq, Repr

/-- `PSK_CONTEXT` and `PSK_RATE_LIMIT`. -/
inductive StateKeyType where
  | context
  | rateLimit
  deriving DecidableEq, Repr

/-- `RAT_MATCH` and `RAT_TIMEOUT`. -/
inductive ActionTrigger where
  | onMatch
  | onTimeout
  deriving DecidableEq, Repr

/-- A message pointer: a message that was handed in, or the `genmsg` of an action. -/
inductive MsgRef where
  | input (msg : Nat)
  | generated
  deriving DecidableEq, Repr

/-- The strings end before their NUL; `none` is `NULL`. -/
structure PDBStateKey where
  host : Option (List UInt8)
  program : Option (List UInt8)
  pid : Option (List UInt8)
  sessionId : List UInt8
  scope : ContextScope
  type : StateKeyType
  deriving DecidableEq, Repr

/-- A template of the values of a `PDBMessage`: it is formatted over the messages of a context, and
the session id is `$CONTEXT_ID`. -/
structure PDBValue where
  handle : NVHandle
  format : List LogMessage → Option (List UInt8) → List UInt8

structure PDBMessage where
  values : List PDBValue

/-- `content` is `none` for `RAC_NONE`. -/
structure PDBAction where
  condition : Option (List LogMessage → Bool)
  trigger : ActionTrigger
  content : Option PDBMessage
  rate : UInt16
  id : UInt8
  rateQuantum : Fin (2 ^ 24)
  inheritProperties : Bool

structure PDBRule where
  ruleId : List UInt8
  msg : PDBMessage
  contextTimeout : Int
  contextScope : ContextScope
  contextIdTemplate : Option (LogMessage → List UInt8)
  actions : List PDBAction

/-- `timer` tells if there is a `TWEntry`; its name is that of the context. -/
structure PDBContext where
  key : PDBStateKey
  rule : Option PDBRule
  timer : Bool
  messages : List MsgRef
  refCnt : Int

structure PDBRateLimit where
  key : PDBStateKey
  buckets : Int
  lastCheck : Nat

inductive PDBStateEntry where
  | context (ctx : Nat)
  | rateLimit (rl : PDBRateLimit)

structure GTimeVal where
  tvSec : Int
  tvUsec : Int
  deriving DecidableEq

/-- A message a rule with a context id was applied to, as it was when its key was set up, and the
time of the timer wheel then. -/
structure Arrival where
  ref : MsgRef
  msg : LogMessage
  rule : PDBRule
  now : Nat

/-- What happened: a context got a message, a context expired, the timeout actions of a context
were run, a message was emitted. -/
inductive PDBEvent where
  | arrived (a : Arrival)
  | expired (ctx : Nat) (key : PDBStateKey) (now : Nat)
  | timeoutActions (ctx : Nat)
  | emitted (msg : LogMessage) (synthetic : Bool)

/-- `state` is the hash table, `contexts` the memory, `now` and `timers` the timer wheel.
`history` is not in the code: it holds what happened, the newest first. -/
structure PatternDB where
  state : List (PDBStateKey × PDBStateEntry)
  contexts : Nat → Option PDBContext
  nextContext : Nat
  messages : MsgRef → LogMessage
  now : Nat
  timers : List TWEntry
  lastTick : GTimeVal
  emit : Bool
  history : List PDBEvent

/-- What is outside. `order` puts the timers that one `timer_wheel_set_time` passes in the order
in which they are fired: each at its target, those of one target in any order. `tickSec` and
`tickRest` are the `(glong)` of the doubles `diff / 1e6` and `-(diff - diff_sec * 1e6)`, `recvd` is
the time a new message gets. -/
structure Platform where
  order : List PDBEvent → List TWEntry → List TWEntry
  perm : ∀ history due, (order history due).Perm due
  sorted : ∀ history due, (order history due).Pairwise (·.target ≤ ·.target)
  tickSec : Int → Int
  tickRest : Int → Int → Int
  recvd : List PDBEvent → LogStamp

/-- The text up to its first NUL. -/
def cString (text : List UInt8) : List UInt8 := text.takeWhile (· ≠ 0)

/-! ## State keys -/

def pdbStateKeyEqual (key1 key2 : PDBStateKey) : Bool :=
  if key1.scope ≠ key2.scope ∨ key1.type ≠ key2.type then false
  else
    (match key1.scope with
    | .process =>
      key1.pid == key2.pid && (key1.program == key2.program && key1.host == key2.host)
    | .program => key1.program == key2.program && key1.host == key2.host
    | .host => key1.host == key2.host
    | .global => true) && key1.sessionId == key2.sessionId

def pdbStateKeySetup (type : StateKeyType) (rule : PDBRule) (msg : LogMessage)
    (sessionId : List UInt8) : PDBStateKey :=
  let value := fun handle => some (cString (msg.getValue handle))
  match rule.contextScope with
  | .process => ⟨value .host, value .program, value .pid, sessionId, rule.contextScope, type⟩
  | .program => ⟨value .host, value .program, none, sessionId, rule.contextScope, type⟩
  | .host => ⟨value .host, none, none, sessionId, rule.contextScope, type⟩
  | .global => ⟨none, none, none, sessionId, rule.contextScope, type⟩

namespace PatternDB

/-! ## The table, the contexts and the messages -/

/-- `g_hash_table_lookup`: the hash of a key only decides where it looks. -/
def lookup (self : PatternDB) (key : PDBStateKey) : Option PDBStateEntry :=
  (self.state.find? fun entry => pdbStateKeyEqual entry.1 key).map (·.2)

def setContext (self : PatternDB) (ctx : Nat) (context : Option PDBContext) : PatternDB :=
  { self with contexts := Function.update self.contexts ctx context }

def setMessage (self : PatternDB) (ref : MsgRef) (msg : LogMessage) : PatternDB :=
  { self with messages := Function.update self.messages ref msg }

def record (self : PatternDB) (event : PDBEvent) : PatternDB :=
  { self with history := event :: self.history }

def contextUnref (self : PatternDB) (ctx : Nat) : Option PatternDB := do
  let context ← self.contexts ctx
  if context.refCnt - 1 = 0 then some (self.setContext ctx none)
  else some (self.setContext ctx (some { context with refCnt := context.refCnt - 1 }))

def stateEntryFree (self : PatternDB) : PDBStateEntry → Option PatternDB
  | .context ctx => self.contextUnref ctx
  | .rateLimit _ => some self

/-- `g_hash_table_remove`. -/
def remove (self : PatternDB) (key : PDBStateKey) : Option PatternDB :=
  match self.lookup key with
  | none => some self
  | some entry =>
    { self with state := self.state.filter fun e => !pdbStateKeyEqual e.1 key }.stateEntryFree entry

/-! ## Rules and their actions -/

/-- `pdb_message_apply`: the templates are formatted over the messages of the context as they are
then, and the message may be one of them. -/
def messageApply (self : PatternDB) (message : PDBMessage) (context : List MsgRef)
    (sessionId : Option (List UInt8)) (ref : MsgRef) : PatternDB :=
  message.values.foldl (fun self value =>
    self.setMessage ref ((self.messages ref).setValue value.handle
      (value.format (context.map self.messages) sessionId))) self

/-- The new credits of a rate-limit state; `none` is the division by zero. -/
def newCredits (now lastCheck : Nat) (quantum rate : Nat) : Option Int :=
  let perCredit := (quantum * 256 / rate : Nat)
  if perCredit = 0 then none
  else some (wrap32 ((((now : Int) - lastCheck) * 256).bmod (2 ^ 64) |>.tdiv perCredit))

/-- The rate-limit state after the credits of the time passed. -/
def deposit (action : PDBAction) (now : Nat) (rl : PDBRateLimit) : Option PDBRateLimit :=
  if rl.lastCheck = 0 then some { rl with lastCheck := now, buckets := action.rate.toNat }
  else do
    let credits ← newCredits now rl.lastCheck action.rateQuantum action.rate.toNat
    if credits = 0 then some rl
    else some { rl with
      buckets := min (wrap32 (rl.buckets + credits)) action.rate.toNat, lastCheck := now }

def setRateLimit (self : PatternDB) (rl : PDBRateLimit) : PatternDB :=
  { self with state := self.state.map fun entry =>
      if pdbStateKeyEqual entry.1 rl.key then (entry.1, .rateLimit rl) else entry }

/-- `"%s:%d"` of the rule id and the action's id. -/
def rateLimitId (rule : PDBRule) (action : PDBAction) : List UInt8 :=
  cString rule.ruleId ++ 58 :: (toString action.id.toNat).toUTF8.toList

/-- The rate-limit state of a key; a new one is put into the table. -/
def findRateLimit (self : PatternDB) (key : PDBStateKey) : Option (PatternDB × PDBRateLimit) :=
  match self.lookup key with
  | some (.rateLimit rl) => some (self, rl)
  | some (.context _) => none
  | none =>
    let rl := ⟨key, 0, 0⟩
    some ({ self with state := (key, .rateLimit rl) :: self.state }, rl)

def checkRateLimit (self : PatternDB) (rule : PDBRule) (action : PDBAction) (ref : MsgRef) :
    Option (PatternDB × Bool) :=
  if action.rate = 0 then some (self, true)
  else do
    let key := pdbStateKeySetup .rateLimit rule (self.messages ref) (rateLimitId rule action)
    let (self, rl) ← self.findRateLimit key
    let rl ← deposit action self.now rl
    if rl.buckets ≠ 0 then
      some (self.setRateLimit { rl with buckets := wrap32 (rl.buckets - 1) }, true)
    else some (self.setRateLimit rl, false)

def scopeValues (key : PDBStateKey) (msg : LogMessage) : LogMessage :=
  let pid := fun (msg : LogMessage) => msg.setValue .pid (key.pid.getD [])
  let program := fun (msg : LogMessage) => msg.setValue .program (key.program.getD [])
  let host := fun (msg : LogMessage) => msg.setValue .host (key.host.getD [])
  match key.scope with
  | .process => host (program (pid msg))
  | .program => host (program msg)
  | .host => host msg
  | .global => msg

def msgNewEmpty (recvd : LogStamp) : LogMessage where
  pri := 0
  utf8 := false
  isLocal := false
  internal := false
  hasLegacyMsghdr := false
  initialParse := false
  stamp := ⟨-1, 0, -1⟩
  recvd := recvd
  values := fun _ => none
  sdata := []

/-- The `RAC_MESSAGE` case: without a context the generated message is formatted over the message
and itself. -/
def generate (W : Platform) (self : PatternDB) (action : PDBAction) (message : PDBMessage)
    (context : Option PDBContext) (ref : MsgRef) : PatternDB :=
  let msg := self.messages ref
  let genmsg := if action.inheritProperties then msg
    else { msgNewEmpty (W.recvd self.history) with isLocal := true, stamp := msg.stamp }
  let self : PatternDB := match context with
    | some context =>
      (self.setMessage .generated (scopeValues context.key genmsg)).messageApply message
        (context.messages ++ [.generated]) (some context.key.sessionId) .generated
    | none =>
      (self.setMessage .generated genmsg).messageApply message [ref, .generated] none .generated
  self.record (.emitted (self.messages .generated) true)

def conditionHolds (self : PatternDB) (action : PDBAction) (context : Option PDBContext) : Bool :=
  match action.condition, context with
  | some condition, some context => condition (context.messages.map self.messages)
  | _, _ => true

/-- One round of the loop of `pdb_rule_run_actions`. -/
def runAction (W : Platform) (rule : PDBRule) (trigger : ActionTrigger)
    (context : Option PDBContext) (ref : MsgRef) (self : PatternDB) (action : PDBAction) :
    Option PatternDB :=
  if action.trigger ≠ trigger then some self
  else if !self.conditionHolds action context then some self
  else do
    let (self, passed) ← self.checkRateLimit rule action ref
    match action.content with
    | some message => if passed then some (generate W self action message context ref) else some self
    | none => some self

def runActions (W : Platform) (self : PatternDB) (rule : PDBRule) (trigger : ActionTrigger)
    (context : Option PDBContext) (ref : MsgRef) : Option PatternDB :=
  rule.actions.foldlM (runAction W rule trigger context ref) self

/-! ## Time -/

/-- What `pattern_db_expire_entry` does before it removes the context. -/
def runTimeoutActions (W : Platform) (self : PatternDB) (ctx : Nat) (context : PDBContext) :
    Option PatternDB := do
  let rule ← context.rule
  let last ← context.messages.getLast?
  if self.emit then
    (self.record (.timeoutActions ctx)).runActions W rule .onTimeout (some context) last
  else some self

/-- `pattern_db_expire_entry`. -/
def expireEntry (W : Platform) (self : PatternDB) (ctx : Nat) : Option PatternDB := do
  let context ← self.contexts ctx
  let self ← self.runTimeoutActions W ctx context
  (self.record (.expired ctx context.key self.now)).remove context.key

/-- A timer is fired at its target: the callback, then `tw_entry_free`. -/
def fire (W : Platform) (self : PatternDB) (entry : TWEntry) : Option PatternDB := do
  let self ← { self with now := entry.target }.expireEntry W entry.timer
  { self with timers := self.timers.erase entry }.contextUnref entry.timer

/-- The timers that are fired on the way to `newNow`. -/
def due (self : PatternDB) (newNow : Nat) : List TWEntry :=
  self.timers.filter fun entry => decide (self.now ≤ entry.target ∧ entry.target < newNow)

def wheelSetTime (W : Platform) (self : PatternDB) (newNow : Nat) : Option PatternDB :=
  if newNow ≤ self.now then some self
  else do
    let self ← (W.order self.history (self.due newNow)).foldlM (fire W) self
    some { self with now := newNow }

/-- The target of a timer: a `guint64` sum. -/
def wheelTarget (self : PatternDB) (timeout : Int) : Nat :=
  ((self.now + timeout) % 2 ^ 64).toNat

def wheelAddTimer (self : PatternDB) (timeout : Int) (ctx : Nat) : PatternDB :=
  { self with timers := ⟨ctx, self.wheelTarget timeout⟩ :: self.timers }

def wheelModTimer (self : PatternDB) (timeout : Int) (ctx : Nat) : PatternDB :=
  { self with timers := self.timers.map fun entry =>
      if entry.timer = ctx then ⟨ctx, self.wheelTarget timeout⟩ else entry }

/-- The clamped time as `timer_wheel_set_time` gets it. -/
def clampedTime (clock : GTimeVal) (stamp : LogStamp) : Nat :=
  ((if stamp.tvSec < clock.tvSec then stamp.tvSec else clock.tvSec) % 2 ^ 64).toNat

/-- `pattern_db_set_time`. -/
def setTime (W : Platform) (self : PatternDB) (clock : GTimeVal) (stamp : LogStamp) :
    Option PatternDB :=
  { self with lastTick := clock }.wheelSetTime W (clampedTime clock stamp)

def timeValDiff (t1 t2 : GTimeVal) : Int :=
  ((t1.tvSec - t2.tvSec) * 1000000 + (t1.tvUsec - t2.tvUsec)).bmod (2 ^ 64)

def timeValAdd (time : GTimeVal) (usec : Int) : GTimeVal :=
  if 0 ≤ usec then
    ⟨time.tvSec + (usec + time.tvUsec) / 1000000, (usec + time.tvUsec) % 1000000⟩
  else
    let left := time.tvUsec - -usec % 1000000
    if left < 0 then ⟨time.tvSec - -usec / 1000000 - 1, left + 1000000⟩
    else ⟨time.tvSec - -usec / 1000000, left⟩

def timerTick (W : Platform) (self : PatternDB) (clock : GTimeVal) : Option PatternDB :=
  let diff := timeValDiff clock self.lastTick
  if diff ≤ 1000000 then some self
  else do
    let diffSec := W.tickSec diff
    let self ← self.wheelSetTime W ((self.now + diffSec) % 2 ^ 64).toNat
    some { self with lastTick := timeValAdd clock (W.tickRest diff diffSec) }

/-- `pattern_db_expire_state`, which is `timer_wheel_expire_all`. -/
def expireState (W : Platform) (self : PatternDB) : Option PatternDB := do
  let expired ← self.wheelSetTime W (2 ^ 64 - 1)
  some { expired with now := self.now }

/-! ## Messages -/

/-- `pdb_context_new`, and the insertion into the table. -/
def contextNew (self : PatternDB) (key : PDBStateKey) : PatternDB × Nat :=
  let ctx := self.nextContext
  ({ self with
      state := (key, .context ctx) :: self.state
      nextContext := ctx + 1 }.setContext ctx (some ⟨key, none, false, [], 1⟩), ctx)

/-- The context of a key; a new one where there is none. -/
def findContext (self : PatternDB) (key : PDBStateKey) : Option (PatternDB × Nat) :=
  match self.lookup key with
  | some (.context ctx) => some (self, ctx)
  | some (.rateLimit _) => none
  | none => some (self.contextNew key)

/-- The message goes into the context, whose timer is set or set again. -/
def addToContext (self : PatternDB) (rule : PDBRule) (ctx : Nat) (ref : MsgRef) :
    Option PatternDB := do
  let context ← self.contexts ctx
  let context := { context with messages := context.messages ++ [ref], rule := some rule }
  if context.timer then
    some ((self.setContext ctx (some context)).wheelModTimer rule.contextTimeout ctx)
  else
    let context := { context with timer := true, refCnt := context.refCnt + 1 }
    some ((self.setContext ctx (some context)).wheelAddTimer rule.contextTimeout ctx)

/-- The part of `pattern_db_process` for a rule with a context id. -/
def correlate (self : PatternDB) (rule : PDBRule) (ref : MsgRef)
    (contextIdTemplate : LogMessage → List UInt8) : Option (PatternDB × Nat) := do
  let msg := self.messages ref
  let (self, ctx) ← self.findContext
    (pdbStateKeySetup .context rule msg (cString (contextIdTemplate msg)))
  let self ← self.addToContext rule ctx ref
  some (self.record (.arrived ⟨ref, msg, rule, self.now⟩), ctx)

/-- What `pattern_db_process` does with the context it found. -/
def applyRule (W : Platform) (self : PatternDB) (rule : PDBRule) (context : Option PDBContext)
    (ref : MsgRef) : Option PatternDB :=
  let self := self.messageApply rule.msg (context.elim [ref] (·.messages))
    (context.map (·.key.sessionId)) ref
  if self.emit then
    (self.record (.emitted (self.messages ref) false)).runActions W rule .onMatch context ref
  else some self

/-- `pattern_db_process` of a rule: the context, if it has one, then its values and actions. -/
def processRule (W : Platform) (self : PatternDB) (rule : PDBRule) (ref : MsgRef) :
    Option PatternDB :=
  match rule.contextIdTemplate with
  | some contextIdTemplate => do
    let (self, ctx) ← self.correlate rule ref contextIdTemplate
    let context ← self.contexts ctx
    self.applyRule W rule (some context) ref
  | none => self.applyRule W rule none ref

/-- `pattern_db_process`: `rule` is what `pdb_rule_set_lookup` returned. -/
def process (W : Platform) (self : PatternDB) (rule : Option PDBRule) (msg : Nat)
    (content : LogMessage) (clock : GTimeVal) : Option PatternDB := do
  let self := self.setMessage (.input msg) content
  let self ← self.setTime W clock content.stamp
  match rule with
  | some rule => self.processRule W rule (.input msg)
  | none =>
    some (if self.emit then self.record (.emitted content false) else self)

end PatternDB

/-- `pattern_db_new`, with the emit function set or not. -/
def patternDbNew (lastTick : GTimeVal) (emit : Bool) : PatternDB where
  state := []
  contexts := fun _ => none
  nextContext := 0
  messages := fun _ => PatternDB.msgNewEmpty ⟨0, 0, 0⟩
  now := 0
  timers := []
  lastTick := lastTick
  emit := emit
  history := []

inductive PDBOp where
  | process (rule : Option PDBRule) (msg : Nat) (content : LogMessage) (clock : GTimeVal)
  | timerTick (clock : GTimeVal)
  | expireState

def patternDbStep (W : Platform) (self : PatternDB) : PDBOp → Option PatternDB
  | .process rule msg content clock => self.process W rule msg content clock
  | .timerTick clock => self.timerTick W clock
  | .expireState => self.expireState W

end SyslogNg.DbParser
