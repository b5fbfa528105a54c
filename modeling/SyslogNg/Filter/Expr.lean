import SyslogNg.Filter.Matcher

/-!
# Filter expressions (`lib/filter.c`) and rewrite rules (`lib/logrewrite.c`)

A `filter()` call names a rule; what `cfg_tree_get_object` finds under a name is a parameter, so
rules may refer to each other in any way. An evaluation is given the depth to which calls may be
nested. Elements end where they hand the message on.
-/

namespace SyslogNg.Filter

open LogMsg

variable {P : Type}

def lmVMessage : Nat := 3
def lmVPid : Nat := 5

/-! ## Regexp filters -/

/-- `FilterRE`, with its bit of `FilterExprNode`. `compat` is what `filter_match_new` makes. -/
structure FilterRE where
  modify : Bool
  valueHandle : Nat
  compat : Bool
  matcher : Option LogMatcher

def filterReNew (valueHandle : Nat) : FilterRE := ⟨false, valueHandle, false, none⟩

/-- `old` is a configuration of a version before 3.0. -/
def logMatcherPosixReNew (old : Bool) : LogMatcher :=
  ⟨.posix, if old then lmfStoreMatches else 0, []⟩

def logMatcherNew (old : Bool) : MatcherType → LogMatcher
  | .posix => logMatcherPosixReNew old
  | other => ⟨other, 0, []⟩

def filterReSetFlags (old : Bool) (self : FilterRE) (flags : BitVec 32) : FilterRE :=
  { self with
    modify := self.modify || flags &&& lmfStoreMatches ≠ 0
    matcher := some { self.matcher.getD (logMatcherPosixReNew old) with
      flags := flags ||| lmfMatchOnly } }

def filterReSetMatcher (old : Bool) (self : FilterRE) (matcher : LogMatcher) : FilterRE :=
  filterReSetFlags old { self with matcher := some matcher } ((self.matcher.map (·.flags)).getD 0)

def filterReSetRegexp (old : Bool) (self : FilterRE) (re : List UInt8) : FilterRE :=
  { self with matcher := some { self.matcher.getD (logMatcherPosixReNew old) with re := re } }

/-- `filter_re_opt` and `filter_match_opt` of the grammar. -/
inductive FilterReOpt where
  | type (name : MatcherType)
  | flags (bits : BitVec 32)
  | value (handle : Nat)

def FilterReOpt.apply (old : Bool) (self : FilterRE) : FilterReOpt → FilterRE
  | .type name => filterReSetMatcher old self (logMatcherNew old name)
  | .flags bits => filterReSetFlags old self bits
  | .value handle => { self with valueHandle := handle }

/-- The options of a regexp filter, and then its regexp. -/
def filterReParse (old : Bool) (self : FilterRE) (opts : List FilterReOpt) (re : List UInt8) :
    FilterRE :=
  filterReSetRegexp old (opts.foldl (FilterReOpt.apply old) self) re

/-! ## Expressions -/

def fcmpEq : BitVec 32 := 0x0001
def fcmpLt : BitVec 32 := 0x0002
def fcmpGt : BitVec 32 := 0x0004
def fcmpNum : BitVec 32 := 0x0010

/-- The tests that only read the message. -/
inductive FilterTest (P : Type) where
  | cmp (left right : LogTemplate P) (cmpOp : BitVec 32)
  | facility (valid : BitVec 32)
  | level (valid : BitVec 32)
  | netmask (address mask : BitVec 32)
  | tags (ids : List Nat)

/-- `bound` says that `filter_call_init` has been called for the node. -/
inductive FilterExprNode (P : Type) where
  | or (comp : Bool) (left right : FilterExprNode P)
  | and (comp : Bool) (left right : FilterExprNode P)
  | test (comp : Bool) (self : FilterTest P)
  | re (comp : Bool) (self : FilterRE)
  | call (comp bound : Bool) (rule : String)

/-- The bit `modify`, as the constructors of the nodes set it. -/
def FilterExprNode.modify : FilterExprNode P → Bool
  | .or _ left right | .and _ left right => left.modify || right.modify
  | .re _ self => self.modify
  | .test _ _ | .call _ _ _ => false

/-- `atoi`; `strtol` saturates, and the result is cut to 32 bits. -/
def atoi (s : List UInt8) : BitVec 32 :=
  let s := (cString s).dropWhile fun c => c = 32 ∨ 9 ≤ c ∧ c ≤ 13
  let digits := if s.head? = some 45 ∨ s.head? = some 43 then s.tail else s
  let n := (digits.takeWhile fun c => 48 ≤ c ∧ c ≤ 57).foldl
    (fun acc c => acc * 10 + (c.toNat - 48)) 0
  if s.head? = some 45 then BitVec.ofInt 32 (-(min n (2 ^ 63) : Nat))
  else BitVec.ofNat 32 (min n (2 ^ 63 - 1))

/-- The outcome of `fop_cmp_eval` for operands that compare in this way. -/
def fopCmpResult (cmpOp : BitVec 32) : Ordering → Bool
  | .eq => cmpOp &&& fcmpEq ≠ 0
  | .lt => cmpOp &&& fcmpLt ≠ 0 || cmpOp = 0
  | .gt => cmpOp &&& fcmpGt ≠ 0 || cmpOp = 0

/-- `cmp` is 1 where the left number is smaller. -/
def fopCmpEval (cmpOp : BitVec 32) (left right : List UInt8) : Bool :=
  fopCmpResult cmpOp <|
    if cmpOp &&& fcmpNum ≠ 0 then compare (atoi right).toInt (atoi left).toInt
    else compare (cString left) (cString right)

section

variable (env : MsgEnv P) (eng : MatchEngines)

def FilterTest.eval (h : LogHeap P) (m : Nat) (context : List Nat) : FilterTest P → Bool
  | .cmp left right cmpOp => fopCmpEval cmpOp (left h (m :: context)) (right h (m :: context))
  | .facility valid =>
    let facNum := (((h.msgs[m]?).map (·.pri.toNat)).getD 0 / 8) % 128
    if valid.getLsbD 31 then (valid &&& 0x7FFFFFFF).toNat = facNum
    else valid.getLsbD (facNum % 32)
  | .level valid => valid.getLsbD (((h.msgs[m]?).map (·.pri.toNat)).getD 0 % 8)
  | .netmask address mask =>
    match env.saddr h m with
    | some (.inet addr) => addr &&& mask = address
    | none | some .unix => 0x7F000001#32 &&& mask = address
    | some .other => false
  | .tags ids => ids.any fun id => ((h.msgs[m]?).map (logMsgIsTagById h · id)).getD false

/-- The value that a regexp filter looks at, with its handle. -/
def FilterRE.subject (self : FilterRE) (h : LogHeap P) (m : Nat) : Nat × List UInt8 :=
  if self.compat ∧ self.valueHandle = 0 then
    let pid := logMsgGetValue env h m lmVPid
    (lmVNone, cString (logMsgGetValue env h m lmVProgram) ++
      (if pid.length > 0 then [91] else []) ++ cString pid ++
      (if pid.length > 0 then [93] else []) ++ [58, 32] ++
      cString (logMsgGetValue env h m lmVMessage))
  else (self.valueHandle, logMsgGetValue env h m self.valueHandle)

/-- `filter_re_eval` and `filter_match_eval`. -/
def filterReEval (self : FilterRE) (m : Nat) : MsgM P Bool := do
  let subject := self.subject env (← get) m
  match self.matcher with
  | some matcher => logMatcherMatch env eng matcher m subject.1 subject.2
  | none => throw .invalid

/-- `rules` is the expression of the filter rule of a name. -/
def FilterExprNode.evalWith (rules : String → Option (FilterExprNode P)) (m : Nat)
    (context : List Nat) (callee : FilterExprNode P → MsgM P Bool) : FilterExprNode P → MsgM P Bool
  | .or comp left right => do
    let res ← left.evalWith rules m context callee
    let res ← (if res then pure true else right.evalWith rules m context callee)
    return res ^^ comp
  | .and comp left right => do
    let res ← left.evalWith rules m context callee
    let res ← (if res then right.evalWith rules m context callee else pure false)
    return res ^^ comp
  | .test comp self => do return self.eval env (← get) m context ^^ comp
  | .re comp self => do return (← filterReEval env eng self m) ^^ comp
  | .call comp bound rule => do
    match if bound then rules rule else none with
    | some filterExpr => return (← callee filterExpr) ^^ comp
    | none => return false ^^ comp

def filterExprEvalWithContext (rules : String → Option (FilterExprNode P)) (m : Nat)
    (context : List Nat) : (depth : Nat) → FilterExprNode P → MsgM P Bool
  | 0, self => self.evalWith env eng rules m context fun _ => throw .stack
  | depth + 1, self =>
    self.evalWith env eng rules m context (filterExprEvalWithContext rules m context depth)

def filterExprEval (rules : String → Option (FilterExprNode P)) (depth : Nat)
    (self : FilterExprNode P) (m : Nat) : MsgM P Bool :=
  filterExprEvalWithContext env eng rules m [] depth self

/-! ## Elements -/

inductive LogRewriteProcess (P : Type) where
  | subst (matcher : LogMatcher) (replacement : LogTemplate P)
  | set (valueTemplate : LogTemplate P)
  | setTag (tagId : Nat) (value : Bool)

structure LogRewrite (P : Type) where
  valueHandle : Nat
  condition : Option (FilterExprNode P)
  process : LogRewriteProcess P

/-- `log_filter_pipe_queue`: whether the message is forwarded, and what it is then. -/
def logFilterPipeQueue (rules : String → Option (FilterExprNode P)) (depth : Nat)
    (expr : FilterExprNode P) (m : Nat) (ackNeeded : Bool) : MsgM P (Bool × Nat) := do
  let m ← (if expr.modify then msgMakeWritable m ackNeeded else pure m)
  let res ← filterExprEval env eng rules depth expr m
  return (res, m)

def logRewriteSubstProcess (rounds : Nat) (valueHandle : Nat) (matcher : LogMatcher)
    (replacement : LogTemplate P) (m : Nat) (ackNeeded : Bool) : MsgM P Nat := do
  let value := logMsgGetValue env (← get) m valueHandle
  match ← logMatcherReplace env eng matcher m valueHandle value replacement rounds with
  | some newValue =>
    let m ← msgMakeWritable m ackNeeded
    msgSetValue env m valueHandle newValue
    return m
  | none => return m

def logRewriteSetProcess (valueHandle : Nat) (valueTemplate : LogTemplate P) (m : Nat)
    (ackNeeded : Bool) : MsgM P Nat := do
  let result := valueTemplate (← get) [m]
  let m ← msgMakeWritable m ackNeeded
  msgSetValue env m valueHandle result
  return m

def logRewriteSetTagProcess (tagId : Nat) (value : Bool) (m : Nat) (ackNeeded : Bool) :
    MsgM P Nat := do
  let m ← msgMakeWritable m ackNeeded
  msgSetTag m tagId value
  return m

def LogRewriteProcess.run (rounds : Nat) (valueHandle : Nat) (m : Nat) (ackNeeded : Bool) :
    LogRewriteProcess P → MsgM P Nat
  | .subst matcher replacement =>
    logRewriteSubstProcess env eng rounds valueHandle matcher replacement m ackNeeded
  | .set valueTemplate => logRewriteSetProcess env valueHandle valueTemplate m ackNeeded
  | .setTag tagId value => logRewriteSetTagProcess tagId value m ackNeeded

/-- `log_rewrite_queue`: the message that is forwarded. -/
def logRewriteQueue (rules : String → Option (FilterExprNode P)) (depth rounds : Nat)
    (self : LogRewrite P) (m : Nat) (ackNeeded : Bool) : MsgM P Nat := do
  let matched ← (match self.condition with
    | some condition => filterExprEval env eng rules depth condition m
    | none => pure true)
  if matched then self.process.run env eng rounds self.valueHandle m ackNeeded else return m

end

end SyslogNg.Filter
