import SyslogNg.Filter.Expr
import SyslogNg.LogMsg.Protected

/-!
# Elements and messages that are write protected

Whether an element makes its message writable is decided by a bit of the expression, and what is
stored is decided by the flags of the matchers that the evaluation comes to. `stores` follows an
element on a message that nobody changes, up to the first match that would be stored.
-/

namespace SyslogNg.Filter

open Lib LogMsg Option List

variable {P α : Type}

/-! ## What would be stored -/

section

variable (env : MsgEnv P) (eng : MatchEngines) (rules : String → Option (FilterExprNode P))
  (h : LogHeap P) (m : Nat)

/-- What `log_matcher_match` returns. -/
def LogMatcher.finds (s : LogMatcher) (value : List UInt8) : Bool :=
  match s.type with
  | .posix => (eng.regexec s.re s.flags value false).isSome
  | .pcre =>
    match eng.pcreExec s.re s.flags value 0 false with
    | .matched _ => true
    | .noMatch | .error => false
  | .string => (logMatcherStringMatchString s value).isSome
  | .glob => ((h.msgs[m]?).map fun self => logMatcherGlobMatch eng s self value).getD false

/-- `log_matcher_match` stores the match in the message. -/
def LogMatcher.storesMatch (s : LogMatcher) (value : List UInt8) : Bool :=
  s.has lmfStoreMatches &&
    match s.type with
    | .posix => (eng.regexec s.re s.flags value false).isSome
    | .pcre =>
      match eng.pcreExec s.re s.flags value 0 false with
      | .matched found => found.rc ≠ 0
      | .noMatch | .error => false
    | .string | .glob => false

/-- The first round of `log_matcher_replace` changes the match variables, whatever the flags are. -/
def LogMatcher.storesReplace (s : LogMatcher) (value : List UInt8) : Bool :=
  match s.type with
  | .posix => value ≠ [] && (eng.regexec s.re s.flags value false).isSome
  | .pcre =>
    match eng.pcreExec s.re s.flags value 0 false with
    | .matched _ => true
    | .noMatch | .error => false
  | .string => value ≠ [] && (logMatcherStringMatchString s value).isSome &&
      s.has lmfStoreMatches && ((h.msgs[m]?).map (·.numMatches)).getD 0 ≠ 0
  | .glob => false

def FilterRE.holds (self : FilterRE) : Except MsgFault Bool :=
  match self.matcher with
  | some matcher => .ok (matcher.finds eng h m (self.subject env h m).2)
  | none => .error .invalid

def FilterRE.stores (self : FilterRE) : Bool :=
  match self.matcher with
  | some matcher => matcher.storesMatch eng (self.subject env h m).2
  | none => false

def FilterExprNode.holdsWith (callee : FilterExprNode P → Except MsgFault Bool) :
    FilterExprNode P → Except MsgFault Bool
  | .or comp left right => (left.holdsWith callee).bind fun res =>
      (if res then .ok true else right.holdsWith callee).map (· ^^ comp)
  | .and comp left right => (left.holdsWith callee).bind fun res =>
      (if res then right.holdsWith callee else .ok false).map (· ^^ comp)
  | .test comp self => .ok (self.eval env h m [] ^^ comp)
  | .re comp self => (self.holds env eng h m).map (· ^^ comp)
  | .call comp bound rule =>
    match if bound then rules rule else none with
    | some filterExpr => (callee filterExpr).map (· ^^ comp)
    | none => .ok (false ^^ comp)

def FilterExprNode.storesWith (holds : FilterExprNode P → Except MsgFault Bool)
    (stores : FilterExprNode P → Bool) : FilterExprNode P → Bool
  | .or _ left right => left.storesWith holds stores ||
      (left.holdsWith env eng rules h m holds).toOption.any fun res =>
        !res && right.storesWith holds stores
  | .and _ left right => left.storesWith holds stores ||
      (left.holdsWith env eng rules h m holds).toOption.any fun res =>
        res && right.storesWith holds stores
  | .test _ _ => false
  | .re _ self => self.stores env eng h m
  | .call _ bound rule => ((if bound then rules rule else none).map stores).getD false

def FilterExprNode.holds : (depth : Nat) → FilterExprNode P → Except MsgFault Bool
  | 0, self => self.holdsWith env eng rules h m fun _ => .error .stack
  | depth + 1, self => self.holdsWith env eng rules h m (FilterExprNode.holds depth)

def FilterExprNode.stores : (depth : Nat) → FilterExprNode P → Bool
  | 0, self => self.storesWith env eng rules h m (fun _ => .error .stack) fun _ => false
  | depth + 1, self =>
    self.storesWith env eng rules h m (FilterExprNode.holds env eng rules h m depth)
      (FilterExprNode.stores depth)

/-- The matcher of a `subst` stores before the message is made writable. -/
def LogRewriteProcess.stores (valueHandle : Nat) : LogRewriteProcess P → Bool
  | .subst matcher _ => matcher.storesReplace eng h m (logMsgGetValue env h m valueHandle)
  | .set _ | .setTag _ _ => false

def LogRewrite.stores (depth : Nat) (self : LogRewrite P) : Bool :=
  match self.condition with
  | some condition => condition.stores env eng rules h m depth ||
      (condition.holds env eng rules h m depth).toOption.any fun res =>
        res && self.process.stores env eng h m self.valueHandle
  | none => self.process.stores env eng h m self.valueHandle

end

/-- The pipes of this file and of `logrewrite.c`. -/
inductive ProcessingElement (P : Type) where
  | filter (expr : FilterExprNode P)
  | rewrite (self : LogRewrite P)

/-- `queue` of the pipe: whether the message is forwarded, and what it is then. -/
def ProcessingElement.queue (env : MsgEnv P) (eng : MatchEngines)
    (rules : String → Option (FilterExprNode P)) (depth rounds m : Nat) (ackNeeded : Bool) :
    ProcessingElement P → MsgM P (Bool × Nat)
  | .filter expr => logFilterPipeQueue env eng rules depth expr m ackNeeded
  | .rewrite self => do
    return (true, ← logRewriteQueue env eng rules depth rounds self m ackNeeded)

/-- The pipe makes its message writable before anything else. -/
def ProcessingElement.modify : ProcessingElement P → Bool
  | .filter expr => expr.modify
  | .rewrite _ => false

def ProcessingElement.stores (env : MsgEnv P) (eng : MatchEngines)
    (rules : String → Option (FilterExprNode P)) (h : LogHeap P) (m depth : Nat) :
    ProcessingElement P → Bool
  | .filter expr => expr.stores env eng rules h m depth
  | .rewrite self => self.stores env eng rules h m depth

/-! ## Elements that have a message of their own -/

section

variable {env : MsgEnv P} {eng : MatchEngines} {s : LogMatcher} {m valueHandle : Nat}
  {value : List UInt8} {replacement : LogTemplate P}

theorem confined_feedBackrefs {entries : List (Int × Int)} :
    Confined m (feedBackrefs env m valueHandle value entries) :=
  .forM fun _ => .ite confined_setMatchIndirect confined_setMatch

theorem confined_feedNamed {found : PcreMatches} :
    Confined m (logMatcherPcreReFeedNamedSubstrings env eng s m found value) :=
  .forM fun _ => confined_msgSetValue

theorem confined_match : Confined m (logMatcherMatch env eng s m valueHandle value) := by
  unfold logMatcherMatch
  split
  · unfold logMatcherPosixReMatch
    split
    · exact .pure _
    · exact .bind (.ite confined_feedBackrefs (.pure _)) fun _ => .pure _
  · unfold logMatcherPcreReMatch
    split
    · exact .pure _
    · exact .pure _
    · exact .bind (.ite (.bind confined_feedBackrefs fun _ => confined_feedNamed) (.pure _))
        fun _ => .pure _
  · exact .pure _
  · exact .bind .get fun _ => .pure _

variable {newValue : Option (List UInt8)}

theorem confined_posixReplaceLoop {rounds currentOfs : Nat} {firstRound : Bool} :
    Confined m (posixReplaceLoop env eng s m valueHandle value replacement rounds currentOfs firstRound
        newValue) := by
  induction rounds generalizing currentOfs firstRound newValue with
  | zero => exact .throw (by decide)
  | succ rounds ih =>
    unfold posixReplaceLoop
    refine .ite (.pure _) (.ite (.throw (by decide)) ?_)
    split
    · exact .pure _
    · exact .bind confined_feedBackrefs fun _ => .bind .get fun _ => .ite ih (.pure _)

theorem confined_stringReplaceLoop {rounds currentOfs : Nat} {firstRound : Bool} :
    Confined m (stringReplaceLoop env s m value replacement rounds currentOfs firstRound newValue) := by
  induction rounds generalizing currentOfs firstRound newValue with
  | zero => exact .throw (by decide)
  | succ rounds ih =>
    unfold stringReplaceLoop
    refine .ite (.pure _) (.ite (.throw (by decide)) ?_)
    split
    · exact .pure _
    · exact .bind (.ite confined_clearMatches (.pure _)) fun _ => .bind .get fun _ =>
        .ite ih (.pure _)

theorem confined_pcreReplaceLoop {rounds startOffset lastOffset : Nat} {lastEmpty : Bool} :
    Confined m (pcreReplaceLoop env eng s m valueHandle value replacement rounds startOffset lastOffset
        lastEmpty newValue) := by
  induction rounds generalizing startOffset lastOffset lastEmpty newValue with
  | zero => exact .throw (by decide)
  | succ rounds ih =>
    unfold pcreReplaceLoop
    split
    · exact .pure _
    · exact .ite ih (.pure _)
    · exact .bind confined_feedBackrefs fun _ => .bind confined_feedNamed fun _ =>
        .bind .get fun _ => .ite ih (.pure _)

theorem confined_replace {rounds : Nat} :
    Confined m (logMatcherReplace env eng s m valueHandle value replacement rounds) := by
  unfold logMatcherReplace
  split
  · exact confined_posixReplaceLoop
  · exact confined_pcreReplaceLoop
  · exact confined_stringReplaceLoop
  · exact .pure _

theorem confined_filterReEval {self : FilterRE} : Confined m (filterReEval env eng self m) := by
  refine .bind .get fun h => ?_
  split
  · exact confined_match
  · exact .throw (by decide)

variable {rules : String → Option (FilterExprNode P)} {context : List Nat}

theorem confined_evalWith {callee : FilterExprNode P → MsgM P Bool} (hcallee : ∀ e, Confined m (callee e))
    (self : FilterExprNode P) : Confined m (self.evalWith env eng rules m context callee) := by
  induction self with
  | or comp left right ihl ihr =>
    exact .bind ihl fun _ => .bind (.ite (.pure _) ihr) fun _ => .pure _
  | and comp left right ihl ihr =>
    exact .bind ihl fun _ => .bind (.ite ihr (.pure _)) fun _ => .pure _
  | test comp self => exact .bind .get fun _ => .pure _
  | re comp self => exact .bind confined_filterReEval fun _ => .pure _
  | call comp bound rule =>
    unfold FilterExprNode.evalWith
    split
    · exact .bind (hcallee _) fun _ => .pure _
    · exact .pure _

theorem confined_eval {depth : Nat} (self : FilterExprNode P) :
    Confined m (filterExprEvalWithContext env eng rules m context depth self) := by
  induction depth generalizing self with
  | zero => exact confined_evalWith (fun _ => .throw (by decide)) self
  | succ depth ih => exact confined_evalWith ih self

theorem confined_process {process : LogRewriteProcess P} {rounds : Nat} {ackNeeded : Bool} :
    Confined m (process.run env eng rounds valueHandle m ackNeeded) := by
  cases process with
  | subst matcher replacement =>
    refine .bind .get fun _ => .bind confined_replace fun newValue => ?_
    cases newValue with
    | some newValue => exact confined_makeWritable (.bind confined_msgSetValue fun _ => .pure _)
    | none => exact .pure _
  | set valueTemplate =>
    exact .bind .get fun _ => confined_makeWritable (.bind confined_msgSetValue fun _ => .pure _)
  | setTag tagId value => exact confined_makeWritable (.bind confined_msgSetTag fun _ => .pure _)

theorem confined_queue {depth rounds : Nat} {ackNeeded : Bool} (self : ProcessingElement P) :
    Confined m (self.queue env eng rules depth rounds m ackNeeded) := by
  cases self with
  | filter expr =>
    show Confined m (logFilterPipeQueue env eng rules depth expr m ackNeeded)
    unfold logFilterPipeQueue filterExprEval
    split
    · exact confined_makeWritable (.bind (confined_eval expr) fun _ => .pure _)
    · rw [pure_bind]
      exact .bind (confined_eval expr) fun _ => .pure _
  | rewrite self =>
    show Confined m (logRewriteQueue env eng rules depth rounds self m ackNeeded >>= _)
    refine .bind (.bind ?_ fun _ => .ite confined_process (.pure _)) fun _ => .pure _
    split
    · exact confined_eval _
    · exact .pure _

end

/-! ## Elements that have a protected message -/

section

variable {env : MsgEnv P} {eng : MatchEngines} {s : LogMatcher} {h : LogHeap P}
  {m valueHandle depth rounds : Nat} {ackNeeded : Bool} {value : List UInt8}
  {replacement : LogTemplate P} {rules : String → Option (FilterExprNode P)}

theorem feedBackrefs_protected {entries : List (Int × Int)} (hne : entries ≠ [])
    (hprot : (h.msgs[m]?).any logMsgIsWriteProtected = true) :
    (feedBackrefs env m valueHandle value entries).run h = .error .assertion := by
  obtain ⟨offsets, rest, rfl⟩ := exists_cons_of_ne_nil hne
  refine run_bind_of_error ?_
  dsimp only
  split
  · exact asserting_protected hprot
  · exact setMatch_protected hprot

theorem posixEntries_ne_nil (found : RegMatches) :
    (found.entries.take reMaxMatches).takeWhile (·.1 ≠ -1) ≠ [] := by
  unfold RegMatches.entries reMaxMatches
  rw [take_succ_cons, takeWhile_cons, if_pos]
  · exact cons_ne_nil _ _
  · simp

theorem pcreEntries_ne_nil (found : PcreMatches) {rc : Nat} (hrc : rc ≠ 0) :
    (range (min reMaxMatches rc)).map found.entry ≠ [] := by
  rw [Ne, map_eq_nil_iff, range_eq_nil]
  unfold reMaxMatches
  omega

theorem match_protected (hprot : (h.msgs[m]?).any logMsgIsWriteProtected = true) :
    Dry h (logMatcherMatch env eng s m valueHandle value) (s.storesMatch eng value)
      (.ok (s.finds eng h m value)) := by
  refine ⟨?_, by simp⟩
  unfold logMatcherMatch LogMatcher.storesMatch LogMatcher.finds
  cases s.type with
  | posix =>
    unfold logMatcherPosixReMatch
    cases eng.regexec s.re s.flags value false with
    | none => rw [isSome_none, Bool.and_false]; rfl
    | some found =>
      rw [isSome_some, Bool.and_true]
      dsimp only
      cases hst : s.has lmfStoreMatches with
      | true => exact run_bind_of_error (feedBackrefs_protected (posixEntries_ne_nil found) hprot)
      | false => rfl
  | pcre =>
    unfold logMatcherPcreReMatch
    cases eng.pcreExec s.re s.flags value 0 false with
    | noMatch => rw [Bool.and_false]; rfl
    | error => rw [Bool.and_false]; rfl
    | matched found =>
      dsimp only
      by_cases hst : found.rc ≠ 0 ∧ s.has lmfStoreMatches = true
      · rw [if_pos hst, hst.2, Bool.true_and, decide_eq_true hst.1, if_pos rfl]
        exact run_bind_of_error (run_bind_of_error
          (feedBackrefs_protected (pcreEntries_ne_nil found hst.1) hprot))
      · rw [if_neg hst, if_neg]
        · rfl
        · rw [Bool.and_eq_true, decide_eq_true_eq]
          exact fun hboth => hst ⟨hboth.2, hboth.1⟩
  | string => rw [Bool.and_false]; rfl
  | glob => rw [Bool.and_false]; rfl

theorem filterReEval_protected {self : FilterRE} (hprot : (h.msgs[m]?).any logMsgIsWriteProtected = true) :
    Dry h (filterReEval env eng self m) (self.stores env eng h m) (self.holds env eng h m) := by
  have hget : (filterReEval env eng self m).run h = _ := run_get_bind
  unfold FilterRE.stores FilterRE.holds
  dsimp only at hget
  cases hmatcher : self.matcher with
  | none =>
    rw [hmatcher] at hget
    exact ⟨hget, by simp⟩
  | some matcher =>
    rw [hmatcher] at hget
    exact ⟨hget.trans (match_protected hprot).run, by simp⟩

theorem evalWith_protected (hprot : (h.msgs[m]?).any logMsgIsWriteProtected = true)
    {callee : FilterExprNode P → MsgM P Bool} {holds : FilterExprNode P → Except MsgFault Bool}
    {stores : FilterExprNode P → Bool} (hcallee : ∀ e, Dry h (callee e) (stores e) (holds e))
    (self : FilterExprNode P) :
    Dry h (self.evalWith env eng rules m [] callee)
      (self.storesWith env eng rules h m holds stores) (self.holdsWith env eng rules h m holds) := by
  induction self with
  | or comp left right ihl ihr =>
    refine ihl.bind fun res => ?_
    cases res with
    | true => exact .map .pure
    | false => exact .map ihr
  | and comp left right ihl ihr =>
    refine ihl.bind fun res => ?_
    cases res with
    | true => exact .map ihr
    | false => exact .map .pure
  | test comp self => exact ⟨rfl, by simp [FilterExprNode.holdsWith]⟩
  | re comp self => exact (filterReEval_protected hprot).map
  | call comp bound rule =>
    unfold FilterExprNode.evalWith FilterExprNode.storesWith FilterExprNode.holdsWith
    cases if bound then rules rule else none with
    | none => exact .pure
    | some filterExpr => exact (hcallee filterExpr).map

theorem eval_protected (hprot : (h.msgs[m]?).any logMsgIsWriteProtected = true) (self : FilterExprNode P) :
    Dry h (filterExprEval env eng rules depth self m) (self.stores env eng rules h m depth)
      (self.holds env eng rules h m depth) := by
  unfold filterExprEval
  induction depth generalizing self with
  | zero => exact evalWith_protected hprot (fun _ => .throw (by decide)) self
  | succ depth ih => exact evalWith_protected hprot ih self

theorem stringReplaceLoop_silent
    (hnum : s.has lmfStoreMatches = false ∨ ((h.msgs[m]?).map (·.numMatches)).getD 0 = 0)
    {currentOfs : Nat} {firstRound : Bool} {newValue : Option (List UInt8)} :
    Silent h (stringReplaceLoop env s m value replacement rounds currentOfs firstRound newValue) := by
  induction rounds generalizing currentOfs firstRound newValue with
  | zero => exact ⟨_, .throw (by decide)⟩
  | succ rounds ih =>
    unfold stringReplaceLoop
    refine .ite ⟨_, .pure⟩ (.ite ⟨_, .throw (by decide)⟩ ?_)
    split
    · exact ⟨_, .pure⟩
    · refine .bind ?_ fun _ => .bind ⟨_, .get⟩ fun _ => .ite ih ⟨_, .pure⟩
      rcases hnum with hno | hzero
      · rw [hno]
        exact ⟨_, .pure⟩
      · exact .ite (clearMatches_silent hzero) ⟨_, .pure⟩

theorem posixReplaceLoop_protected (hprot : (h.msgs[m]?).any logMsgIsWriteProtected = true) :
    ∃ outcome, Dry h (posixReplaceLoop env eng s m valueHandle value replacement (rounds + 1) 0 true none)
      (value ≠ [] && (eng.regexec s.re s.flags value false).isSome) outcome := by
  unfold posixReplaceLoop
  cases value with
  | nil => exact ⟨_, .pure⟩
  | cons c cs =>
    have hne : 0 ≠ (c :: cs).length := (Nat.succ_ne_zero _).symm
    rw [if_neg hne, if_neg (Nat.not_lt_zero _)]
    simp only [drop_zero, lt_self_iff_false, decide_false]
    cases eng.regexec s.re s.flags (c :: cs) false with
    | none => exact ⟨_, .pure⟩
    | some found =>
      exact ⟨_, .fault (run_bind_of_error (feedBackrefs_protected (posixEntries_ne_nil found) hprot))⟩

theorem pcreReplaceLoop_protected (hprot : (h.msgs[m]?).any logMsgIsWriteProtected = true) :
    ∃ outcome, Dry h
      (pcreReplaceLoop env eng s m valueHandle value replacement (rounds + 1) 0 0 false none)
      (match eng.pcreExec s.re s.flags value 0 false with
        | .matched _ => true
        | .noMatch | .error => false) outcome := by
  unfold pcreReplaceLoop
  cases eng.pcreExec s.re s.flags value 0 false with
  | error => exact ⟨_, .pure⟩
  | noMatch => exact ⟨_, .pure⟩
  | matched found =>
    refine ⟨_, .fault (run_bind_of_error (feedBackrefs_protected ?_ hprot))⟩
    refine pcreEntries_ne_nil found ?_
    split
    · exact Nat.succ_ne_zero _
    · assumption

theorem stringReplaceLoop_protected (hprot : (h.msgs[m]?).any logMsgIsWriteProtected = true) :
    ∃ outcome, Dry h (stringReplaceLoop env s m value replacement (rounds + 1) 0 true none)
      (value ≠ [] && (logMatcherStringMatchString s value).isSome && s.has lmfStoreMatches &&
        ((h.msgs[m]?).map (·.numMatches)).getD 0 ≠ 0) outcome := by
  by_cases hclear : s.has lmfStoreMatches = true ∧ ((h.msgs[m]?).map (·.numMatches)).getD 0 ≠ 0
  swap
  · have hnum : s.has lmfStoreMatches = false ∨ ((h.msgs[m]?).map (·.numMatches)).getD 0 = 0 := by
      rwa [not_and_or, Bool.not_eq_true, not_ne_iff] at hclear
    have hboth : (s.has lmfStoreMatches &&
        decide (((h.msgs[m]?).map (·.numMatches)).getD 0 ≠ 0)) = false := by simpa using hclear
    rw [Bool.and_assoc _ (s.has lmfStoreMatches), hboth, Bool.and_false]
    exact stringReplaceLoop_silent hnum
  rw [hclear.1, Bool.and_true, decide_eq_true hclear.2, Bool.and_true]
  unfold stringReplaceLoop
  cases value with
  | nil => exact ⟨_, .pure⟩
  | cons c cs =>
    have hne : 0 ≠ (c :: cs).length := (Nat.succ_ne_zero _).symm
    rw [if_neg hne, if_neg (Nat.not_lt_zero _)]
    simp only [drop_zero]
    cases logMatcherStringMatchString s (c :: cs) with
    | none => exact ⟨_, .pure⟩
    | some ofs =>
      dsimp only
      rw [hclear.1, if_pos rfl]
      exact ⟨_, .fault (run_bind_of_error (clearMatches_protected hprot hclear.2))⟩

theorem replace_protected (hprot : (h.msgs[m]?).any logMsgIsWriteProtected = true) :
    ∃ outcome, Dry h (logMatcherReplace env eng s m valueHandle value replacement rounds)
      (s.storesReplace eng h m value) outcome := by
  unfold LogMatcher.storesReplace logMatcherReplace
  cases s.type with
  | posix => exact posixReplaceLoop_protected hprot
  | pcre => exact pcreReplaceLoop_protected hprot
  | string => exact stringReplaceLoop_protected hprot
  | glob => exact ⟨_, .pure⟩

theorem process_protected (hin : h.InBounds) (hprot : (h.msgs[m]?).any logMsgIsWriteProtected = true)
    (process : LogRewriteProcess P) :
    FaultsIf h m (process.run env eng rounds valueHandle m ackNeeded)
      (process.stores env eng h m valueHandle) := by
  cases process with
  | subst matcher replacement =>
    obtain ⟨outcome, hreplace⟩ := replace_protected hprot
    refine .get_bind (.bind_leaves hreplace fun newValue => ?_)
    cases newValue with
    | some newValue =>
      exact .of_leaves (leaves_makeWritable hin hprot fun c =>
        .bind confined_msgSetValue fun _ => .pure _)
    | none => exact .of_dry .pure
  | set valueTemplate =>
    exact .get_bind (.of_leaves (leaves_makeWritable hin hprot fun c =>
      .bind confined_msgSetValue fun _ => .pure _))
  | setTag tagId value =>
    exact .of_leaves (leaves_makeWritable hin hprot fun c =>
      .bind confined_msgSetTag fun _ => .pure _)

theorem rewriteQueue_protected (hin : h.InBounds) (hprot : (h.msgs[m]?).any logMsgIsWriteProtected = true)
    (self : LogRewrite P) :
    FaultsIf h m (logRewriteQueue env eng rules depth rounds self m ackNeeded)
      (self.stores env eng rules h m depth) := by
  unfold logRewriteQueue LogRewrite.stores
  cases self.condition with
  | none =>
    have hdry : Dry h (pure true : MsgM P Bool) false (.ok true) := .pure
    exact .bind hdry fun _ => process_protected hin hprot self.process
  | some condition =>
    refine .bind (eval_protected hprot condition) fun matched => ?_
    cases matched with
    | true => exact process_protected hin hprot self.process
    | false => exact .of_dry .pure

theorem queue_protected (hin : h.InBounds) (hprot : (h.msgs[m]?).any logMsgIsWriteProtected = true)
    (self : ProcessingElement P) :
    FaultsIf h m (self.queue env eng rules depth rounds m ackNeeded)
      (!self.modify && self.stores env eng rules h m depth) := by
  cases self with
  | filter expr =>
    show FaultsIf h m (logFilterPipeQueue env eng rules depth expr m ackNeeded)
      (!expr.modify && expr.stores env eng rules h m depth)
    unfold logFilterPipeQueue
    cases expr.modify with
    | true =>
      exact .of_leaves (leaves_makeWritable hin hprot fun c =>
        .bind (confined_eval expr) fun _ => .pure _)
    | false =>
      rw [if_neg Bool.false_ne_true, pure_bind]
      exact .bind_leaves (eval_protected hprot expr) fun _ => .of_dry .pure
  | rewrite self => exact (rewriteQueue_protected hin hprot self).map

theorem queue_unprotected {msg : LogMessage} (hm : h.msgs[m]? = some msg)
    (hprot : logMsgIsWriteProtected msg = false) (self : ProcessingElement P) :
    LeavesProtected h m (self.queue env eng rules depth rounds m ackNeeded) := by
  have hw : Writable m h := by
    refine ⟨msg, hm, ?_⟩
    unfold logMsgIsWriteProtected at hprot
    simpa using hprot
  refine ⟨(confined_queue self).asserts hw, fun a h' _ hany => ?_⟩
  rw [hm, any_some, hprot] at hany
  cases hany

/-- **Elements and shared messages.** A filter or a rewrite rule changes messages only as far as they
are not write protected, and a protected message with all the others shows what it showed before,
exactly if the message is not protected, or the element makes it writable at once, or the element
comes to no match that it stores before it makes the message writable. -/
theorem log_pipe_leaves_protected {msg : LogMessage} (hin : h.InBounds) (hm : h.msgs[m]? = some msg)
    (self : ProcessingElement P) :
    LeavesProtected h m (self.queue env eng rules depth rounds m ackNeeded) ↔
      logMsgIsWriteProtected msg = false ∨ self.modify = true ∨
        self.stores env eng rules h m depth = false := by
  cases hprot : logMsgIsWriteProtected msg with
  | false => exact ⟨fun _ => .inl rfl, fun _ => queue_unprotected hm hprot self⟩
  | true =>
    have hqueue := @queue_protected P env eng h m depth rounds ackNeeded rules hin
      (by rw [hm, any_some, hprot]) self
    cases hmod : self.modify with
    | true =>
      rw [hmod] at hqueue
      exact ⟨fun _ => .inr (.inl rfl), fun _ => hqueue.leaves rfl⟩
    | false =>
      rw [hmod, Bool.not_false, Bool.true_and] at hqueue
      constructor
      · rintro ⟨hassert, -⟩
        cases hst : self.stores env eng rules h m depth with
        | false => exact .inr (.inr rfl)
        | true => exact absurd (hqueue.faults hst) hassert
      · rintro (hcontra | hcontra | hst)
        · cases hcontra
        · cases hcontra
        · exact hqueue.leaves hst

/-! ## Filters with regexps of their own -/

end

/-! ## The engines of the examples below -/

/-- Regular expressions without special characters. -/
def literalEngines : MatchEngines where
  regexec re _ value _ := (findString false value re).map fun i => ⟨(i, i + re.length), []⟩
  pcreExec re _ value start _ :=
    match findString false (value.drop start) re with
    | some i => .matched ⟨1, (start + i, start + i + re.length), []⟩
    | none => .noMatch
  captureCount _ _ := 0
  nameTable _ _ := []
  patternMatch pattern value := pattern = value
  utf8Validate _ := true

def plainEnv : MsgEnv NameValue.NVTable where
  ops := nvTableOps
  registry := plainRegistry
  matchHandle i := 100 + i
  matchHandle_ge i := Nat.le_trans (by decide) (Nat.le_add_right 100 i)
  valueHandle _ := 99
  isHandleMacro _ := false
  nvTableGetValue table handle := (table.getValue handle).getD []
  getMacroValue _ _ _ := []
  saddr _ _ := none

/-- `message("a" flags("store-matches"))`. -/
def storingFilter : FilterExprNode NameValue.NVTable :=
  .re false (filterReParse false (filterReNew lmVMessage) [.flags lmfStoreMatches] [97])

/-- A filter with a regexp of its own makes a queued message writable. -/
theorem log_pipe_leaves_protected_filter : ∃ h,
    exec (msgStep nvTableOps plainRegistry) (logMsgNew (NameValue.nvTableNew 9 16 256) ⟨0, 0, 0⟩)
      [.setValue 0 lmVMessage [97], .queue 0] = some h ∧
    LeavesProtected h 0
      ((ProcessingElement.filter storingFilter).queue plainEnv literalEngines (fun _ => none) 0 0 0
        true) := by
  have hsome := show ((exec (msgStep nvTableOps plainRegistry)
      (logMsgNew (NameValue.nvTableNew 9 16 256) ⟨0, 0, 0⟩)
      [.setValue 0 lmVMessage [97], .queue 0]).bind fun h => h.msgs[0]?).isSome = true by
    decide +kernel
  obtain ⟨msg, hmsg⟩ := isSome_iff_exists.1 hsome
  obtain ⟨h, hexec, hm⟩ := bind_eq_some_iff.1 hmsg
  have hin := inBounds_of_run (.of_exec (fun _ _ _ hs => hs) hexec)
  exact ⟨h, hexec, (log_pipe_leaves_protected hin hm _).2 (.inr (.inl rfl))⟩

/-- The assertion fails on a queued message: for `subst("a" "b")`, for a rule with a condition that
stores its matches, and for a filter that calls such a filter. -/
theorem log_pipe_stores_in_protected : ∃ h,
    exec (msgStep nvTableOps plainRegistry) (logMsgNew (NameValue.nvTableNew 9 16 256) ⟨0, 0, 0⟩)
      [.setValue 0 lmVMessage [97], .queue 0] = some h ∧
    ¬ LeavesProtected h 0 ((ProcessingElement.rewrite ⟨lmVMessage, none,
      .subst ⟨.posix, 0, [97]⟩ fun _ _ => [98]⟩).queue plainEnv literalEngines (fun _ => none) 0 0 0
        true) ∧
    ¬ LeavesProtected h 0 ((ProcessingElement.rewrite ⟨lmVMessage, some storingFilter,
      .set fun _ _ => [98]⟩).queue plainEnv literalEngines (fun _ => none) 0 0 0 true) ∧
    ¬ LeavesProtected h 0 ((ProcessingElement.filter (.call false true "f")).queue plainEnv
      literalEngines (fun _ => some storingFilter) 1 0 0 true) := by
  have hsome := show ((exec (msgStep nvTableOps plainRegistry)
      (logMsgNew (NameValue.nvTableNew 9 16 256) ⟨0, 0, 0⟩)
      [.setValue 0 lmVMessage [97], .queue 0]).map fun h =>
        ((h.msgs[0]?).any logMsgIsWriteProtected,
          (LogMatcher.mk .posix 0 [97]).storesReplace literalEngines h 0
            (logMsgGetValue plainEnv h 0 lmVMessage),
          storingFilter.stores plainEnv literalEngines (fun _ => none) h 0 0,
          (FilterExprNode.call false true "f").stores plainEnv literalEngines
            (fun _ => some storingFilter) h 0 1)) = some (true, true, true, true) by
    decide +kernel
  obtain ⟨h, hexec, heq⟩ := map_eq_some_iff.1 hsome
  simp only [Prod.mk.injEq] at heq
  obtain ⟨hprot, hsubst, hcondition, hcall⟩ := heq
  have hin := inBounds_of_run (.of_exec (fun _ _ _ hs => hs) hexec)
  refine ⟨h, hexec, fun hl => hl.1 ?_, fun hl => hl.1 ?_, fun hl => hl.1 ?_⟩
  · exact (queue_protected hin hprot _).faults hsubst
  · exact (queue_protected hin hprot _).faults (by
      show (storingFilter.stores _ _ _ _ _ _ || _) = true
      rw [hcondition, Bool.true_or])
  · exact (queue_protected hin hprot _).faults hcall

end SyslogNg.Filter
