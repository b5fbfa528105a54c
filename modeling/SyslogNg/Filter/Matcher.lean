import SyslogNg.LogMsg.Matches

/-!
# Matchers (`lib/logmatcher.c`)

The regexp libraries are a parameter: what `regexec` and `pcre_exec` answer for a pattern that was
compiled with the flags of its matcher. Values are byte lists without the `NUL` behind them. The
loops over a value take the number of their rounds.
-/

namespace SyslogNg.Filter

open LogMsg

def reMaxMatches : Nat := 256

def lfUtf8 : BitVec 32 := 0x0001

def lmfGlobal : BitVec 32 := 0x0001
def lmfIcase : BitVec 32 := 0x0002
def lmfMatchOnly : BitVec 32 := 0x0004
def lmfStoreMatches : BitVec 32 := 0x0020
def lmfSubstring : BitVec 32 := 0x0040
def lmfPrefix : BitVec 32 := 0x0080

/-- `regmatch_t` as `regexec` fills it when it matches: the first entry is the match itself. -/
structure RegMatches where
  whole : Nat × Nat
  groups : List (Int × Int)

def RegMatches.entries (found : RegMatches) : List (Int × Int) :=
  ((found.whole.1 : Int), (found.whole.2 : Int)) :: found.groups

/-- A return value of `pcre_exec` that is not negative, with the offsets; it is 0 if there was not
enough room for them. -/
structure PcreMatches where
  rc : Nat
  whole : Nat × Nat
  groups : List (Int × Int)

def PcreMatches.entry (found : PcreMatches) (i : Nat) : Int × Int :=
  (((found.whole.1 : Int), (found.whole.2 : Int)) :: found.groups).getD i (-1, -1)

inductive PcreResult where
  | matched (found : PcreMatches)
  | noMatch
  | error

structure MatchEngines where
  regexec : (re : List UInt8) → (flags : BitVec 32) → (value : List UInt8) → (notBol : Bool) →
    Option RegMatches
  /-- `notEmpty` stands for `PCRE_NOTEMPTY | PCRE_ANCHORED`. -/
  pcreExec : (re : List UInt8) → (flags : BitVec 32) → (value : List UInt8) → (startOffset : Nat) →
    (notEmpty : Bool) → PcreResult
  captureCount : (re : List UInt8) → (flags : BitVec 32) → Nat
  nameTable : (re : List UInt8) → (flags : BitVec 32) → List (Nat × List UInt8)
  /-- `g_pattern_match`. -/
  patternMatch : (pattern value : List UInt8) → Bool
  utf8Validate : List UInt8 → Bool

inductive MatcherType where
  | posix
  | pcre
  | string
  | glob
  deriving DecidableEq

/-- `re` is what `log_matcher_compile` was given. -/
structure LogMatcher where
  type : MatcherType
  flags : BitVec 32
  re : List UInt8

def LogMatcher.has (s : LogMatcher) (flag : BitVec 32) : Bool := s.flags &&& flag ≠ 0

variable {P : Type}

/-! ## Back references -/

def slice (value : List UInt8) (offsets : Int × Int) : List UInt8 :=
  (value.drop offsets.1.toNat).take (offsets.2 - offsets.1).toNat

/-- The loops of `log_matcher_*_feed_backrefs`. -/
def feedBackrefs (env : MsgEnv P) (m valueHandle : Nat) (value : List UInt8)
    (entries : List (Int × Int)) : MsgM P Unit :=
  entries.zipIdx.forM fun (offsets, i) =>
    if valueHandle ≠ lmVNone ∧ env.isHandleMacro valueHandle = false then
      logMsgSetMatchIndirect env m i valueHandle 0 (offsets.1 % 2 ^ 16).toNat
        ((offsets.2 - offsets.1) % 2 ^ 16).toNat
    else logMsgSetMatch env m i (slice value offsets)

def logMatcherPosixReFeedBackrefs (env : MsgEnv P) (m valueHandle : Nat) (found : RegMatches)
    (value : List UInt8) : MsgM P Unit :=
  feedBackrefs env m valueHandle value ((found.entries.take reMaxMatches).takeWhile (·.1 ≠ -1))

def logMatcherPcreReFeedBackrefs (env : MsgEnv P) (m valueHandle : Nat) (found : PcreMatches)
    (matchNum : Nat) (value : List UInt8) : MsgM P Unit :=
  feedBackrefs env m valueHandle value ((List.range (min reMaxMatches matchNum)).map found.entry)

def logMatcherPcreReFeedNamedSubstrings (env : MsgEnv P) (eng : MatchEngines) (s : LogMatcher)
    (m : Nat) (found : PcreMatches) (value : List UInt8) : MsgM P Unit :=
  (eng.nameTable s.re s.flags).forM fun (n, name) =>
    msgSetValue env m (env.valueHandle name) (slice value (found.entry n))

/-! ## Strings -/

/-- The C string at the start of a value. -/
def cString (value : List UInt8) : List UInt8 := value.takeWhile (· ≠ 0)

def toLower (c : UInt8) : UInt8 := if 65 ≤ c ∧ c ≤ 90 then c + 32 else c

def foldCase (icase : Bool) (value : List UInt8) : List UInt8 :=
  if icase then value.map toLower else value

/-- `strncmp` and `strncasecmp` find no difference. -/
def strnEqual (icase : Bool) (a b : List UInt8) (n : Nat) : Bool :=
  foldCase icase (cString (a.take n)) = foldCase icase (cString (b.take n))

/-- `g_strstr_len` and `strcasestr`. -/
def findString (icase : Bool) (value pattern : List UInt8) : Option Nat :=
  let value := foldCase icase (cString value)
  let pattern := foldCase icase pattern
  (List.range (value.length + 1)).find? fun i => (value.drop i).take pattern.length = pattern

/-- `log_matcher_string_match_string`, with the offset of the match. -/
def logMatcherStringMatchString (s : LogMatcher) (value : List UInt8) : Option Nat :=
  if value.length < s.re.length then none
  else if !s.has (lmfSubstring + lmfPrefix) then
    if strnEqual (s.has lmfIcase) value s.re value.length then some 0 else none
  else if s.has lmfPrefix then
    if strnEqual (s.has lmfIcase) value s.re s.re.length then some 0 else none
  else findString (s.has lmfIcase) value s.re

/-! ## Matches -/

def logMatcherPosixReMatch (env : MsgEnv P) (eng : MatchEngines) (s : LogMatcher)
    (m valueHandle : Nat) (value : List UInt8) : MsgM P Bool :=
  match eng.regexec s.re s.flags value false with
  | none => return false
  | some found => do
    (if s.has lmfStoreMatches then logMatcherPosixReFeedBackrefs env m valueHandle found value
      else pure ())
    return true

def logMatcherPcreReMatch (env : MsgEnv P) (eng : MatchEngines) (s : LogMatcher)
    (m valueHandle : Nat) (value : List UInt8) : MsgM P Bool :=
  match eng.pcreExec s.re s.flags value 0 false with
  | .noMatch | .error => return false
  | .matched found => do
    (if found.rc ≠ 0 ∧ s.has lmfStoreMatches then do
        logMatcherPcreReFeedBackrefs env m valueHandle found found.rc value
        logMatcherPcreReFeedNamedSubstrings env eng s m found value
      else pure ())
    return true

def logMatcherGlobMatch (eng : MatchEngines) (s : LogMatcher) (self : LogMessage)
    (value : List UInt8) : Bool :=
  (logMsgChkFlag self lfUtf8 || eng.utf8Validate value) && eng.patternMatch s.re value

def logMatcherMatch (env : MsgEnv P) (eng : MatchEngines) (s : LogMatcher) (m valueHandle : Nat)
    (value : List UInt8) : MsgM P Bool :=
  match s.type with
  | .posix => logMatcherPosixReMatch env eng s m valueHandle value
  | .pcre => logMatcherPcreReMatch env eng s m valueHandle value
  | .string => return (logMatcherStringMatchString s value).isSome
  | .glob => do
    return (((← get).msgs[m]?).map fun self => logMatcherGlobMatch eng s self value).getD false

/-! ## Replacements -/

section

variable (env : MsgEnv P) (eng : MatchEngines) (s : LogMatcher) (m valueHandle : Nat)
  (value : List UInt8) (replacement : LogTemplate P)

/-- The loop of `log_matcher_posix_re_replace`. -/
def posixReplaceLoop : (rounds currentOfs : Nat) → (firstRound : Bool) →
    (newValue : Option (List UInt8)) → MsgM P (Option (List UInt8))
  | 0, _, _, _ => throw .rounds
  | rounds + 1, currentOfs, firstRound, newValue =>
    if currentOfs = value.length then return newValue
    -- a match of no bytes at the end moves the offset behind the end
    else if value.length < currentOfs then throw .invalid
    else
      match eng.regexec s.re s.flags (value.drop currentOfs) (0 < currentOfs) with
      | none => return newValue.map (· ++ value.drop currentOfs)
      | some found => do
        let skip := if found.whole.1 = found.whole.2 ∧ !firstRound then 1 else 0
        let startOfs := found.whole.1 + currentOfs + skip
        let endOfs := found.whole.2 + currentOfs + skip
        logMatcherPosixReFeedBackrefs env m valueHandle found (value.drop currentOfs)
        let h ← get
        let newValue := newValue.getD [] ++
          ((value ++ [0]).drop currentOfs).take (startOfs - currentOfs) ++ replacement h [m]
        if s.has lmfGlobal then posixReplaceLoop rounds endOfs false (some newValue)
        else return some (newValue ++ value.drop endOfs)

/-- The loop of `log_matcher_string_replace`. -/
def stringReplaceLoop : (rounds currentOfs : Nat) → (firstRound : Bool) →
    (newValue : Option (List UInt8)) → MsgM P (Option (List UInt8))
  | 0, _, _, _ => throw .rounds
  | rounds + 1, currentOfs, firstRound, newValue =>
    if currentOfs = value.length then return newValue
    else if value.length < currentOfs then throw .invalid
    else
      match logMatcherStringMatchString s (value.drop currentOfs) with
      | none => return newValue.map (· ++ value.drop currentOfs)
      | some ofs => do
        let skip := if s.re.length = 0 ∧ !firstRound then 1 else 0
        let startOfs := ofs + currentOfs + skip
        let endOfs := startOfs + s.re.length
        (if s.has lmfStoreMatches then logMsgClearMatches env m else pure ())
        let h ← get
        let newValue := newValue.getD [] ++
          ((value ++ [0]).drop currentOfs).take (startOfs - currentOfs) ++ replacement h [m]
        if s.has lmfGlobal then stringReplaceLoop rounds endOfs false (some newValue)
        else return some (newValue ++ value.drop endOfs)

/-- The loop of `log_matcher_pcre_re_replace`. -/
def pcreReplaceLoop : (rounds startOffset lastOffset : Nat) → (lastMatchWasEmpty : Bool) →
    (newValue : Option (List UInt8)) → MsgM P (Option (List UInt8))
  | 0, _, _, _, _ => throw .rounds
  | rounds + 1, startOffset, lastOffset, lastMatchWasEmpty, newValue =>
    match eng.pcreExec s.re s.flags value startOffset lastMatchWasEmpty with
    | .error => return newValue.map (· ++ value.drop lastOffset)
    | .noMatch =>
      if lastMatchWasEmpty && s.has lmfGlobal && startOffset + 1 < value.length then
        pcreReplaceLoop rounds (startOffset + 1) lastOffset false newValue
      else return newValue.map (· ++ value.drop lastOffset)
    | .matched found => do
      let rc := if found.rc = 0 then min (eng.captureCount s.re s.flags) reMaxMatches + 1
        else found.rc
      logMatcherPcreReFeedBackrefs env m valueHandle found rc value
      logMatcherPcreReFeedNamedSubstrings env eng s m found value
      let h ← get
      let newValue := newValue.getD [] ++
        (value.drop lastOffset).take (found.whole.1 - lastOffset) ++ replacement h [m]
      if s.has lmfGlobal ∧ found.whole.2 < value.length then
        pcreReplaceLoop rounds found.whole.2 found.whole.2
          (found.whole.1 = found.whole.2) (some newValue)
      else return some (newValue ++ value.drop found.whole.2)

/-- `log_matcher_replace`; the loops have one round at least. -/
def logMatcherReplace (rounds : Nat) : MsgM P (Option (List UInt8)) :=
  match s.type with
  | .posix => posixReplaceLoop env eng s m valueHandle value replacement (rounds + 1) 0 true none
  | .pcre => pcreReplaceLoop env eng s m valueHandle value replacement (rounds + 1) 0 0 false none
  | .string => stringReplaceLoop env s m value replacement (rounds + 1) 0 true none
  | .glob => return none

end

end SyslogNg.Filter
