import SyslogNg.Lib.Tree
import SyslogNg.Lib.Dotted
import SyslogNg.Template.Macros

/-!
# The selection of value pairs (`lib/value-pairs.c`, `lib/vptransform.c`)

A glob pattern is what `g_pattern_match_string` says of the names, a template what `log_template_format` makes
of the message. A handle is named by its name; the values are C strings when they are told, so they end at the
first NUL.
-/

namespace SyslogNg.ValuePairs

open Lib Template
open List hiding set

abbrev Name := List UInt8

/-- What `nv_table_foreach` tells of an entry. -/
structure NVPair where
  name : Name
  value : List UInt8
  /-- `log_msg_is_handle_sdata`. -/
  sdata : Bool

/-- What is read of a message: the entries of its payload, and what `log_macro_expand` appends. -/
structure VPMessage where
  nvpairs : List NVPair
  expandMacro : Macro → List UInt8

def VPMessage.getValue (msg : VPMessage) (name : Name) : List UInt8 :=
  ((msg.nvpairs.find? (·.name = name)).map (·.value)).getD []

structure VPPatternSpec where
  pattern : Name → Bool
  included : Bool

structure VPPairConf where
  name : Name
  template : VPMessage → List UInt8

/-! ## Transformations -/

inductive ValuePairsTransform where
  | shift (amount : Int)
  | addPrefix (pfx : Name)
  | replace (oldPrefix newPrefix : Name)

structure ValuePairsTransformSet where
  pattern : Name → Bool
  transforms : List ValuePairsTransform

/-- `g_string_erase` at the front: a negative length is all, one that is too long is refused. -/
def eraseFront (key : Name) (len : Int) : Name :=
  if len < 0 then [] else if len ≤ key.length then key.drop len.toNat else key

def valuePairsTransformApply (key : Name) : ValuePairsTransform → Name
  | .shift amount => eraseFront key amount
  | .addPrefix pfx => pfx ++ key
  | .replace oldPrefix newPrefix =>
    if oldPrefix.isPrefixOf key then newPrefix ++ eraseFront key oldPrefix.length else key

def valuePairsTransformSetApply (key : Name) (set : ValuePairsTransformSet) : Name :=
  if set.pattern key then set.transforms.foldl valuePairsTransformApply key else key

/-! ## Sets of macros -/

inductive VPType where
  | macro_ (id : Macro)
  | nvpair (handle : Name)

structure ValuePairSpec where
  name : Name
  type : VPType

def dayNames : List (String × TimeMacro) :=
  [("DATE", .date), ("FULLDATE", .fulldate), ("ISODATE", .isodate), ("STAMP", .stamp), ("YEAR", .year),
    ("YEAR_DAY", .yearDay), ("MONTH", .month), ("MONTH_WEEK", .monthWeek), ("MONTH_ABBREV", .monthAbbrev),
    ("MONTH_NAME", .monthName), ("DAY", .day), ("HOUR", .hour)]

def weekNames : List (String × TimeMacro) :=
  [("WEEKDAY", .weekDayAbbrev), ("WEEK_DAY", .weekDay), ("WEEK_DAY_ABBREV", .weekDayAbbrev),
    ("WEEK_DAY_NAME", .weekDayName), ("WEEK", .week), ("TZOFFSET", .tzoffset), ("TZ", .tz)]

def timesOf (start : String) (of : MacroTime) (names : List (String × TimeMacro)) : List (String × Macro) :=
  names.map fun name => (start ++ name.1, .time of name.2)

def macroNames : List (String × Macro) :=
  [[("FACILITY", .facility), ("FACILITY_NUM", .facilityNum), ("PRIORITY", .level), ("LEVEL", .level),
      ("LEVEL_NUM", .levelNum), ("TAG", .tag), ("TAGS", .tags), ("BSDTAG", .bsdtag), ("PRI", .pri)],
    timesOf "" .plain [dayNames, [("HOUR12", .hour12), ("MIN", .min), ("SEC", .sec), ("USEC", .usec),
      ("MSEC", .msec), ("AMPM", .ampm)], weekNames].flatten,
    [("SYSUPTIME", .sysuptime), ("UNIXTIME", .time .plain .unixtime)],
    [("R_", MacroTime.recvd), ("S_", .stamp)].flatMap (fun t => timesOf t.1 t.2 [dayNames, [("HOUR12", .hour12),
      ("MIN", .min), ("SEC", .sec), ("MSEC", .msec), ("USEC", .usec), ("AMPM", .ampm)], weekNames,
      [("UNIXTIME", .unixtime)]].flatten),
    timesOf "C_" .current [dayNames, [("MIN", .min), ("SEC", .sec)], weekNames, [("UNIXTIME", .unixtime)]].flatten,
    [("SDATA", .sdata), ("MSGHDR", .msghdr), ("SOURCEIP", .sourceIp), ("SEQNUM", .seqnum),
      ("CONTEXT_ID", .contextId), ("MSG", .message), ("MESSAGE", .message), ("HOST", .host),
      ("LOGHOST", .loghost)]].flatten

def macros : List (Name × Macro) := macroNames.map fun name => (bytes name.1, name.2)

def logMacroLookup (name : Name) : Option Macro := (macros.find? (·.1 = name)).map (·.2)

/-- `value_pairs_init_set`, for a name and its `alt_name`. -/
def valuePairsInitSet (set : List (String × Option String)) : List ValuePairSpec :=
  set.map fun spec =>
    let name := bytes (spec.2.getD spec.1)
    ⟨bytes spec.1, match logMacroLookup name with
      | some id => .macro_ id
      | none => .nvpair name⟩

def rfc3164 : List ValuePairSpec :=
  valuePairsInitSet [("FACILITY", none), ("PRIORITY", none), ("HOST", none), ("PROGRAM", none), ("PID", none),
    ("MESSAGE", none), ("DATE", some "R_DATE")]

def rfc5424 : List ValuePairSpec := valuePairsInitSet [("MSGID", none)]

def selectedMacros : List ValuePairSpec :=
  valuePairsInitSet [("TAGS", none), ("SOURCEIP", none), ("SEQNUM", none)]

def allMacros : List ValuePairSpec := macros.map fun name => ⟨name.1, .macro_ name.2⟩

/-! ## The walk over a message -/

def vpsNvPairs : UInt32 := 0x01

def vpsDotNvPairs : UInt32 := 0x02

def vpsRfc3164 : UInt32 := 0x04

def vpsRfc5424 : UInt32 := 0x08

def vpsAllMacros : UInt32 := 0x10

def vpsSelectedMacros : UInt32 := 0x20

def vpsSdata : UInt32 := 0x40

structure ValuePairs where
  patterns : List VPPatternSpec
  vpairs : List VPPairConf
  transforms : List ValuePairsTransformSet
  scopes : UInt32

/-- The value as a C string. -/
def cString (value : List UInt8) : List UInt8 := value.takeWhile (· ≠ 0)

section

variable (vp : ValuePairs) (msg : VPMessage)

def ValuePairs.has (scopes : UInt32) : Bool := vp.scopes &&& scopes ≠ 0

def vpTransformApply (key : Name) : Name := vp.transforms.foldl valuePairsTransformSetApply key

/-- `inc` behind the loop of `vp_msg_nvpairs_foreach`. -/
def patternsInclude (name : Name) : Bool :=
  vp.patterns.foldl (fun inc p => if p.pattern name then p.included else inc) false

/-- `exclude` behind the loop of `vp_merge_set`. -/
def patternsExclude (name : Name) : Bool :=
  vp.patterns.foldl (fun exclude p => if p.pattern name then !p.included else exclude) false

def inScope (pair : NVPair) : Bool :=
  (pair.name.head? = some 46 && vp.has vpsDotNvPairs) || (pair.name.head? ≠ some 46 && vp.has vpsNvPairs) ||
    (pair.sdata && vp.has vpsSdata)

variable {before : Name → Name → Prop} [DecidableRel before] [IsStrictTotalOrder Name before]

def vpMsgNvpairsForeach (scopeSet : GTree Name (List UInt8) before) (pair : NVPair) :
    GTree Name (List UInt8) before :=
  if inScope vp pair || patternsInclude vp pair.name then
    scopeSet.insert (vpTransformApply vp pair.name) (cString pair.value)
  else scopeSet

def expandSpec (spec : ValuePairSpec) : List UInt8 :=
  match spec.type with
  | .macro_ id => msg.expandMacro id
  | .nvpair handle => msg.getValue handle

/-- `vp_merge_set`; `sb` is the buffer, which is emptied when its text goes into the tree. -/
def vpMergeSet : List ValuePairSpec → (sb : List UInt8) → GTree Name (List UInt8) before →
    GTree Name (List UInt8) before
  | [], _, dest => dest
  | spec :: set, sb, dest =>
    if patternsExclude vp spec.name then vpMergeSet set sb dest
    else
      let sb := sb ++ expandSpec msg spec
      if cString sb = [] then vpMergeSet set sb dest
      else vpMergeSet set [] (dest.insert (vpTransformApply vp spec.name) (cString sb))

def vpPairsForeach (scopeSet : GTree Name (List UInt8) before) (vpc : VPPairConf) :
    GTree Name (List UInt8) before :=
  if cString (vpc.template msg) = [] then scopeSet
  else scopeSet.insert (vpTransformApply vp vpc.name) (cString (vpc.template msg))

def mergedSets : List (List ValuePairSpec) :=
  (if vp.has (vpsRfc3164 + vpsRfc5424 + vpsSelectedMacros) then [rfc3164] else []) ++
  (if vp.has vpsRfc5424 then [rfc5424] else []) ++
  (if vp.has vpsSelectedMacros then [selectedMacros] else []) ++
  (if vp.has vpsAllMacros then [allMacros] else [])

/-- The tree of `value_pairs_foreach_sorted`. -/
def scopeSetOf : GTree Name (List UInt8) before :=
  let scopeSet :=
    if vp.has (vpsNvPairs + vpsDotNvPairs + vpsSdata) || vp.patterns.length > 0 then
      msg.nvpairs.foldl (vpMsgNvpairsForeach vp) GTree.empty
    else GTree.empty
  let scopeSet := (mergedSets vp).foldl (fun dest set => vpMergeSet vp msg set [] dest) scopeSet
  vp.vpairs.foldl (vpPairsForeach vp msg) scopeSet

/-- `value_pairs_foreach`: what its callback is told, while that does not stop it. -/
def valuePairsForeach : List (Name × List UInt8) :=
  (scopeSetOf vp msg : GTree Name (List UInt8) (· < ·)).entries

end

/-! ## What is to be told -/

section

variable (vp : ValuePairs) (msg : VPMessage)

def lastPattern (name : Name) : Option Bool := (vp.patterns.reverse.find? (·.pattern name)).map (·.included)

/-- The pairs that are to be told, under their keys: those of the scopes, unless their last pattern is one
that excludes, those that their last pattern includes, and the explicit ones. -/
inductive Wanted : Name → List UInt8 → Prop where
  | scope {pair : NVPair} (hmem : pair ∈ msg.nvpairs) (hscope : inScope vp pair)
      (hpattern : lastPattern vp pair.name ≠ some false) :
      Wanted (vpTransformApply vp pair.name) (cString pair.value)
  | included {pair : NVPair} (hmem : pair ∈ msg.nvpairs) (hpattern : lastPattern vp pair.name = some true) :
      Wanted (vpTransformApply vp pair.name) (cString pair.value)
  | spec {set : List ValuePairSpec} {spec : ValuePairSpec} (hset : set ∈ mergedSets vp) (hspec : spec ∈ set)
      (hpattern : lastPattern vp spec.name ≠ some false) (hvalue : cString (expandSpec msg spec) ≠ []) :
      Wanted (vpTransformApply vp spec.name) (cString (expandSpec msg spec))
  | explicit {vpc : VPPairConf} (hmem : vpc ∈ vp.vpairs) (hvalue : cString (vpc.template msg) ≠ []) :
      Wanted (vpTransformApply vp vpc.name) (cString (vpc.template msg))

/-- What is told: no name twice, only pairs that are to be told, under the names of all of them, and explicit
pairs in place of others. -/
structure Selection (told : List (Name × List UInt8)) : Prop where
  once : (told.map (·.1)).Nodup
  only : ∀ entry ∈ told, Wanted vp msg entry.1 entry.2
  all : ∀ name value, Wanted vp msg name value → ∃ entry ∈ told, entry.1 = name
  overrides : ∀ vpc ∈ vp.vpairs, cString (vpc.template msg) ≠ [] → ∃ other ∈ vp.vpairs,
    vpTransformApply vp other.name = vpTransformApply vp vpc.name ∧ cString (other.template msg) ≠ [] ∧
      (vpTransformApply vp vpc.name, cString (other.template msg)) ∈ told

/-! ## When the code tells it -/

def SpecWanted (spec : ValuePairSpec) : Prop :=
  lastPattern vp spec.name ≠ some false ∧ cString (expandSpec msg spec) ≠ []

/-- A macro that leaves a text in the buffer, with a NUL at its front. -/
def Blocks (spec : ValuePairSpec) : Prop :=
  lastPattern vp spec.name ≠ some false ∧ (expandSpec msg spec).head? = some 0

def Reached (set : List ValuePairSpec) (spec : ValuePairSpec) : Prop :=
  ∃ front back, set = front ++ spec :: back ∧ ∀ s ∈ front, ¬Blocks vp msg s

/-- One of the entries, a macro or an explicit pair is inserted under the name. -/
def Taken (nvpairs : List NVPair) (name : Name) : Prop :=
  (∃ pair ∈ nvpairs, (inScope vp pair ∨ lastPattern vp pair.name = some true) ∧
    vpTransformApply vp pair.name = name) ∨
  (∃ set ∈ mergedSets vp, ∃ spec, Reached vp msg set spec ∧ SpecWanted vp msg spec ∧
    vpTransformApply vp spec.name = name) ∨
  ∃ vpc ∈ vp.vpairs, cString (vpc.template msg) ≠ [] ∧ vpTransformApply vp vpc.name = name

/-- An entry of the scopes that is excluded has one behind it that is inserted under its name, or is like one
that is to be told; a macro that is not reached has its name from another pair. -/
def Harmless : Prop :=
  (∀ front pair back, msg.nvpairs = front ++ pair :: back → inScope vp pair →
    lastPattern vp pair.name = some false → Taken vp msg back (vpTransformApply vp pair.name) ∨
      Wanted vp msg (vpTransformApply vp pair.name) (cString pair.value)) ∧
  ∀ set ∈ mergedSets vp, ∀ spec ∈ set, SpecWanted vp msg spec → ¬Reached vp msg set spec →
    Taken vp msg msg.nvpairs (vpTransformApply vp spec.name)

end

/-! ## Patterns -/

section

variable {vp : ValuePairs} {msg : VPMessage}

theorem foldl_patterns (name : Name) (f : Bool → Bool) (patterns : List VPPatternSpec) (start : Bool) :
    patterns.foldl (fun found p => if p.pattern name then f p.included else found) start =
      (((patterns.reverse.find? (·.pattern name)).map (·.included)).map f).getD start := by
  induction patterns using reverseRecOn with
  | nil => rfl
  | append_singleton patterns p ih =>
    rw [foldl_append, foldl_cons, foldl_nil, reverse_append, reverse_singleton,
      singleton_append]
    rw [find?_cons]
    cases h : p.pattern name with
    | true => rfl
    | false => exact ih

theorem patternsInclude_iff (name : Name) : patternsInclude vp name = true ↔ lastPattern vp name = some true := by
  have h : patternsInclude vp name = ((lastPattern vp name).map id).getD false :=
    foldl_patterns name id vp.patterns false
  rw [h]
  rcases lastPattern vp name with _ | _ | _ <;> decide

theorem patternsExclude_iff (name : Name) : patternsExclude vp name = true ↔ lastPattern vp name = some false := by
  have h : patternsExclude vp name = ((lastPattern vp name).map not).getD false :=
    foldl_patterns name not vp.patterns false
  rw [h]
  rcases lastPattern vp name with _ | _ | _ <;> decide

/-! ## What is inserted -/

def entryOf (vp : ValuePairs) (pair : NVPair) : Name × List UInt8 :=
  (vpTransformApply vp pair.name, cString pair.value)

def nvInserts (vp : ValuePairs) (nvpairs : List NVPair) : List (Name × List UInt8) :=
  (nvpairs.filter fun pair => inScope vp pair || patternsInclude vp pair.name).map (entryOf vp)

def specInserts (vp : ValuePairs) (msg : VPMessage) :
    List ValuePairSpec → (sb : List UInt8) → List (Name × List UInt8)
  | [], _ => []
  | spec :: set, sb =>
    if patternsExclude vp spec.name then specInserts vp msg set sb
    else
      let sb := sb ++ expandSpec msg spec
      if cString sb = [] then specInserts vp msg set sb
      else (vpTransformApply vp spec.name, cString sb) :: specInserts vp msg set []

def pairInserts (vp : ValuePairs) (msg : VPMessage) : List (Name × List UInt8) :=
  (vp.vpairs.filter fun vpc => cString (vpc.template msg) ≠ []).map fun vpc =>
    (vpTransformApply vp vpc.name, cString (vpc.template msg))

section

variable {before : Name → Name → Prop} [DecidableRel before] [IsStrictTotalOrder Name before]

theorem foldl_nvpairs (nvpairs : List NVPair) (tree : GTree Name (List UInt8) before) :
    nvpairs.foldl (vpMsgNvpairsForeach vp) tree = tree.insertAll (nvInserts vp nvpairs) := by
  induction nvpairs generalizing tree with
  | nil => rfl
  | cons pair nvpairs ih =>
    rw [foldl_cons, ih]
    unfold vpMsgNvpairsForeach nvInserts
    rw [filter_cons]
    split
    · rfl
    · rfl

theorem vpMergeSet_eq (set : List ValuePairSpec) (sb : List UInt8) (tree : GTree Name (List UInt8) before) :
    vpMergeSet vp msg set sb tree = tree.insertAll (specInserts vp msg set sb) := by
  induction set generalizing sb tree with
  | nil => rfl
  | cons spec set ih =>
    unfold vpMergeSet specInserts
    dsimp only
    split
    · exact ih sb tree
    · split
      · exact ih _ tree
      · exact ih _ _

theorem foldl_sets (sets : List (List ValuePairSpec)) (tree : GTree Name (List UInt8) before) :
    sets.foldl (fun dest set => vpMergeSet vp msg set [] dest) tree =
      tree.insertAll (sets.flatMap fun set => specInserts vp msg set []) := by
  induction sets generalizing tree with
  | nil => rfl
  | cons set sets ih =>
    rw [foldl_cons, ih, vpMergeSet_eq, flatMap_cons, GTree.insertAll_append]

theorem foldl_pairs (tree : GTree Name (List UInt8) before) :
    vp.vpairs.foldl (vpPairsForeach vp msg) tree = tree.insertAll (pairInserts vp msg) := by
  unfold pairInserts
  induction vp.vpairs generalizing tree with
  | nil => rfl
  | cons vpc vpairs ih =>
    rw [foldl_cons, ih]
    unfold vpPairsForeach
    rw [filter_cons]
    by_cases h : cString (vpc.template msg) = []
    · rw [if_pos h, if_neg (by simpa using h)]
    · rw [if_neg h, if_pos (by simpa using h)]
      rfl

theorem nvInserts_eq_nil (h : ¬(vp.has (vpsNvPairs + vpsDotNvPairs + vpsSdata) || vp.patterns.length > 0) = true)
    (nvpairs : List NVPair) : nvInserts vp nvpairs = [] := by
  rw [Bool.or_eq_true, not_or] at h
  obtain ⟨hscopes, hpatterns⟩ := h
  have hnone : vp.scopes &&& (vpsNvPairs + vpsDotNvPairs + vpsSdata) = 0 := by
    simpa [ValuePairs.has] using hscopes
  have hhas : ∀ scope, (vpsNvPairs + vpsDotNvPairs + vpsSdata) &&& scope = scope → vp.has scope = false := by
    intro scope hscope
    have hzero : vp.scopes &&& scope = 0 := by
      rw [← hscope, ← UInt32.and_assoc, hnone, UInt32.zero_and]
    simp [ValuePairs.has, hzero]
  have hempty : vp.patterns = [] := by simpa using hpatterns
  refine map_eq_nil_iff.mpr (filter_eq_nil_iff.mpr fun pair _ => ?_)
  unfold inScope patternsInclude
  rw [hhas _ rfl, hhas _ rfl, hhas _ rfl, hempty]
  simp

theorem scopeSetOf_eq : (scopeSetOf vp msg : GTree Name (List UInt8) before) =
    GTree.empty.insertAll (nvInserts vp msg.nvpairs ++
      (mergedSets vp).flatMap (fun set => specInserts vp msg set []) ++ pairInserts vp msg) := by
  unfold scopeSetOf
  dsimp only
  rw [foldl_pairs, foldl_sets, GTree.insertAll_append, GTree.insertAll_append]
  split
  · rw [foldl_nvpairs]
  · rename_i h
    rw [nvInserts_eq_nil h]
    rfl

end

/-! ## What stands among the inserts -/

variable {set : List ValuePairSpec}

theorem reached_cons {s spec : ValuePairSpec} :
    Reached vp msg (s :: set) spec ↔ spec = s ∨ ¬Blocks vp msg s ∧ Reached vp msg set spec := by
  constructor
  · rintro ⟨front, back, hset, hfront⟩
    cases front with
    | nil => exact .inl (cons.inj hset).1.symm
    | cons first front =>
      obtain ⟨rfl, htail⟩ := cons.inj hset
      exact .inr ⟨hfront _ mem_cons_self, front, back, htail, fun s hs => hfront s (mem_cons_of_mem _ hs)⟩
  · rintro (rfl | ⟨hs, front, back, rfl, hfront⟩)
    · exact ⟨[], set, rfl, fun _ h => absurd h not_mem_nil⟩
    · exact ⟨s :: front, back, rfl, forall_mem_cons.mpr ⟨hs, hfront⟩⟩

variable {value : List UInt8}

theorem cString_eq_nil : cString value = [] ↔ value = [] ∨ value.head? = some 0 := by
  cases value with
  | nil => exact ⟨fun _ => .inl rfl, fun _ => rfl⟩
  | cons c value =>
    by_cases h : c = 0
    · subst h
      exact ⟨fun _ => .inr rfl, fun _ => rfl⟩
    · simp [cString, h]

theorem specInserts_blocked {sb : List UInt8} (h : sb.head? = some 0) (set : List ValuePairSpec) :
    specInserts vp msg set sb = [] := by
  induction set generalizing sb with
  | nil => rfl
  | cons spec set ih =>
    have hmore : (sb ++ expandSpec msg spec).head? = some 0 := by
      rw [head?_append, h]
      rfl
    unfold specInserts
    dsimp only
    rw [if_pos (cString_eq_nil.mpr (.inr hmore)), ih h, ih hmore, ite_self]

variable {entry : Name × List UInt8}

theorem mem_specInserts :
    entry ∈ specInserts vp msg set [] ↔ ∃ spec, Reached vp msg set spec ∧ SpecWanted vp msg spec ∧
      entry = (vpTransformApply vp spec.name, cString (expandSpec msg spec)) := by
  induction set with
  | nil =>
    constructor
    · exact fun h => absurd h List.not_mem_nil
    · rintro ⟨spec, ⟨front, back, hset, -⟩, -⟩
      exact absurd hset (by simp)
  | cons s set ih =>
    simp only [reached_cons]
    unfold specInserts
    dsimp only
    rw [nil_append]
    by_cases hexclude : patternsExclude vp s.name = true
    · -- it is left out
      have hpattern := (patternsExclude_iff s.name).mp hexclude
      have hfree : ¬Blocks vp msg s := fun h => h.1 hpattern
      rw [if_pos hexclude, ih]
      refine exists_congr fun spec => ⟨fun h => ⟨.inr ⟨hfree, h.1⟩, h.2⟩, ?_⟩
      rintro ⟨rfl | h, hwanted⟩
      · exact absurd hpattern hwanted.1.1
      · exact ⟨h.2, hwanted⟩
    · have hpattern : lastPattern vp s.name ≠ some false := fun h => hexclude ((patternsExclude_iff s.name).mpr h)
      rw [if_neg hexclude]
      by_cases hempty : cString (expandSpec msg s) = []
      · rw [if_pos hempty]
        rcases cString_eq_nil.mp hempty with hnil | hblock
        · -- it has no value
          have hfree : ¬Blocks vp msg s := by
            rintro ⟨-, h⟩
            rw [hnil] at h
            cases h
          rw [hnil, ih]
          refine exists_congr fun spec => ⟨fun h => ⟨.inr ⟨hfree, h.1⟩, h.2⟩, ?_⟩
          rintro ⟨rfl | h, hwanted⟩
          · exact absurd hempty hwanted.1.2
          · exact ⟨h.2, hwanted⟩
        · -- its value blocks the others
          rw [specInserts_blocked hblock]
          refine ⟨fun h => absurd h not_mem_nil, ?_⟩
          rintro ⟨spec, rfl | h, hwanted⟩
          · exact absurd hempty hwanted.1.2
          · exact absurd ⟨hpattern, hblock⟩ h.1
      · have hfree : ¬Blocks vp msg s := fun h => hempty (cString_eq_nil.mpr (.inr h.2))
        rw [if_neg hempty, mem_cons, ih]
        constructor
        · rintro (rfl | ⟨spec, hreached, hwanted⟩)
          · exact ⟨s, .inl rfl, ⟨hpattern, hempty⟩, rfl⟩
          · exact ⟨spec, .inr ⟨hfree, hreached⟩, hwanted⟩
        · rintro ⟨spec, rfl | h, hwanted⟩
          · exact .inl hwanted.2
          · exact .inr ⟨spec, h.2, hwanted⟩

theorem mem_pairInserts :
    entry ∈ pairInserts vp msg ↔ ∃ vpc ∈ vp.vpairs, cString (vpc.template msg) ≠ [] ∧
      entry = (vpTransformApply vp vpc.name, cString (vpc.template msg)) := by
  unfold pairInserts
  rw [mem_map]
  constructor
  · rintro ⟨vpc, hvpc, rfl⟩
    obtain ⟨hmem, hvalue⟩ := mem_filter.mp hvpc
    exact ⟨vpc, hmem, by simpa using hvalue, rfl⟩
  · rintro ⟨vpc, hmem, hvalue, rfl⟩
    exact ⟨vpc, mem_filter.mpr ⟨hmem, by simpa using hvalue⟩, rfl⟩

theorem inserted_iff {pair : NVPair} : (inScope vp pair || patternsInclude vp pair.name) = true ↔
    inScope vp pair = true ∨ lastPattern vp pair.name = some true := by
  rw [Bool.or_eq_true, patternsInclude_iff]

def insertsFrom (vp : ValuePairs) (msg : VPMessage) (nvpairs : List NVPair) : List (Name × List UInt8) :=
  nvInserts vp nvpairs ++ (mergedSets vp).flatMap (fun set => specInserts vp msg set []) ++ pairInserts vp msg

variable {name : Name}

theorem taken_iff {nvpairs : List NVPair} :
    Taken vp msg nvpairs name ↔ ∃ entry ∈ insertsFrom vp msg nvpairs, entry.1 = name := by
  unfold insertsFrom
  constructor
  · rintro (⟨pair, hmem, hinserted, rfl⟩ | ⟨set, hset, spec, hreached, hwanted, rfl⟩ | ⟨vpc, hmem, hvalue, rfl⟩)
    · refine ⟨entryOf vp pair, ?_, rfl⟩
      refine mem_append_left _ (mem_append_left _ (mem_map_of_mem ?_))
      exact mem_filter.mpr ⟨hmem, inserted_iff.mpr hinserted⟩
    · refine ⟨(vpTransformApply vp spec.name, cString (expandSpec msg spec)), ?_, rfl⟩
      refine mem_append_left _ (mem_append_right _ (mem_flatMap.mpr ⟨set, hset, ?_⟩))
      exact mem_specInserts.mpr ⟨spec, hreached, hwanted, rfl⟩
    · refine ⟨(vpTransformApply vp vpc.name, cString (vpc.template msg)), ?_, rfl⟩
      exact mem_append_right _ (mem_pairInserts.mpr ⟨vpc, hmem, hvalue, rfl⟩)
  · rintro ⟨entry, hentry, rfl⟩
    rcases mem_append.mp hentry with hentry | hentry
    · rcases mem_append.mp hentry with hentry | hentry
      · obtain ⟨pair, hpair, rfl⟩ := mem_map.mp hentry
        obtain ⟨hmem, hinserted⟩ := mem_filter.mp hpair
        exact .inl ⟨pair, hmem, inserted_iff.mp hinserted, rfl⟩
      · obtain ⟨set, hset, hspec⟩ := mem_flatMap.mp hentry
        obtain ⟨spec, hreached, hwanted, rfl⟩ := mem_specInserts.mp hspec
        exact .inr (.inl ⟨set, hset, spec, hreached, hwanted, rfl⟩)
    · obtain ⟨vpc, hmem, hvalue, rfl⟩ := mem_pairInserts.mp hentry
      exact .inr (.inr ⟨vpc, hmem, hvalue, rfl⟩)

theorem mem_of_append_eq {α : Type} {as bs front back : List α} {x : α} (h : as ++ bs = front ++ x :: back) :
    x ∈ bs ∨ ∃ rest, as = front ++ x :: rest ∧ back = rest ++ bs := by
  rcases append_eq_append_iff.mp h with ⟨mid, -, hbs⟩ | ⟨mid, has, hback⟩
  · exact .inl (by rw [hbs]; simp)
  · cases mid with
    | nil => exact .inl (by rw [← show x :: back = bs from hback]; simp)
    | cons y mid =>
      obtain ⟨rfl, htail⟩ := cons.inj hback
      exact .inr ⟨mid, has, htail⟩

theorem nvInserts_split {nvpairs : List NVPair} {front rest : List (Name × List UInt8)}
    (h : nvInserts vp nvpairs = front ++ entry :: rest) :
    ∃ before pair back, nvpairs = before ++ pair :: back ∧ entryOf vp pair = entry ∧
      (inScope vp pair || patternsInclude vp pair.name) = true ∧ nvInserts vp back = rest := by
  obtain ⟨pairs, pairs', hfilter, -, hmap⟩ := map_eq_append_iff.mp h
  obtain ⟨pair, rest', rfl, hentry, hrest⟩ := map_eq_cons_iff.mp hmap
  obtain ⟨before, back, rfl, -, hfilter'⟩ := filter_eq_append_iff.mp hfilter
  obtain ⟨skipped, back', rfl, -, hinserted, hfilter''⟩ := filter_eq_cons_iff.mp hfilter'
  exact ⟨before ++ skipped, pair, back', by simp, hentry, hinserted, by rw [← hrest, ← hfilter'']; rfl⟩

theorem nvInserts_append_cons (front back : List NVPair) (pair : NVPair)
    (h : (inScope vp pair || patternsInclude vp pair.name) = true) :
    nvInserts vp (front ++ pair :: back) = nvInserts vp front ++ entryOf vp pair :: nvInserts vp back := by
  unfold nvInserts
  rw [filter_append, filter_cons, if_pos h, map_append, map_cons]

theorem mem_valuePairsForeach :
    (name, value) ∈ valuePairsForeach vp msg ↔ ∃ front back,
      insertsFrom vp msg msg.nvpairs = front ++ (name, value) :: back ∧ ∀ entry ∈ back, entry.1 ≠ name := by
  unfold valuePairsForeach
  rw [scopeSetOf_eq]
  exact GTree.mem_insertAll_iff

theorem name_mem_valuePairsForeach :
    (∃ entry ∈ valuePairsForeach vp msg, entry.1 = name) ↔ Taken vp msg msg.nvpairs name := by
  rw [taken_iff]
  unfold valuePairsForeach
  rw [scopeSetOf_eq]
  exact GTree.key_mem_insertAll_iff

theorem Wanted.taken (h : Wanted vp msg name value)
    (hspecs : ∀ set ∈ mergedSets vp, ∀ spec ∈ set, SpecWanted vp msg spec → ¬Reached vp msg set spec →
      Taken vp msg msg.nvpairs (vpTransformApply vp spec.name)) : Taken vp msg msg.nvpairs name := by
  cases h with
  | scope hmem hscope _ => exact .inl ⟨_, hmem, .inl hscope, rfl⟩
  | included hmem hpattern => exact .inl ⟨_, hmem, .inr hpattern, rfl⟩
  | @spec set spec hset hspec hpattern hvalue =>
    by_cases hreached : Reached vp msg set spec
    · exact .inr (.inl ⟨set, hset, spec, hreached, ⟨hpattern, hvalue⟩, rfl⟩)
    · exact hspecs set hset spec hspec ⟨hpattern, hvalue⟩ hreached
  | explicit hmem hvalue => exact .inr (.inr ⟨_, hmem, hvalue, rfl⟩)

theorem Reached.mem {spec : ValuePairSpec} (h : Reached vp msg set spec) :
    spec ∈ set := by
  obtain ⟨front, back, rfl, -⟩ := h
  exact mem_append_right front mem_cons_self

theorem wanted_of_mem (h : Harmless vp msg)
    (hmem : (name, value) ∈ valuePairsForeach vp msg) : Wanted vp msg name value := by
  obtain ⟨front, back, hsplit, hback⟩ := mem_valuePairsForeach.mp hmem
  rcases mem_of_append_eq hsplit with hpair | ⟨rest, hfirst, rfl⟩
  · obtain ⟨vpc, hvpc, hvalue, heq⟩ := mem_pairInserts.mp hpair
    cases heq
    exact .explicit hvpc hvalue
  · rcases mem_of_append_eq hfirst with hsets | ⟨nvrest, hnv, rfl⟩
    · obtain ⟨set, hset, hspec⟩ := mem_flatMap.mp hsets
      obtain ⟨spec, hreached, hwanted, heq⟩ := mem_specInserts.mp hspec
      cases heq
      exact .spec hset hreached.mem hwanted.1 hwanted.2
    · obtain ⟨first, pair, last, hpairs, hentry, hinserted, rfl⟩ := nvInserts_split hnv
      cases hentry
      have hpair : pair ∈ msg.nvpairs := by rw [hpairs]; simp
      by_cases hpattern : lastPattern vp pair.name = some false
      · have hscope : inScope vp pair = true := by
          refine (inserted_iff.mp hinserted).resolve_right fun h => ?_
          rw [hpattern] at h
          cases h
        -- nothing is inserted behind it
        refine (h.1 first pair last hpairs hscope hpattern).resolve_left fun htaken => ?_
        obtain ⟨entry, hentry, hname⟩ := taken_iff.mp htaken
        exact hback entry hentry hname
      · rcases inserted_iff.mp hinserted with hscope | hincluded
        · exact .scope hpair hscope hpattern
        · exact .included hpair hincluded

theorem explicit_overrides {vpc : VPPairConf} (hvpc : vpc ∈ vp.vpairs) (hvalue : cString (vpc.template msg) ≠ []) :
    ∃ other ∈ vp.vpairs, vpTransformApply vp other.name = vpTransformApply vp vpc.name ∧
      cString (other.template msg) ≠ [] ∧
        (vpTransformApply vp vpc.name, cString (other.template msg)) ∈ valuePairsForeach vp msg := by
  obtain ⟨⟨name, value⟩, hentry, rfl⟩ := name_mem_valuePairsForeach.mpr (.inr (.inr ⟨vpc, hvpc, hvalue, rfl⟩))
  obtain ⟨front, back, hsplit, hback⟩ := mem_valuePairsForeach.mp hentry
  rcases mem_of_append_eq hsplit with hpair | ⟨rest, -, rfl⟩
  · obtain ⟨other, hother, hvalue', heq⟩ := mem_pairInserts.mp hpair
    obtain ⟨hname, rfl⟩ := Prod.mk.inj heq
    exact ⟨other, hother, hname.symm, hvalue', hentry⟩
  · refine absurd rfl (hback (vpTransformApply vp vpc.name, cString (vpc.template msg)) ?_)
    exact mem_append_right rest (mem_pairInserts.mpr ⟨vpc, hvpc, hvalue, rfl⟩)

/-- The pairs of the scopes, the patterns and the explicit pairs are told as they are to be, just if the
entries that the scopes insert in spite of their pattern, and the macros that are not reached, do no harm. -/
theorem selection_iff (vp : ValuePairs) (msg : VPMessage) :
    Selection vp msg (valuePairsForeach vp msg) ↔ Harmless vp msg := by
  constructor
  · intro h
    constructor
    · intro front pair back hpairs hscope _
      by_cases htaken : Taken vp msg back (vpTransformApply vp pair.name)
      · exact .inl htaken
      · refine .inr (h.only (entryOf vp pair) (mem_valuePairsForeach.mpr ?_))
        refine ⟨nvInserts vp front, insertsFrom vp msg back, ?_, fun entry hentry hname =>
          htaken (taken_iff.mpr ⟨entry, hentry, hname⟩)⟩
        unfold insertsFrom
        rw [hpairs, nvInserts_append_cons front back pair (inserted_iff.mpr (.inl hscope))]
        simp only [append_assoc, cons_append]
        rfl
    · intro set hset spec hspec hwanted _
      exact name_mem_valuePairsForeach.mp (h.all _ _ (.spec hset hspec hwanted.1 hwanted.2))
  · intro h
    exact ⟨GTree.keys_nodup _, fun entry hentry => wanted_of_mem h hentry,
      fun name value hwanted => name_mem_valuePairsForeach.mpr (hwanted.taken h.2),
      fun vpc hvpc hvalue => explicit_overrides hvpc hvalue⟩

end

/-- The scope of name-value pairs, and a pattern that excludes them all: `HOST` is told. -/
theorem excluded_told :
    ¬Selection ⟨[⟨fun _ => true, false⟩], [], [], vpsNvPairs⟩ ⟨[⟨[72, 79, 83, 84], [104], false⟩], fun _ => []⟩
      (valuePairsForeach ⟨[⟨fun _ => true, false⟩], [], [], vpsNvPairs⟩
        ⟨[⟨[72, 79, 83, 84], [104], false⟩], fun _ => []⟩) := by
  have hnone : ∀ name value, ¬Wanted ⟨[⟨fun _ => true, false⟩], [], [], vpsNvPairs⟩
      ⟨[⟨[72, 79, 83, 84], [104], false⟩], fun _ => []⟩ name value := by
    intro name value hwanted
    cases hwanted with
    | scope _ _ hpattern => exact hpattern rfl
    | included _ hpattern => cases hpattern
    | spec hset => exact not_mem_nil hset
    | explicit hmem => cases hmem
  intro h
  exact hnone _ _ (h.only ([72, 79, 83, 84], [104]) (by decide +kernel))

end SyslogNg.ValuePairs
