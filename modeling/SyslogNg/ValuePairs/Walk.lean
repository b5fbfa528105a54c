import SyslogNg.ValuePairs.Foreach

/-!
# Walking over value pairs (`lib/value-pairs.c`)

`value_pairs_walk` goes over the names in descending order, and tells its caller about the objects that their
dots make. The cells for the data of the caller are left out; the callback for values does not stop the walk.
-/

namespace SyslogNg.ValuePairs

open Lib List
open Option hiding map map_map mem_map
open Option (bind_eq_some_iff bind_some)

/-- `vp_walk_stack_t`. -/
structure VpWalkStack where
  key : Name
  pfx : Name
  deriving DecidableEq

/-- The calls of `obj_start`, `process_value` and `obj_end`. -/
inductive WalkCall where
  | objStart (key pfx prev : Option Name)
  | processValue (key : Name) (pfx : Option Name) (value : List UInt8)
  | objEnd (key pfx prev : Option Name)
  deriving DecidableEq

def peekPrefix (stack : List VpWalkStack) : Option Name := stack.head?.map (·.pfx)

def vpWalkerStackUnwindUntil (name : Name) : List VpWalkStack → List VpWalkStack × List WalkCall
  | [] => ([], [])
  | t :: stack =>
    if t.pfx.isPrefixOf name then (t :: stack, [])
    else
      let r := vpWalkerStackUnwindUntil name stack
      (r.1, .objEnd (some t.key) (some t.pfx) (peekPrefix stack) :: r.2)

def vpWalkerStackUnwindAll : List VpWalkStack → List WalkCall
  | [] => []
  | t :: stack => .objEnd (some t.key) (some t.pfx) (peekPrefix stack) :: vpWalkerStackUnwindAll stack

/-- `g_strsplit`, for a name that is not empty. -/
def components (name : Name) : List Name := name.splitOn 46

/-- The loop of `vp_walker_name_split`, from the token `i` on. -/
def vpWalkerNameSplit (tokens : List Name) :
    (rounds i : Nat) → List VpWalkStack → List VpWalkStack × List WalkCall
  | 0, _, stack => (stack, [])
  | rounds + 1, i, stack =>
    let nt : VpWalkStack := ⟨tokens.getD i [], joinParts 46 (tokens.take (i + 1))⟩
    let r := vpWalkerNameSplit tokens rounds (i + 1) (nt :: stack)
    (r.1, .objStart (some nt.key) (some nt.pfx) (peekPrefix stack) :: r.2)

/-- `value_pairs_walker`. For the empty name `g_strsplit` gives no token, and the code reads outside of
them. -/
def valuePairsWalker (stack : List VpWalkStack) (name : Name) (value : List UInt8) :
    Option (List VpWalkStack × List WalkCall) :=
  if name = [] then none
  else
    let unwound := vpWalkerStackUnwindUntil name stack
    let tokens := components name
    let start := unwound.1.length
    let split := vpWalkerNameSplit tokens (tokens.length - 1 - start) start unwound.1
    some (split.1, unwound.2 ++ split.2 ++
      [.processValue (tokens.getLast?.getD []) (peekPrefix split.1) value])

/-- `g_tree_foreach` with `value_pairs_walker`. -/
def walkEntries : List VpWalkStack → List (Name × List UInt8) → Option (List VpWalkStack × List WalkCall)
  | stack, [] => some (stack, [])
  | stack, entry :: entries =>
    (valuePairsWalker stack entry.1 entry.2).bind fun r =>
      (walkEntries r.1 entries).map fun s => (s.1, r.2 ++ s.2)

/-- The order of `vp_walk_cmp`. -/
def WalkBefore (a b : Name) : Prop := b < a

instance : DecidableRel WalkBefore := fun a b => inferInstanceAs (Decidable (b < a))

instance : IsStrictTotalOrder Name WalkBefore := inferInstanceAs (IsStrictTotalOrder Name (Function.swap (· < ·)))

abbrev WalkTree := GTree Name (List UInt8) WalkBefore

/-- `value_pairs_walk` over the tree that `value_pairs_foreach_sorted` has made. -/
def valuePairsWalk (scopeSet : WalkTree) : Option (List WalkCall) :=
  (walkEntries [] scopeSet.entries).map fun r =>
    .objStart none none none :: (r.2 ++ vpWalkerStackUnwindAll r.1) ++ [.objEnd none none none]

/-! ## The tree that the calls describe -/

/-- What a reader of the calls knows: the objects that are open, all the objects that were started, and the
values with the objects around them. -/
structure WalkLog where
  path : List Name
  objects : List (List Name)
  reports : List (List Name × Name × List UInt8)

def WalkLog.start : WalkLog := ⟨[], [], []⟩

def pathPrefix (path : List Name) : Option Name := if path = [] then none else some (joinParts 46 path)

def replayCall (log : WalkLog) : WalkCall → Option WalkLog
  | .objStart (some key) pfx prev =>
    if pfx = pathPrefix (log.path ++ [key]) ∧ prev = pathPrefix log.path then
      some { log with path := log.path ++ [key], objects := log.objects ++ [log.path ++ [key]] }
    else none
  | .objStart none _ _ => none
  | .processValue key pfx value =>
    if pfx = pathPrefix log.path then some { log with reports := log.reports ++ [(log.path, key, value)] }
    else none
  | .objEnd key pfx prev =>
    if log.path ≠ [] ∧ key = log.path.getLast? ∧ pfx = pathPrefix log.path ∧
        prev = pathPrefix log.path.dropLast then
      some { log with path := log.path.dropLast }
    else none

def replay : List WalkCall → WalkLog → Option WalkLog
  | [], log => some log
  | call :: calls, log => (replayCall log call).bind (replay calls)

def placeOf (pair : Name × List UInt8) : List Name × Name × List UInt8 :=
  ((components pair.1).dropLast, (components pair.1).getLast?.getD [], pair.2)

def ObjectOf (path : List Name) (name : Name) : Prop :=
  path ≠ [] ∧ path <+: components name ∧ path.length < (components name).length

/-- The calls are those of the tree of the names: they are well nested, every value is told once at its place,
and every object that has members is started once. -/
def TreeOfNames (pairs : List (Name × List UInt8)) (calls : List WalkCall) : Prop :=
  ∃ body log, calls = .objStart none none none :: body ++ [.objEnd none none none] ∧
    replay body .start = some log ∧ log.path = [] ∧ log.reports.Perm (pairs.map placeOf) ∧
    log.objects.Nodup ∧ ∀ path, path ∈ log.objects ↔ ∃ pair ∈ pairs, ObjectOf path pair.1

/-- The second name goes on from a text in front of a dot of the first one with a byte that is smaller than
the dot. -/
def Clash (a b : Name) : Prop :=
  ∃ pre c s t, a = pre ++ 46 :: s ∧ b = pre ++ c :: t ∧ c < 46

/-- A name is the text in front of a dot of another one. -/
def DottedPrefix (a b : Name) : Prop := a ++ [46] <+: b

/-! ## Replaying -/

theorem replay_append (calls rest : List WalkCall) (log : WalkLog) :
    replay (calls ++ rest) log = (replay calls log).bind (replay rest) := by
  induction calls generalizing log with
  | nil => rfl
  | cons call calls ih =>
    show (replayCall log call).bind (replay (calls ++ rest)) = ((replayCall log call).bind (replay calls)).bind _
    cases replayCall log call with
    | none => rfl
    | some log => exact ih log

variable {calls : List WalkCall}

theorem replay_reports {log log' : WalkLog} (h : replay calls log = some log') :
    ∃ more, log'.reports = log.reports ++ more := by
  induction calls generalizing log with
  | nil =>
    cases h
    exact ⟨[], (append_nil _).symm⟩
  | cons call calls ih =>
    obtain ⟨mid, hcall, hrest⟩ := bind_eq_some_iff.mp h
    obtain ⟨more, hmore⟩ := ih hrest
    have hmid : ∃ first, mid.reports = log.reports ++ first := by
      unfold replayCall at hcall
      split at hcall
      · split at hcall
        · cases hcall
          exact ⟨[], (append_nil _).symm⟩
        · cases hcall
      · cases hcall
      · split at hcall
        · cases hcall
          exact ⟨_, rfl⟩
        · cases hcall
      · split at hcall
        · cases hcall
          exact ⟨[], (append_nil _).symm⟩
        · cases hcall
    obtain ⟨first, hfirst⟩ := hmid
    exact ⟨first ++ more, by rw [hmore, hfirst, append_assoc]⟩

/-! ## Stacks of paths -/

def stackFrom : List Name → List VpWalkStack
  | [] => []
  | key :: rest => ⟨key, joinParts 46 (key :: rest).reverse⟩ :: stackFrom rest

def stackOf (path : List Name) : List VpWalkStack := stackFrom path.reverse

theorem stackOf_concat (path : List Name) (key : Name) :
    stackOf (path ++ [key]) = ⟨key, joinParts 46 (path ++ [key])⟩ :: stackOf path := by
  unfold stackOf
  rw [reverse_append, reverse_singleton, singleton_append, stackFrom, reverse_cons, reverse_reverse]

theorem length_stackOf (path : List Name) : (stackOf path).length = path.length := by
  induction path using List.reverseRecOn with
  | nil => rfl
  | append_singleton path key ih =>
    rw [stackOf_concat, length_cons, ih, length_append, length_singleton]

theorem pathPrefix_concat (path : List Name) (key : Name) :
    pathPrefix (path ++ [key]) = some (joinParts 46 (path ++ [key])) := if_neg (by simp)

theorem peekPrefix_stackOf (path : List Name) : peekPrefix (stackOf path) = pathPrefix path := by
  induction path using List.reverseRecOn with
  | nil => rfl
  | append_singleton path key _ =>
    rw [stackOf_concat, pathPrefix_concat]
    rfl

theorem replayCall_objEnd {log : WalkLog} {path : List Name} {key : Name} (hpath : log.path = path ++ [key]) :
    replayCall log (.objEnd (some key) (some (joinParts 46 (path ++ [key]))) (pathPrefix path)) =
      some { log with path } := by
  have hfits : log.path ≠ [] ∧ some key = log.path.getLast? ∧
      some (joinParts 46 (path ++ [key])) = pathPrefix log.path ∧ pathPrefix path = pathPrefix log.path.dropLast := by
    rw [hpath, pathPrefix_concat, dropLast_concat, getLast?_concat]
    exact ⟨by simp, rfl, rfl, rfl⟩
  unfold replayCall
  dsimp only
  rw [if_pos hfits, hpath, dropLast_concat]

theorem unwindUntil_stackOf (name : Name) {path : List Name} {log : WalkLog} (hpath : log.path = path) :
    ∃ q, q <+: path ∧ (q = [] ∨ joinParts 46 q <+: name) ∧
      (∀ r, q <+: r → r <+: path → r ≠ q → ¬joinParts 46 r <+: name) ∧
      (vpWalkerStackUnwindUntil name (stackOf path)).1 = stackOf q ∧
      replay (vpWalkerStackUnwindUntil name (stackOf path)).2 log = some { log with path := q } := by
  induction path using List.reverseRecOn generalizing log with
  | nil =>
    refine ⟨[], prefix_rfl, .inl rfl, fun r _ hr hne => absurd (prefix_nil.mp hr) hne, rfl, ?_⟩
    cases log
    cases hpath
    rfl
  | append_singleton path key ih =>
    rw [stackOf_concat]
    unfold vpWalkerStackUnwindUntil
    by_cases hfits : (joinParts 46 (path ++ [key])).isPrefixOf name = true
    · rw [if_pos hfits]
      refine ⟨path ++ [key], prefix_rfl, .inr ( isPrefixOf_iff_prefix.mp hfits),
        fun r hqr hr hne => absurd (hr.eq_of_length_le hqr.length_le) hne, (stackOf_concat path key).symm, ?_⟩
      rw [← hpath]
      rfl
    · rw [if_neg hfits]
      obtain ⟨q, hq, hfront, hlongest, hstack, hreplay⟩ := @ih { log with path } rfl
      refine ⟨q, hq.trans (prefix_append path [key]), hfront, fun r hqr hr hne => ?_, hstack, ?_⟩
      · rcases prefix_concat_iff.mp hr with rfl | hr
        · exact fun h => hfits ( isPrefixOf_iff_prefix.mpr h)
        · exact hlongest r hqr hr hne
      · show (replayCall log _).bind _ = _
        rw [peekPrefix_stackOf, replayCall_objEnd hpath]
        exact hreplay

theorem unwindAll_stackOf {path : List Name} {log : WalkLog} (hpath : log.path = path) :
    replay (vpWalkerStackUnwindAll (stackOf path)) log = some { log with path := [] } := by
  induction path using List.reverseRecOn generalizing log with
  | nil =>
    cases log
    cases hpath
    rfl
  | append_singleton path key ih =>
    rw [stackOf_concat]
    show (replayCall log (.objEnd _ _ (peekPrefix (stackOf path)))).bind _ = _
    rw [peekPrefix_stackOf, replayCall_objEnd hpath]
    exact @ih { log with path } rfl

theorem nameSplit_stackOf {tokens : List Name} {rounds i : Nat} (hi : i + rounds < tokens.length)
    {log : WalkLog} (hpath : log.path = tokens.take i) :
    (vpWalkerNameSplit tokens rounds i (stackOf (tokens.take i))).1 = stackOf (tokens.take (i + rounds)) ∧
    replay (vpWalkerNameSplit tokens rounds i (stackOf (tokens.take i))).2 log =
      some { log with
        path := tokens.take (i + rounds)
        objects := log.objects ++ (List.range' i rounds).map fun j => tokens.take (j + 1) } := by
  induction rounds generalizing i log with
  | zero =>
    refine ⟨rfl, ?_⟩
    rw [Nat.add_zero, ← hpath]
    simp only [range'_zero, map_nil, append_nil]
    rfl
  | succ rounds ih =>
    have hlt : i < tokens.length := by omega
    have htake : tokens.take (i + 1) = tokens.take i ++ [tokens.getD i []] := by
      rw [take_succ_eq_append_getElem hlt, getD_eq_getElem?_getD, getElem?_eq_getElem hlt]
      rfl
    have hstack : (⟨tokens.getD i [], joinParts 46 (tokens.take (i + 1))⟩ : VpWalkStack) :: stackOf (tokens.take i) =
        stackOf (tokens.take (i + 1)) := by
      rw [htake, stackOf_concat]
    have hindex : i + (rounds + 1) = i + 1 + rounds := by omega
    unfold vpWalkerNameSplit
    dsimp only
    rw [hstack, hindex]
    have hcall : replayCall log (.objStart (some (tokens.getD i [])) (some (joinParts 46 (tokens.take (i + 1))))
        (peekPrefix (stackOf (tokens.take i)))) =
          some { log with path := tokens.take (i + 1), objects := log.objects ++ [tokens.take (i + 1)] } := by
      unfold replayCall
      dsimp only
      rw [peekPrefix_stackOf, hpath, ← htake]
      have hne : tokens.take (i + 1) ≠ [] := by rw [htake]; simp
      exact if_pos ⟨(if_neg hne).symm, rfl⟩
    obtain ⟨hresult, hreplay⟩ := @ih (i + 1) (by omega)
      { log with path := tokens.take (i + 1), objects := log.objects ++ [tokens.take (i + 1)] } rfl
    refine ⟨hresult, ?_⟩
    show (replayCall log _).bind _ = _
    rw [hcall]
    refine hreplay.trans ?_
    rw [range'_succ, map_cons, append_assoc]
    rfl

/-! ## Names in descending order -/

section

variable {a b m name : Name} {path : List Name} {pre : Name}

theorem ObjectOf.eq_append (h : ObjectOf path name) : ∃ s, name = joinParts 46 path ++ 46 :: s := by
  obtain ⟨hne, ⟨rest, hrest⟩, hlt⟩ := h
  have hrest' : rest ≠ [] := by
    rintro rfl
    rw [append_nil] at hrest
    rw [hrest] at hlt
    exact Nat.lt_irrefl _ hlt
  exact ⟨_, eq_joinParts_append hne hrest' hrest.symm⟩

theorem components_ne_nil (name : Name) : components name ≠ [] := splitOn_ne_nil 46 name

theorem objectOf_append (pre s : Name) : ObjectOf (components pre) (pre ++ 46 :: s) := by
  have hsplit : components (pre ++ 46 :: s) = components pre ++ components s :=
    splitOn_append_cons_self pre s
  refine ⟨components_ne_nil pre, hsplit ▸ prefix_append _ _, ?_⟩
  have hpos := length_pos_iff.mpr (components_ne_nil s)
  rw [hsplit, length_append]
  omega

theorem ObjectOf.components_join (h : ObjectOf path name) : components (joinParts 46 path) = path :=
  splitOn_joinParts h.1 h.2.1

theorem ObjectOf.of_append {s : Name} (h : ObjectOf path m) (hname : name = joinParts 46 path ++ 46 :: s) :
    ObjectOf path name := by
  have hobject := objectOf_append (joinParts 46 path) s
  rwa [h.components_join, ← hname] at hobject

theorem objectOf_dropLast (hne : path ≠ []) : ObjectOf path name ↔ path <+: (components name).dropLast := by
  have hpos := length_pos_iff.mpr (components_ne_nil name)
  constructor
  · rintro ⟨-, hprefix, hlt⟩
    rw [prefix_iff_eq_take] at hprefix
    have hle : path.length ≤ (components name).length - 1 := by omega
    rw [ hprefix, dropLast_eq_take]
    exact take_prefix_take_left hle
  · intro h
    refine ⟨hne, h.trans ( dropLast_prefix _), ?_⟩
    have hle := h.length_le
    rw [length_dropLast] at hle
    omega

theorem lt_irrefl_name (a : Name) : ¬a < a := List.lt_irrefl a

theorem lt_trans_name {c : Name} (h : a < b) (h' : b < c) : a < c := List.lt_trans h h'

/-- A name that goes on from the text in front of a dot of a greater name does so with a dot, unless it goes
on with a smaller byte. -/
theorem dot_of_lt {s : Name} (hgreater : a = pre ++ 46 :: s) (hlt : m < a) (hpre : pre <+: m)
    (hne : m ≠ pre) (hclash : ¬Clash a m) : ∃ t, m = pre ++ 46 :: t := by
  obtain ⟨t, rfl⟩ := hpre
  cases t with
  | nil => exact absurd (append_nil pre) hne
  | cons c t =>
    refine ⟨t, ?_⟩
    have hle : ¬46 < c := by
      intro hc
      rw [hgreater, append_lt_append_iff, cons_lt_cons_iff] at hlt
      rcases hlt with hlt | ⟨heq, -⟩
      · exact UInt8.lt_irrefl c (UInt8.lt_trans hlt hc)
      · exact UInt8.lt_irrefl c (heq ▸ hc)
    have hge : ¬c < 46 := fun hc => hclash ⟨pre, c, s, t, hgreater, rfl, hc⟩
    have hc : c = 46 := UInt8.le_antisymm (UInt8.not_lt.mp hle) (UInt8.not_lt.mp hge)
    rw [hc]

theorem dot_of_between {s t : Name} (ha : a = pre ++ 46 :: s) (hb : b = pre ++ 46 :: t) (hlow : b < m)
    (hhigh : m < a) : ∃ u, m = pre ++ 46 :: u := by
  have hassoc : ∀ u, pre ++ 46 :: u = (pre ++ [46]) ++ u := fun u => by simp
  rw [ha, hassoc] at hhigh
  rw [hb, hassoc] at hlow
  obtain ⟨u, hu⟩ := prefix_of_between hlow hhigh
  exact ⟨u, by rw [hassoc, hu]⟩

end

/-! ## A name after the others -/

/-- The names so far are told right, and the objects around the last one are open. -/
structure WalkInv (told : List (Name × List UInt8)) (stack : List VpWalkStack) (log : WalkLog) : Prop where
  stack : stack = stackOf log.path
  path : log.path = (told.getLast?.map fun e => (components e.1).dropLast).getD []
  reports : log.reports = told.map placeOf
  nodup : log.objects.Nodup
  objects : ∀ path, path ∈ log.objects ↔ ∃ e ∈ told, ObjectOf path e.1

/-- Names in the order of the walk, none of which is the text in front of a dot of another one. -/
structure WalkOrdered (entries : List (Name × List UInt8)) : Prop where
  ordered : entries.Pairwise fun a b => b.1 < a.1
  apart : ∀ a ∈ entries, ∀ b ∈ entries, ¬DottedPrefix a.1 b.1

theorem WalkOrdered.of_append {told rest : List (Name × List UInt8)} (h : WalkOrdered (told ++ rest)) :
    WalkOrdered told :=
  ⟨(pairwise_append.mp h.ordered).1, fun a ha b hb =>
    h.apart a (mem_append_left rest ha) b (mem_append_left rest hb)⟩

section

variable {told : List (Name × List UInt8)} {e : Name × List UInt8} {stack : List VpWalkStack} {log : WalkLog}

theorem WalkOrdered.last {told rest : List (Name × List UInt8)} (h : WalkOrdered (told ++ e :: rest))
    {d : Name × List UInt8} (hd : d ∈ told) :
    ∃ m ∈ told, told.getLast? = some m ∧ e.1 < m.1 ∧ (m.1 = d.1 ∨ m.1 < d.1) := by
  induction told using List.reverseRecOn with
  | nil => exact absurd hd not_mem_nil
  | append_singleton init m _ =>
    obtain ⟨htold, -, hcross⟩ := pairwise_append.mp h.ordered
    refine ⟨m, by simp, by simp, hcross m (by simp) e mem_cons_self, ?_⟩
    rcases mem_append.mp hd with hd | hd
    · exact .inr ((pairwise_append.mp htold).2.2 d hd m mem_cons_self)
    · exact .inl (congrArg Prod.fst (mem_singleton.mp hd)).symm

theorem not_dotted {a b s : Name} (h : ¬DottedPrefix a b) : b ≠ a ++ 46 :: s :=
  fun heq => h ⟨s, by rw [heq]; simp⟩

theorem WalkInv.front (hinv : WalkInv told stack log) (hordered : WalkOrdered (told ++ [e]))
    (hclash : ∀ d ∈ told, ¬Clash d.1 e.1) {q : List Name} (hq : q <+: log.path) (hne : q ≠ [])
    (hfront : joinParts 46 q <+: e.1) :
    ObjectOf q e.1 ∧ ∃ m ∈ told, ObjectOf q m.1 := by
  have hpath := hinv.path
  cases hlast : told.getLast? with
  | none =>
    rw [hlast] at hpath
    rw [hpath] at hq
    exact absurd (prefix_nil.mp hq) hne
  | some m =>
    rw [hlast] at hpath
    have hm : m ∈ told := mem_of_getLast? hlast
    rw [hpath] at hq
    have hqm : ObjectOf q m.1 := (objectOf_dropLast hne).mpr hq
    obtain ⟨s, hs⟩ := hqm.eq_append
    have hlt : e.1 < m.1 :=
      (pairwise_append.mp hordered.ordered).2.2 m hm e mem_cons_self
    have hapart := hordered.apart e (by simp) m (mem_append_left _ hm)
    obtain ⟨t, ht⟩ := dot_of_lt hs hlt hfront (fun heq => not_dotted hapart (heq ▸ hs)) (hclash m hm)
    exact ⟨hqm.of_append ht, m, hm, hqm⟩

theorem WalkInv.open_ (hinv : WalkInv told stack log) (hordered : WalkOrdered (told ++ [e])) {r : List Name}
    (hr : r ∈ log.objects) (hre : ObjectOf r e.1) : r <+: log.path := by
  obtain ⟨d, hd, hrd⟩ := (hinv.objects r).mp hr
  obtain ⟨m, hm, hlast, hlow, hhigh⟩ := hordered.last hd
  have hrm : ObjectOf r m.1 := by
    rcases hhigh with heq | hhigh
    · rwa [heq]
    · obtain ⟨s, hs⟩ := hrd.eq_append
      obtain ⟨t, ht⟩ := hre.eq_append
      obtain ⟨u, hu⟩ := dot_of_between hs ht hlow hhigh
      exact hre.of_append hu
  rw [hinv.path, hlast]
  exact (objectOf_dropLast hre.1).mp hrm

theorem mem_started {tokens r : List Name} {i rounds : Nat} (hrounds : i + rounds + 1 = tokens.length) :
    r ∈ (List.range' i rounds).map (fun j => tokens.take (j + 1)) ↔
      r <+: tokens ∧ i < r.length ∧ r.length < tokens.length := by
  rw [mem_map]
  constructor
  · rintro ⟨j, hj, rfl⟩
    have hj := mem_range'_1.mp hj
    have hlen : (tokens.take (j + 1)).length = j + 1 := by
      rw [length_take]
      omega
    exact ⟨ take_prefix _ _, by omega, by omega⟩
  · rintro ⟨ hprefix, hlow, hhigh⟩
    refine ⟨r.length - 1, mem_range'_1.mpr (by omega), ?_⟩
    have hlen : r.length - 1 + 1 = r.length := by omega
    rw [hlen]
    exact (prefix_iff_eq_take.mp hprefix).symm

theorem started_nodup {tokens : List Name} {i rounds : Nat} (hrounds : i + rounds + 1 = tokens.length) :
    ((List.range' i rounds).map fun j => tokens.take (j + 1)).Nodup := by
  refine List.Nodup.map_on (fun j hj k hk heq => ?_) nodup_range'
  have hj := mem_range'_1.mp hj
  have hk := mem_range'_1.mp hk
  have hlen := congrArg List.length heq
  rw [length_take, length_take] at hlen
  omega

theorem WalkInv.step (hinv : WalkInv told stack log) (hordered : WalkOrdered (told ++ [e]))
    (hclash : ∀ d ∈ told, ¬Clash d.1 e.1) (hname : e.1 ≠ []) :
    ∃ stack' calls log', valuePairsWalker stack e.1 e.2 = some (stack', calls) ∧
      replay calls log = some log' ∧ WalkInv (told ++ [e]) stack' log' := by
  obtain ⟨q, hq, hfront, hlongest, hstack, hends⟩ := @unwindUntil_stackOf e.1 log.path log rfl
  have hobject : q ≠ [] → ObjectOf q e.1 ∧ ∃ m ∈ told, ObjectOf q m.1 := fun hne =>
    hinv.front hordered hclash hq hne (hfront.resolve_left hne)
  have hpos := length_pos_iff.mpr (components_ne_nil e.1)
  have hqe : q <+: components e.1 ∧ q.length < (components e.1).length := by
    by_cases hne : q = []
    · rw [hne]
      exact ⟨ nil_prefix, hpos⟩
    · exact (hobject hne).1.2
  generalize htokens : components e.1 = tokens at hpos hqe
  have hrounds : q.length + (tokens.length - 1 - q.length) + 1 = tokens.length := by omega
  have hqtake : tokens.take q.length = q := (prefix_iff_eq_take.mp hqe.1).symm
  obtain ⟨hpushed, hstarts⟩ := @nameSplit_stackOf tokens (tokens.length - 1 - q.length) q.length (by omega)
    { log with path := q } hqtake.symm
  rw [hqtake] at hpushed hstarts
  have hall : tokens.take (q.length + (tokens.length - 1 - q.length)) = tokens.dropLast := by
    rw [dropLast_eq_take]
    congr 1
    omega
  rw [hall] at hpushed hstarts
  refine ⟨stackOf tokens.dropLast, (vpWalkerStackUnwindUntil e.1 (stackOf log.path)).2 ++
    (vpWalkerNameSplit tokens (tokens.length - 1 - q.length) q.length (stackOf q)).2 ++
    [.processValue (tokens.getLast?.getD []) (peekPrefix (stackOf tokens.dropLast)) e.2], ⟨tokens.dropLast,
    log.objects ++ (List.range' q.length (tokens.length - 1 - q.length)).map fun j => tokens.take (j + 1),
    log.reports ++ [placeOf e]⟩, ?_, ?_, ?_⟩
  · unfold valuePairsWalker
    rw [if_neg hname, htokens, hinv.stack]
    dsimp only
    rw [hstack, length_stackOf, hpushed]
  · rw [replay_append, replay_append, hends, bind_some, hstarts, bind_some]
    show (replayCall _ _).bind _ = _
    unfold replayCall
    dsimp only
    rw [peekPrefix_stackOf, if_pos rfl]
    unfold placeOf
    rw [htokens]
    rfl
  · refine ⟨rfl, ?_, ?_, ?_, fun path => ?_⟩
    · rw [getLast?_concat]
      exact congrArg List.dropLast htokens.symm
    · rw [map_append, ← hinv.reports]
      rfl
    · refine nodup_append.mpr ⟨hinv.nodup, started_nodup hrounds, fun r hr r' hr' heq => ?_⟩
      subst heq
      obtain ⟨ hprefix, hlow, hhigh⟩ := (mem_started hrounds).mp hr'
      have hre : ObjectOf r e.1 := by
        refine ⟨?_, htokens ▸ hprefix, htokens ▸ hhigh⟩
        rintro rfl
        exact Nat.not_lt_zero _ hlow
      obtain ⟨s, hs⟩ := hre.eq_append
      refine hlongest r (prefix_of_prefix_length_le hqe.1 hprefix (Nat.le_of_lt hlow))
        (hinv.open_ hordered hr hre) ?_ (hs ▸ prefix_append _ _)
      rintro rfl
      exact Nat.lt_irrefl _ hlow
    · rw [mem_append, hinv.objects, mem_started hrounds]
      constructor
      · rintro (⟨d, hd, hpath⟩ | ⟨ hprefix, hlow, hhigh⟩)
        · exact ⟨d, mem_append_left _ hd, hpath⟩
        · refine ⟨e, by simp, ?_, htokens ▸ hprefix, htokens ▸ hhigh⟩
          rintro rfl
          exact Nat.not_lt_zero _ hlow
      · rintro ⟨d, hd, hpath⟩
        rcases mem_append.mp hd with hd | hd
        · exact .inl ⟨d, hd, hpath⟩
        · obtain rfl := mem_singleton.mp hd
          obtain ⟨hpne, hprefix, hhigh⟩ := hpath
          rw [htokens] at hprefix hhigh
          by_cases hlow : q.length < path.length
          · exact .inr ⟨ hprefix, hlow, hhigh⟩
          · -- the object was open before
            have hpq : path <+: q := prefix_of_prefix_length_le hprefix hqe.1 (Nat.not_lt.mp hlow)
            have hqne : q ≠ [] := fun h => hpne (prefix_nil.mp (h ▸ hpq))
            obtain ⟨-, m, hm, -, hqm, hqlt⟩ := hobject hqne
            exact .inl ⟨m, hm, hpne, hpq.trans hqm, Nat.lt_of_le_of_lt hpq.length_le hqlt⟩

end

/-! ## The whole walk -/

theorem walkEntries_append (stack : List VpWalkStack) (entries rest : List (Name × List UInt8)) :
    walkEntries stack (entries ++ rest) =
      (walkEntries stack entries).bind fun r => (walkEntries r.1 rest).map fun s => (s.1, r.2 ++ s.2) := by
  induction entries generalizing stack with
  | nil =>
    show walkEntries stack rest = (walkEntries stack rest).map fun s => (s.1, [] ++ s.2)
    cases walkEntries stack rest <;> rfl
  | cons entry entries ih =>
    show ((valuePairsWalker stack entry.1 entry.2).bind fun r =>
        (walkEntries r.1 (entries ++ rest)).map fun s => (s.1, r.2 ++ s.2)) =
      ((valuePairsWalker stack entry.1 entry.2).bind fun r =>
        (walkEntries r.1 entries).map fun s => (s.1, r.2 ++ s.2)).bind _
    rw [bind_assoc]
    refine congrArg (Option.bind _) (funext fun r => ?_)
    rw [ih]
    cases walkEntries r.1 entries with
    | none => rfl
    | some s =>
      rw [bind_some, map_some, bind_some, Option.map_map]
      refine congrArg (Option.map · _) (funext fun t => ?_)
      show (t.1, r.2 ++ (s.2 ++ t.2)) = (t.1, r.2 ++ s.2 ++ t.2)
      rw [append_assoc]

variable {entries : List (Name × List UInt8)}

theorem walkEntries_inv (hordered : WalkOrdered entries)
    (hclash : entries.Pairwise fun a b => ¬Clash a.1 b.1) (hnames : ∀ e ∈ entries, e.1 ≠ []) :
    ∃ stack calls log, walkEntries [] entries = some (stack, calls) ∧ replay calls .start = some log ∧
      WalkInv entries stack log := by
  induction entries using List.reverseRecOn with
  | nil =>
    exact ⟨[], [], .start, rfl, rfl, rfl, rfl, rfl, nodup_nil, fun path =>
      ⟨fun h => absurd h not_mem_nil, fun ⟨_, h, _⟩ => absurd h not_mem_nil⟩⟩
  | append_singleton told e ih =>
    obtain ⟨hbefore, -, hcross⟩ := pairwise_append.mp hclash
    obtain ⟨stack, calls, log, hwalk, hreplay, hinv⟩ := ih hordered.of_append hbefore fun e he =>
      hnames e (mem_append_left _ he)
    obtain ⟨stack', calls', log', hstep, hreplay', hinv'⟩ := hinv.step hordered
      (fun d hd => hcross d hd e mem_cons_self) (hnames e (by simp))
    refine ⟨stack', calls ++ (calls' ++ []), log', ?_, ?_, hinv'⟩
    · rw [walkEntries_append, hwalk, bind_some]
      unfold walkEntries
      rw [hstep]
      rfl
    · rw [append_nil, replay_append, hreplay]
      exact hreplay'

theorem walk_tree (hordered : WalkOrdered entries)
    (hclash : entries.Pairwise fun a b => ¬Clash a.1 b.1) (hnames : ∀ e ∈ entries, e.1 ≠ []) :
    ∃ stack calls log, walkEntries [] entries = some (stack, calls) ∧
      replay (calls ++ vpWalkerStackUnwindAll stack) .start = some log ∧ log.path = [] ∧
      log.reports = entries.map placeOf ∧ log.objects.Nodup ∧
      ∀ path, path ∈ log.objects ↔ ∃ e ∈ entries, ObjectOf path e.1 := by
  obtain ⟨stack, calls, log, hwalk, hreplay, hinv⟩ := walkEntries_inv hordered hclash hnames
  refine ⟨stack, calls, { log with path := [] }, hwalk, ?_, rfl, hinv.reports, hinv.nodup, hinv.objects⟩
  rw [replay_append, hreplay, hinv.stack]
  exact unwindAll_stackOf rfl

/-! ## Names that clash -/

theorem nameSplit_path {tokens : List Name} {rounds i : Nat} {stack : List VpWalkStack} {log log' : WalkLog}
    (h : replay (vpWalkerNameSplit tokens rounds i stack).2 log = some log') :
    log.path <+: log'.path ∧ log'.reports = log.reports := by
  induction rounds generalizing i stack log with
  | zero =>
    cases h
    exact ⟨prefix_rfl, rfl⟩
  | succ rounds ih =>
    unfold vpWalkerNameSplit at h
    obtain ⟨mid, hcall, hrest⟩ := bind_eq_some_iff.mp h
    obtain ⟨hpath, hreports⟩ := ih hrest
    unfold replayCall at hcall
    dsimp only at hcall
    split at hcall
    · cases hcall
      exact ⟨(prefix_append _ _).trans hpath, hreports⟩
    · cases hcall

section

variable {told rest : List (Name × List UInt8)} {e : Name × List UInt8} {stack : List VpWalkStack}
  {log : WalkLog}

theorem WalkInv.clash (hinv : WalkInv told stack log) (hordered : WalkOrdered (told ++ e :: rest))
    (hbefore : told.Pairwise fun a b => ¬Clash a.1 b.1) {d : Name × List UInt8} (hd : d ∈ told)
    {pre s t : Name} {c : UInt8} (hd' : d.1 = pre ++ 46 :: s) (he : e.1 = pre ++ c :: t)
    {stack' : List VpWalkStack} {log' : WalkLog}
    (hwalk : valuePairsWalker stack e.1 e.2 = some (stack', calls)) (hreplay : replay calls log = some log') :
    ∃ path key value, components pre <+: path ∧ log'.reports = log.reports ++ [(path, key, value)] := by
  obtain ⟨m, hm, hlast, hlow, hhigh⟩ := hordered.last hd
  -- the object of the earlier name is open
  have hobject : ObjectOf (components pre) m.1 := by
    rcases hhigh with heq | hhigh
    · rw [heq, hd']
      exact objectOf_append pre s
    · have hpre : pre <+: m.1 := prefix_of_between (he ▸ hlow) (hd' ▸ hhigh)
      have hapart := hordered.apart m (mem_append_left _ hm) d (mem_append_left _ hd)
      have hfree : ¬Clash d.1 m.1 := by
        obtain ⟨init, htold⟩ : ∃ init, told = init ++ [m] := by
          obtain ⟨init, m', htold⟩ := eq_append_cons_of_mem hm
          exact ⟨told.dropLast, (dropLast_append_getLast? m hlast).symm⟩
        rw [htold] at hd hbefore
        rcases mem_append.mp hd with hd | hd
        · exact (pairwise_append.mp hbefore).2.2 d hd m mem_cons_self
        · rw [mem_singleton.mp hd] at hhigh
          exact absurd hhigh (lt_irrefl_name _)
      obtain ⟨u, hu⟩ := dot_of_lt hd' hhigh hpre (fun heq => not_dotted hapart (heq ▸ hd')) hfree
      rw [hu]
      exact objectOf_append pre u
  obtain ⟨q, hq, hfront, hlongest, hstack, hends⟩ := @unwindUntil_stackOf e.1 log.path log rfl
  have hopen : components pre <+: log.path := by
    rw [hinv.path, hlast]
    exact (objectOf_dropLast (components_ne_nil pre)).mp hobject
  have hjoin : joinParts 46 (components pre) = pre := joinParts_splitOn pre
  have hpq : components pre <+: q := by
    rcases prefix_or_prefix_of_prefix hopen hq with h | h
    · exact h
    · by_cases heq : components pre = q
      · exact heq ▸ prefix_rfl
      · refine absurd ?_ (hlongest _ h hopen heq)
        rw [hjoin, he]
        exact prefix_append _ _
  unfold valuePairsWalker at hwalk
  split at hwalk
  · cases hwalk
  · cases hwalk
    rw [hinv.stack, replay_append, replay_append, hends, bind_some] at hreplay
    obtain ⟨mid, hstarts, hvalue⟩ := bind_eq_some_iff.mp hreplay
    obtain ⟨hpath, hreports⟩ := nameSplit_path hstarts
    obtain ⟨log'', hcall, hnil⟩ := bind_eq_some_iff.mp hvalue
    cases hnil
    unfold replayCall at hcall
    dsimp only at hcall
    split at hcall
    · cases hcall
      exact ⟨mid.path, _, _, hpq.trans hpath, by rw [hreports]⟩
    · cases hcall

end

theorem first_clash (h : ¬entries.Pairwise fun a b => ¬Clash a.1 b.1) :
    ∃ told e rest, entries = told ++ e :: rest ∧ (told.Pairwise fun a b => ¬Clash a.1 b.1) ∧
      ∃ d ∈ told, Clash d.1 e.1 := by
  induction entries using List.reverseRecOn with
  | nil => exact absurd List.Pairwise.nil h
  | append_singleton told e ih =>
    by_cases htold : told.Pairwise fun a b => ¬Clash a.1 b.1
    · refine ⟨told, e, [], rfl, htold, ?_⟩
      by_contra hfree
      refine h (pairwise_append.mpr ⟨htold, pairwise_singleton _ _, fun d hd f hf hclash => hfree ?_⟩)
      exact ⟨d, hd, mem_singleton.mp hf ▸ hclash⟩
    · obtain ⟨before, f, rest, heq, hbefore, hclash⟩ := ih htold
      exact ⟨before, f, rest ++ [e], by rw [heq, append_assoc, cons_append], hbefore, hclash⟩

theorem Clash.lt {a b : Name} (h : Clash a b) : b < a := by
  obtain ⟨pre, c, s, t, rfl, rfl, hc⟩ := h
  exact append_lt_append_iff.mpr (cons_lt_cons_iff.mpr (.inl hc))

theorem Clash.dot_mem {a b : Name} (h : Clash a b) : 46 ∈ a := by
  obtain ⟨pre, c, s, t, rfl, -, -⟩ := h
  exact mem_append_right pre mem_cons_self

theorem not_objectOf_of_le {pre t name : Name} {c : UInt8} (hc : c < 46) (hle : ¬pre ++ c :: t < name) :
    ¬ObjectOf (components pre) name := by
  intro h
  obtain ⟨s, hs⟩ := h.eq_append
  have hjoin : joinParts 46 (components pre) = pre := joinParts_splitOn pre
  rw [hs, hjoin, append_lt_append_iff, cons_lt_cons_iff] at hle
  exact hle (.inl hc)

theorem no_clash_of_told (hordered : WalkOrdered entries)
    (hnames : ∀ e ∈ entries, e.1 ≠ []) {stack : List VpWalkStack} {log : WalkLog}
    (hwalk : walkEntries [] entries = some (stack, calls))
    (hreplay : replay (calls ++ vpWalkerStackUnwindAll stack) .start = some log)
    (hreports : log.reports.Perm (entries.map placeOf)) : entries.Pairwise fun a b => ¬Clash a.1 b.1 := by
  by_contra hclash
  obtain ⟨told, e, rest, rfl, hbefore, d, hd, pre, c, s, t, hd', he, hc⟩ := first_clash hclash
  obtain ⟨stack₁, calls₁, log₁, htold, hreplay₁, hinv⟩ := walkEntries_inv hordered.of_append hbefore fun e he =>
    hnames e (mem_append_left _ he)
  -- the calls for the earlier names, for the name that clashes, and for the rest
  rw [walkEntries_append, htold, bind_some] at hwalk
  obtain ⟨r, hr, hcalls⟩ := map_eq_some_iff.mp hwalk
  obtain ⟨⟨stack₂, calls₂⟩, hstep, hrest⟩ := bind_eq_some_iff.mp hr
  obtain ⟨u, -, hu⟩ := map_eq_some_iff.mp hrest
  cases hcalls
  subst hu
  rw [replay_append, replay_append, hreplay₁, bind_some, replay_append, bind_assoc] at hreplay
  obtain ⟨log₂, hreplay₂, hend⟩ := bind_eq_some_iff.mp hreplay
  rw [← replay_append] at hend
  obtain ⟨more, hmore⟩ := replay_reports hend
  obtain ⟨path, key, value, hpath, hextra⟩ := hinv.clash hordered hbefore hd hd' he hstep hreplay₂
  -- the values told within the object, and those that belong there
  have hcount := hreports.countP_eq fun report => (components pre).isPrefixOf report.1
  have hnone : ((e :: rest).map placeOf).countP (fun report => (components pre).isPrefixOf report.1) = 0 := by
    refine countP_eq_zero.mpr fun report hreport => ?_
    obtain ⟨f, hf, rfl⟩ := mem_map.mp hreport
    have hle : ¬pre ++ c :: t < f.1 := by
      rw [← he]
      have hafter := (pairwise_cons.mp (pairwise_append.mp hordered.ordered).2.1).1
      rcases mem_cons.mp hf with rfl | hf
      · exact lt_irrefl_name _
      · exact fun h => lt_irrefl_name _ (lt_trans_name h (hafter f hf))
    exact fun h => not_objectOf_of_le hc hle
      ((objectOf_dropLast (components_ne_nil pre)).mpr ( isPrefixOf_iff_prefix.mp h))
  have hone : (components pre).isPrefixOf path = true := isPrefixOf_iff_prefix.mpr hpath
  rw [hmore, hextra, hinv.reports, map_append, countP_append, countP_append, countP_append,
    hnone, countP_singleton] at hcount
  dsimp only at hcount
  rw [if_pos hone] at hcount
  omega

/-! ## The tree of the names -/

/-- The walk tells the tree of the names, just if no name goes on from the text in front of a dot of another
one with a byte that is smaller than the dot. -/
theorem walk_tree_iff {pairs : List (Name × List UInt8)} (hnodup : (pairs.map (·.1)).Nodup)
    (hnames : ∀ p ∈ pairs, p.1 ≠ []) (hapart : ∀ p ∈ pairs, ∀ q ∈ pairs, ¬DottedPrefix p.1 q.1) :
    (∃ calls, valuePairsWalk (GTree.empty.insertAll pairs) = some calls ∧ TreeOfNames pairs calls) ↔
      ∀ p ∈ pairs, ∀ q ∈ pairs, ¬Clash p.1 q.1 := by
  have hperm : ((GTree.empty : WalkTree).insertAll pairs).entries.Perm pairs := GTree.insertAll_perm hnodup
  have hordered : WalkOrdered ((GTree.empty : WalkTree).insertAll pairs).entries :=
    ⟨((GTree.empty : WalkTree).insertAll pairs).ordered, fun a ha b hb =>
      hapart a (hperm.mem_iff.mp ha) b (hperm.mem_iff.mp hb)⟩
  have hnames : ∀ e ∈ ((GTree.empty : WalkTree).insertAll pairs).entries, e.1 ≠ [] := fun e he =>
    hnames e (hperm.mem_iff.mp he)
  constructor
  · rintro ⟨calls, hwalk, body, log, hcalls, hreplay, -, hreports, -⟩
    obtain ⟨r, hr, hr'⟩ := map_eq_some_iff.mp hwalk
    rw [hcalls] at hr'
    have hbody : r.2 ++ vpWalkerStackUnwindAll r.1 = body :=
      (append_inj' (List.cons.inj hr').2 rfl).1
    rw [← hbody] at hreplay
    have hpairwise := no_clash_of_told hordered hnames hr hreplay (hreports.trans (hperm.map placeOf).symm)
    have hflip : ((GTree.empty : WalkTree).insertAll pairs).entries.Pairwise fun a b => ¬Clash b.1 a.1 :=
      hordered.ordered.imp fun h (hclash : Clash _ _) => lt_irrefl_name _ (lt_trans_name h hclash.lt)
    exact fun p hp q hq => hpairwise.forall_of_forall_of_flip (fun _ _ h => lt_irrefl_name _ h.lt) hflip
      (hperm.mem_iff.mpr hp) (hperm.mem_iff.mpr hq)
  · intro hclash
    have hpairwise : ((GTree.empty : WalkTree).insertAll pairs).entries.Pairwise fun a b => ¬Clash a.1 b.1 :=
      pairwise_iff_forall_sublist.mpr fun {a b} h =>
        hclash a (hperm.mem_iff.mp (h.subset (by simp))) b (hperm.mem_iff.mp (h.subset (by simp)))
    obtain ⟨stack, calls, log, hwalk, hreplay, hpath, hreports, hobjects, hmem⟩ :=
      walk_tree hordered hpairwise hnames
    refine ⟨_, congrArg (Option.map _) hwalk, calls ++ vpWalkerStackUnwindAll stack, log, rfl, hreplay, hpath, ?_,
      hobjects, fun path => (hmem path).trans ⟨?_, ?_⟩⟩
    · rw [hreports]
      exact hperm.map placeOf
    · exact fun ⟨e, he, h⟩ => ⟨e, hperm.mem_iff.mp he, h⟩
    · exact fun ⟨e, he, h⟩ => ⟨e, hperm.mem_iff.mpr he, h⟩

theorem walk_tree_two :
    (∃ calls, valuePairsWalk (GTree.empty.insertAll [([97, 46, 120], [49]), ([98], [50])]) = some calls ∧
      TreeOfNames [([97, 46, 120], [49]), ([98], [50])] calls) := by
  refine (@walk_tree_iff [([97, 46, 120], [49]), ([98], [50])] (by decide) (by decide) ?_).mpr ?_
  · intro p hp q hq ⟨s, hs⟩
    simp only [mem_cons, not_mem_nil, or_false] at hp hq
    rcases hp with rfl | rfl <;> rcases hq with rfl | rfl <;> simp at hs
  · intro p hp q hq hclash
    have hlt := hclash.lt
    have hdot := hclash.dot_mem
    simp only [mem_cons, not_mem_nil, or_false] at hp hq
    rcases hp with rfl | rfl <;> rcases hq with rfl | rfl
    · exact absurd hlt (by decide)
    · exact absurd hlt (by decide)
    · exact absurd hdot (by decide)
    · exact absurd hlt (by decide)

/-- Behind `a.x`, the value of `a-b` is told within the object `a`. -/
theorem walk_clash :
    ¬∃ calls, valuePairsWalk (GTree.empty.insertAll [([97, 46, 120], [49]), ([97, 45, 98], [50])]) = some calls ∧
      TreeOfNames [([97, 46, 120], [49]), ([97, 45, 98], [50])] calls := by
  rintro ⟨calls, hwalk, body, log, hcalls, hreplay, -, hreports, -⟩
  have hbody : body = [.objStart (some [97]) (some [97]) none, .processValue [120] (some [97]) [49],
      .processValue [97, 45, 98] (some [97]) [50], .objEnd (some [97]) (some [97]) none] := by
    rw [hcalls] at hwalk
    have hcalls := some.inj (hwalk.symm.trans (show _ = some (WalkCall.objStart none none none ::
      [.objStart (some [97]) (some [97]) none, .processValue [120] (some [97]) [49],
        .processValue [97, 45, 98] (some [97]) [50], .objEnd (some [97]) (some [97]) none] ++
      [.objEnd none none none]) by decide +kernel))
    exact (append_inj' (List.cons.inj hcalls).2 rfl).1
  have hlog : log.reports = [([[97]], [120], [49]), ([[97]], [97, 45, 98], [50])] := by
    rw [hbody] at hreplay
    exact congrArg WalkLog.reports (some.inj hreplay.symm)
  rw [hlog] at hreports
  exact absurd (hreports.mem_iff.mp (mem_cons_of_mem _ mem_cons_self)) (by decide)

end SyslogNg.ValuePairs
