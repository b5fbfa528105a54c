import SyslogNg.CfgTree.Fuel

/-!
# Definitions that consist of drivers

What becomes of the drivers of a source or of a destination, and of the statements that refer to it.
-/

namespace SyslogNg.CfgTree

open List Function

variable {M : Type}

def unusedDrivers (used : Nat → Bool) : List Nat → Bool
  | [] => true
  | n :: drivers => !used n && unusedDrivers (update used n true) drivers

def useDrivers (used : Nat → Bool) : List Nat → Nat → Bool
  | [] => used
  | n :: drivers => useDrivers (update used n true) drivers

/-- What is compiled of drivers: they are in use then. -/
def driversPlan (drivers : List Nat) (plan : Plan M) (part : Part M) :
    Except CompileError (Part M × Plan M) :=
  if unusedDrivers plan.used drivers then
    .ok (part, { plan with used := useDrivers plan.used drivers })
  else .error .noClone

def driverEntries (drivers : List Nat) : List (Entry M) := drivers.map fun n => ⟨.driver n, id⟩

def driverRoute : ObjectKind M → Route M → Route M
  | .source => id
  | .destination id keepsNext => .deliver id keepsNext
  | .process f _ => .process f

def driverBranch (objects : Nat → ObjectKind M) (n : Nat) : Branch M :=
  ⟨.none, driverRoute (objects n), true⟩

/-- The drivers of a destination that is written inline: each of them passes the message on. -/
def inlineRoute (objects : Nat → ObjectKind M) (drivers : List Nat) (next : Route M) : Route M :=
  .multiplexer (drivers.map fun n => (driverBranch objects n).hop next) .drop

section

variable {definitions : Content → String → Option LogExprNode} {objects : Nat → ObjectKind M}
  {plan : Plan M} {drivers : List Nat} {used : Nat → Bool}

theorem unusedDrivers_of_nodup (hnodup : drivers.Nodup) (h : ∀ n ∈ drivers, used n = false) :
    unusedDrivers used drivers = true := by
  induction drivers generalizing used with
  | nil => rfl
  | cons n drivers ih =>
    obtain ⟨hn, hnodup⟩ := nodup_cons.1 hnodup
    rw [unusedDrivers, h n mem_cons_self]
    refine ih hnodup fun m hm => ?_
    have hne : m ≠ n := by
      rintro rfl
      exact hn hm
    rw [update_of_ne hne, h m (mem_cons_of_mem _ hm)]

theorem planSingle_unused {n : Nat} (h : plan.used n = false) :
    planSingle objects n plan = .ok (objectPart n (objects n),
      { plan with used := update plan.used n true }) := by
  rw [planSingle, h]
  rfl

theorem planSingle_used {n : Nat} (h : plan.used n = true)
    (hkind : ∀ f clone, objects n ≠ .process f clone) : planSingle objects n plan = .error .noClone := by
  rw [planSingle, h]
  cases hobject : objects n with
  | source => rfl
  | destination id keepsNext => rfl
  | process f clone => exact absurd hobject (hkind f clone)

/-! ## Sources -/

theorem sources_loop {fuel : Nat} {isFirst : Bool} {entries : List (Entry M)}
    (h : ∀ n ∈ drivers, objects n = .source) :
    planJunctionLoop (planNode definitions objects (fuel + 1)) isFirst (drivers.map .single)
        (.source entries, plan) =
      if unusedDrivers plan.used drivers then
        .ok (.source (entries ++ driverEntries drivers), { plan with used := useDrivers plan.used drivers })
      else .error .noClone := by
  induction drivers generalizing plan entries isFirst with
  | nil =>
    have hnone : driverEntries [] = ([] : List (Entry M)) := rfl
    rw [hnone, append_nil]
    rfl
  | cons n drivers ih =>
    have hn := h n mem_cons_self
    rw [map_cons, planJunctionLoop, planNode]
    cases hused : plan.used n with
    | true =>
      rw [planSingle_used hused (by rw [hn]; simp), unusedDrivers, hused]
      rfl
    | false =>
      rw [planSingle_unused hused, hn, unusedDrivers, hused]
      show planJunctionLoop _ false _ (.source (entries ++ [⟨.driver n, id⟩]), _) = _
      rw [ih fun m hm => h m (mem_cons_of_mem _ hm), append_assoc]
      rfl

theorem plan_source {fuel : Nat} {n : Nat} (h : ∀ m ∈ n :: drivers, objects m = .source) :
    planNode definitions objects (fuel + 3) (driverContents (n :: drivers)) plan =
      driversPlan (n :: drivers) plan (.source (driverEntries (n :: drivers))) := by
  have hn := h n mem_cons_self
  have hloop : planJunction (planNode definitions objects (fuel + 1)) ((n :: drivers).map .single) plan =
      driversPlan (n :: drivers) plan (.source (driverEntries (n :: drivers))) := by
    rw [planJunction, map_cons, planJunctionLoop, planNode, driversPlan]
    cases hused : plan.used n with
    | true =>
      rw [planSingle_used hused (by rw [hn]; simp), unusedDrivers, hused]
      rfl
    | false =>
      rw [planSingle_unused hused, hn, unusedDrivers, hused]
      show (planJunctionLoop _ false _ (.source [⟨.driver n, id⟩], _)).map _ = _
      rw [sources_loop fun m hm => h m (mem_cons_of_mem _ hm)]
      dsimp only
      rw [Bool.not_false, Bool.true_and]
      split
      · rfl
      · rfl
  rw [driverContents, planNode]
  show (planSequenceLoop _ [.junction _] (.start, plan)).bind _ = _
  rw [planSequenceLoop, planNode, hloop, driversPlan]
  split
  · show Except.ok (Part.source ((driverEntries (n :: drivers)).map _), _) = _
    have hid : ∀ entry : Entry M, entry.andThen (fun next => .flowControl false next) = entry := by
      intro entry
      rw [Entry.andThen]
      have hroute : entry.route ∘ (fun next => .flowControl false next) = entry.route := by
        funext next
        exact congrArg entry.route (Route.flowControl_false next)
      rw [hroute]
    have hmap : (driverEntries (n :: drivers)).map (fun entry : Entry M =>
        entry.andThen fun next => .flowControl false next) = driverEntries (n :: drivers) :=
      (map_congr_left fun entry _ => hid entry).trans (map_id _)
    exact congrArg (fun entries => Except.ok (Part.source entries, _)) hmap
  · rfl

theorem plan_empty {fuel : Nat} :
    planNode definitions objects (fuel + 3) (driverContents []) plan = .ok (.pipe .none id true, plan) :=
  rfl

/-! ## Destinations -/

theorem destinations_loop {fuel : Nat} {isFirst : Bool} {branches : List (Branch M)}
    (h : ∀ n ∈ drivers, ∃ id keepsNext, objects n = .destination id keepsNext) :
    planJunctionLoop (planNode definitions objects (fuel + 1)) isFirst (drivers.map .single)
        (.fork branches, plan) =
      if unusedDrivers plan.used drivers then
        .ok (.fork (branches ++ drivers.map (driverBranch objects)),
          { plan with used := useDrivers plan.used drivers })
      else .error .noClone := by
  induction drivers generalizing plan branches isFirst with
  | nil =>
    have hnone : [].map (driverBranch objects) = [] := rfl
    rw [hnone, append_nil]
    rfl
  | cons n drivers ih =>
    obtain ⟨id, keepsNext, hn⟩ := h n mem_cons_self
    rw [map_cons, planJunctionLoop, planNode]
    cases hused : plan.used n with
    | true =>
      rw [planSingle_used hused (by rw [hn]; simp), unusedDrivers, hused]
      rfl
    | false =>
      have hbranch : driverBranch objects n = ⟨.none, .deliver id keepsNext, true⟩ := by
        rw [driverBranch, hn, driverRoute]
      rw [planSingle_unused hused, hn, unusedDrivers, hused]
      show planJunctionLoop _ false _ (.fork (branches ++ [⟨.none, .deliver id keepsNext, true⟩]), _) = _
      rw [ih fun m hm => h m (mem_cons_of_mem _ hm), append_assoc, map_cons, hbranch]
      rfl

theorem plan_destination {fuel : Nat} {n : Nat}
    (h : ∀ m ∈ n :: drivers, ∃ id keepsNext, objects m = .destination id keepsNext) :
    planNode definitions objects (fuel + 3) (driverContents (n :: drivers)) plan =
      driversPlan (n :: drivers) plan (.pipe .none (inlineRoute objects (n :: drivers)) true) := by
  obtain ⟨id, keepsNext, hn⟩ := h n mem_cons_self
  have hbranch : driverBranch objects n = ⟨.none, .deliver id keepsNext, true⟩ := by
    rw [driverBranch, hn, driverRoute]
  have hloop : planJunction (planNode definitions objects (fuel + 1)) ((n :: drivers).map .single) plan =
      driversPlan (n :: drivers) plan (.pipe .none (inlineRoute objects (n :: drivers)) true) := by
    rw [planJunction, map_cons, planJunctionLoop, planNode, driversPlan]
    cases hused : plan.used n with
    | true =>
      rw [planSingle_used hused (by rw [hn]; simp), unusedDrivers, hused]
      rfl
    | false =>
      rw [planSingle_unused hused, hn, unusedDrivers, hused]
      show (planJunctionLoop _ false _ (.fork [⟨.none, .deliver id keepsNext, true⟩], _)).map _ = _
      rw [destinations_loop fun m hm => h m (mem_cons_of_mem _ hm), ← hbranch]
      dsimp only
      rw [Bool.not_false, Bool.true_and]
      split
      · show Except.ok (JunctionPart.finish (.fork ([driverBranch objects n] ++ _)), _) = _
        rw [singleton_append, ← map_cons, JunctionPart.finish]
        have hjoined : ((n :: drivers).map (driverBranch objects)).any Branch.tailed = true := rfl
        rw [hjoined]
        exact congrArg (fun route => Except.ok (Part.pipe .none route true, _))
          (funext fun next => congrArg (Route.multiplexer · .drop) (map_map ..))
      · rfl
  rw [driverContents, planNode]
  show (planSequenceLoop _ [.junction _] (.start, plan)).bind _ = _
  rw [planSequenceLoop, planNode, hloop, driversPlan]
  split
  · rfl
  · rfl

end

end SyslogNg.CfgTree
