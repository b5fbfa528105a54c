import Mathlib.Data.List.Perm.Subperm
import SyslogNg.Lib.Run

/-!
# The ids of the worker threads (`lib/mainloop.c`)

A worker takes the first id whose mask meets no bit of a map of 64 bits. The masks are `int`s: the one of
id 31 is negative and has all the upper bits of the map, and from 32 on the processor shifts by the count
modulo 32, so that no more than 32 workers get an id of their own.
-/

namespace SyslogNg.MainLoop

open Lib List

/-- `1 << id`, extended to the width of the map. -/
def idMask (id : Nat) : BitVec 64 := (1#32 <<< (id % 32)).signExtend 64

def mainLoopMaxWorkerThreads : Nat := 64

/-- The map, and `main_loop_io_worker_id` of each live worker: 0 for none, else the id plus one. -/
structure WorkerIds where
  idmap : BitVec 64
  workers : List Nat
  deriving DecidableEq

def ioWorkerThreadId (workerId : Nat) : Int := workerId - 1

def ioWorkerThreadStart (maxThreads : Nat) (s : WorkerIds) : WorkerIds :=
  match (List.range (min maxThreads mainLoopMaxWorkerThreads)).find? fun id => s.idmap &&& idMask id = 0 with
  | some id => ⟨s.idmap ||| idMask id, (id + 1) :: s.workers⟩
  | none => ⟨s.idmap, 0 :: s.workers⟩

/-- `main_loop_io_worker_thread_stop`, in a worker with this `main_loop_io_worker_id`. -/
def ioWorkerThreadStop (workerId : Nat) (s : WorkerIds) : WorkerIds :=
  ⟨if workerId ≠ 0 then s.idmap &&& ~~~idMask (workerId - 1) else s.idmap, s.workers.erase workerId⟩

inductive WorkerOp where
  | start
  | stop (workerId : Nat)

/-- The threads come and go, at most `maxThreads` at a time. -/
def workerNext (maxThreads : Nat) (s : WorkerIds) : WorkerOp → Option WorkerIds
  | .start => if s.workers.length < maxThreads then some (ioWorkerThreadStart maxThreads s) else none
  | .stop workerId => if workerId ∈ s.workers then some (ioWorkerThreadStop workerId s) else none

/-- The live workers have ids below `maxThreads`, each its own: an input list has one writer. -/
def WorkerIds.Exclusive (maxThreads : Nat) (s : WorkerIds) : Prop :=
  (∀ w ∈ s.workers, 0 ≤ ioWorkerThreadId w ∧ ioWorkerThreadId w < maxThreads) ∧
    (s.workers.map ioWorkerThreadId).Nodup

/-! ## Up to 32 threads -/

theorem idMask_ne_zero : ∀ i < 32, idMask i ≠ 0#64 := by decide +kernel

theorem idMask_and : ∀ i < 32, ∀ j < 32, i ≠ j → idMask i &&& idMask j = 0#64 := by decide +kernel

/-- The map has the masks of the ids that are taken. -/
structure WorkerIds.Sound (maxThreads : Nat) (s : WorkerIds) : Prop where
  free_iff : ∀ id < 32, s.idmap &&& idMask id = 0#64 ↔ id + 1 ∉ s.workers
  range : ∀ w ∈ s.workers, 0 < w ∧ w ≤ maxThreads
  nodup : s.workers.Nodup

section

variable {maxThreads : Nat} {s s' : WorkerIds}

theorem WorkerIds.Sound.exists_free (h : s.Sound maxThreads) (hmax : maxThreads ≤ 32)
    (hlt : s.workers.length < maxThreads) : ∃ id < maxThreads, s.idmap &&& idMask id = 0#64 := by
  by_contra hnone
  push Not at hnone
  have hall : (List.range maxThreads).map (· + 1) ⊆ s.workers := by
    intro w hw
    obtain ⟨id, hid, rfl⟩ := mem_map.1 hw
    have hid := mem_range.1 hid
    by_contra hnot
    exact hnone id hid ((h.free_iff id (by omega)).2 hnot)
  have hnodup : ((List.range maxThreads).map (· + 1)).Nodup :=
    nodup_range.map fun a b hab => Nat.succ.inj hab
  have hlen := (subperm_of_subset hnodup hall).length_le
  rw [length_map, length_range] at hlen
  omega

theorem WorkerIds.Sound.start (h : s.Sound maxThreads) (hmax : maxThreads ≤ 32)
    (hlt : s.workers.length < maxThreads) : (ioWorkerThreadStart maxThreads s).Sound maxThreads := by
  obtain ⟨free, hfree, hzero⟩ := h.exists_free hmax hlt
  unfold ioWorkerThreadStart mainLoopMaxWorkerThreads
  split
  case h_1 id hfind =>
    have hid : id < maxThreads := by
      have := mem_range.1 (mem_of_find?_eq_some hfind)
      omega
    have hnew := (h.free_iff id (by omega)).1 (by simpa using find?_some hfind)
    refine ⟨fun j hj => ?_, fun w hw => ?_, nodup_cons.2 ⟨hnew, h.nodup⟩⟩
    · rw [BitVec.and_or_distrib_right, mem_cons, not_or]
      by_cases hij : j = id
      · subst hij
        have hfound : s.idmap &&& idMask j = 0#64 := by simpa using find?_some hfind
        simp [hfound, idMask_ne_zero j hj]
      · rw [idMask_and id (by omega) j hj (Ne.symm hij), BitVec.or_zero, h.free_iff j hj]
        exact ⟨fun hfree => ⟨by omega, hfree⟩, And.right⟩
    · rcases mem_cons.1 hw with rfl | hw
      · omega
      · exact h.range w hw
  case h_2 hnone =>
    refine absurd hzero ?_
    simpa using find?_eq_none.1 hnone free (mem_range.2 (by omega))

theorem WorkerIds.Sound.stop (h : s.Sound maxThreads) (hmax : maxThreads ≤ 32) {w : Nat}
    (hw : w ∈ s.workers) : (ioWorkerThreadStop w s).Sound maxThreads := by
  have hrange := h.range w hw
  unfold ioWorkerThreadStop
  rw [if_pos (by omega)]
  refine ⟨fun j hj => ?_, fun v hv => h.range v (mem_of_mem_erase hv), h.nodup.erase w⟩
  rw [h.nodup.mem_erase_iff, BitVec.and_assoc]
  by_cases hij : j + 1 = w
  · subst hij
    simp [BitVec.and_comm]
  · have hkeep : ~~~idMask (w - 1) &&& idMask j = idMask j := by
      have hdisjoint := idMask_and (w - 1) (by omega) j hj (by omega)
      calc ~~~idMask (w - 1) &&& idMask j
          = (~~~idMask (w - 1) &&& idMask j) ||| (idMask (w - 1) &&& idMask j) := by
            rw [hdisjoint, BitVec.or_zero]
        _ = idMask j := by
            rw [← BitVec.and_or_distrib_right, BitVec.or_comm, BitVec.or_not_self, BitVec.allOnes_and]
    rw [hkeep, h.free_iff j hj]
    exact ⟨fun hnot hin => hnot hin.2, fun hnot hin => hnot ⟨hij, hin⟩⟩

theorem WorkerIds.Sound.next (h : s.Sound maxThreads) (hmax : maxThreads ≤ 32) {op : WorkerOp}
    (hs : workerNext maxThreads s op = some s') : s'.Sound maxThreads := by
  cases op with
  | start =>
    obtain ⟨hlt, hs⟩ := Option.ite_none_right_eq_some.1 hs
    cases hs
    exact h.start hmax hlt
  | stop w =>
    obtain ⟨hw, hs⟩ := Option.ite_none_right_eq_some.1 hs
    cases hs
    exact h.stop hmax hw

theorem WorkerIds.Sound.exclusive (h : s.Sound maxThreads) : s.Exclusive maxThreads := by
  refine ⟨fun w hw => ?_, h.nodup.map fun a b hab => ?_⟩
  · have := h.range w hw
    unfold ioWorkerThreadId
    omega
  · unfold ioWorkerThreadId at hab
    omega

/-! ## More threads -/

theorem exec_starts : ∀ m < 65, 32 < m →
    (exec (workerNext m) ⟨0, []⟩ (List.replicate 33 .start)).any (0 ∈ ·.workers) = true := by
  decide +kernel

theorem not_exclusive (hlt : 32 < maxThreads) (hle : maxThreads ≤ 64) :
    ¬∀ ops s, exec (workerNext maxThreads) ⟨0, []⟩ ops = some s → s.Exclusive maxThreads := by
  intro hall
  have hlast := exec_starts maxThreads (by omega) hlt
  obtain ⟨s, hs, hzero⟩ := (Option.any_eq_true _ _).1 hlast
  exact absurd ((hall _ s hs).1 0 (of_decide_eq_true hzero)).1 (by decide)

/-- The ids are exclusive in every run if and only if no more than 32 threads are allowed. -/
theorem worker_ids_exclusive_iff (hpos : 1 ≤ maxThreads) (hle : maxThreads ≤ 64) :
    (∀ ops s, exec (workerNext maxThreads) ⟨0, []⟩ ops = some s → s.Exclusive maxThreads) ↔
      maxThreads ≤ 32 := by
  constructor
  · intro hall
    by_contra hgt
    exact not_exclusive (by omega) hle hall
  · intro hmax ops s hs
    have hrun : Run (fun s op s' => workerNext maxThreads s op = some s') ⟨0, []⟩ ops s :=
      .of_exec (fun _ _ _ h => h) hs
    have hsound := hrun.invariant (fun _ _ _ hnext hsound => hsound.next hmax hnext)
      (I := fun s => s.Sound maxThreads) ⟨by simp, by simp, nodup_nil⟩
    exact hsound.exclusive

theorem worker_ids_exclusive_four :
    (∀ ops s, exec (workerNext 4) ⟨0, []⟩ ops = some s → s.Exclusive 4) ↔ 4 ≤ 32 :=
  worker_ids_exclusive_iff (by decide) (by decide)

theorem worker_ids_run_out : ¬∀ ops s, exec (workerNext 33) ⟨0, []⟩ ops = some s → s.Exclusive 33 :=
  not_exclusive (by decide) (by decide)

end

end SyslogNg.MainLoop
