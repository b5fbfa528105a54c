import SyslogNg.Lib.Run
import SyslogNg.DbParser.TimerWheelCascade

/-!
# The timers of a wheel fire at their targets

Every run of the operations on a wheel, with callbacks that add timers, from `timer_wheel_new`.
`timer_wheel_fires_on_target`: as long as no timer is given a target that the boundary tests
miss, a callback is invoked with the target that was last assigned to its timer, once, and not
after the timer was deleted.
-/

namespace SyslogNg.DbParser

open Lib List TimerWheel
open Option (bind_eq_some_iff bind_some map_eq_some_iff)

/-! ## What a trace must be -/

def TWEvent.timer : TWEvent → Nat
  | .added timer _ | .modified timer _ | .deleted timer | .fired timer _ => timer

/-- The target an event assigns to a timer. -/
def TWEvent.assigns (timer : Nat) : TWEvent → Option Nat
  | .added t target | .modified t target => if t = timer then some target else none
  | .deleted _ | .fired _ _ => none

def lastTarget (trace : List TWEvent) (timer : Nat) : Option Nat :=
  trace.reverse.findSome? (TWEvent.assigns timer)

/-- The timer is neither fired nor deleted in the trace. -/
def Alive (trace : List TWEvent) (timer : Nat) : Prop :=
  (∀ now, .fired timer now ∉ trace) ∧ .deleted timer ∉ trace

/-- Every invocation of a callback happens with the target last assigned to its timer, which has
been neither fired nor deleted before. -/
def FiresOnTarget (trace : List TWEvent) : Prop :=
  ∀ before timer now after, trace = before ++ .fired timer now :: after →
    lastTarget before timer = some now ∧ Alive before timer

section

variable {trace : List TWEvent} {event : TWEvent} {timer : Nat}

theorem lastTarget_snoc :
    lastTarget (trace ++ [event]) timer = (event.assigns timer).or (lastTarget trace timer) := by
  unfold lastTarget
  rw [reverse_append, reverse_singleton, singleton_append, findSome?_cons]
  cases event.assigns timer <;> rfl

theorem TWEvent.assigns_of_ne (h : event.timer ≠ timer) : event.assigns timer = none := by
  cases event <;> simp_all [TWEvent.assigns, TWEvent.timer]

theorem Alive.snoc (h : Alive trace timer)
    (hne : event.timer = timer → (event.assigns timer).isSome = true) : Alive (trace ++ [event]) timer := by
  constructor
  · intro now hmem
    rcases mem_append.1 hmem with hmem | hmem
    · exact h.1 now hmem
    · rw [← mem_singleton.1 hmem] at hne
      cases hne rfl
  · intro hmem
    rcases mem_append.1 hmem with hmem | hmem
    · exact h.2 hmem
    · rw [← mem_singleton.1 hmem] at hne
      cases hne rfl

theorem FiresOnTarget.snoc (h : FiresOnTarget trace) (hfired : ∀ timer now, event = .fired timer now →
      lastTarget trace timer = some now ∧ Alive trace timer) : FiresOnTarget (trace ++ [event]) := by
  intro before timer now after heq
  rcases eq_nil_or_concat' after with rfl | ⟨after', last, rfl⟩
  · obtain ⟨rfl, hev⟩ := append_inj' heq rfl
    exact hfired timer now (singleton_inj.1 hev)
  · rw [← cons_append, ← append_assoc] at heq
    exact h before timer now after' (append_inj' heq rfl).1

end

/-! ## The invariant -/

/-- Every entry is where it fires at its target, in one list, and its target is the one last
assigned; `num_timers` counts the entries and those that are `firing`. -/
structure TWInv (firing : Int) (w : TWWorld) : Prop where
  base : w.wheel.base = w.wheel.now / 1024 * 1024
  now_lt : w.wheel.now < 2 ^ 62
  due : w.wheel.AllDue w.wheel.now
  uniq : w.wheel.Uniq
  pending : ∀ head, ∀ e ∈ w.wheel.list head,
    lastTarget w.trace e.timer = some e.target ∧ Alive w.trace e.timer
  used : ∀ head, ∀ e ∈ w.wheel.list head, e.timer < w.nextTimer
  traced : ∀ event ∈ w.trace, event.timer < w.nextTimer
  count : ∃ timers : Finset Nat, w.wheel.numTimers = timers.card + firing ∧
    ∀ timer, timer ∈ timers ↔ ∃ head, ∃ e ∈ w.wheel.list head, e.timer = timer
  fires : FiresOnTarget w.trace

theorem TWInv.start : TWInv 0 ⟨timerWheelNew, 0, []⟩ where
  base := rfl
  now_lt := by decide
  due := by intro head e he; cases he
  uniq := ⟨fun _ => nodup_nil, fun h => by cases h⟩
  pending := by intro head e he; cases he
  used := by intro head e he; cases he
  traced := by intro event h; cases h
  count := ⟨∅, rfl, by simp [timerWheelNew]⟩
  fires := by intro before timer now after h; simp at h

/-- The timeouts the API takes, and the targets that the boundary tests do not miss. -/
def TimeoutOk (now timeout : Nat) : Prop :=
  1 ≤ timeout ∧ timeout < 2 ^ 31 ∧ ¬ Missed now (now + timeout)

section

variable {w : TWWorld} {firing : Int} {timer : Nat}

theorem TWInv.remove (h : TWInv firing w) {list : TWHead → List TWEntry}
    (hsub : ∀ head, (list head).Sublist (w.wheel.list head))
    (hmem : ∀ head e, e ∈ list head ↔ e ∈ w.wheel.list head ∧ e.timer ≠ timer)
    (hlinked : ∃ head, ∃ e ∈ w.wheel.list head, e.timer = timer) :
    TWInv (firing + 1) { w with wheel := { w.wheel with list := list } } where
  base := h.base
  now_lt := h.now_lt
  due := fun head e he => h.due head e ((hmem head e).1 he).1
  uniq := ⟨fun head => (h.uniq.one head).sublist ((hsub head).map _),
    fun h1 h2 => h.uniq.apart ((hsub _).subset h1) ((hsub _).subset h2)⟩
  pending := fun head e he => h.pending head e ((hmem head e).1 he).1
  used := fun head e he => h.used head e ((hmem head e).1 he).1
  traced := h.traced
  count := by
    obtain ⟨timers, hcard, hiff⟩ := h.count
    have hin : timer ∈ timers := (hiff timer).2 hlinked
    refine ⟨timers.erase timer, ?_, ?_⟩
    · have hpos : 0 < timers.card := Finset.card_pos.2 ⟨timer, hin⟩
      rw [Finset.card_erase_of_mem hin]
      show w.wheel.numTimers = _
      omega
    · intro t
      rw [Finset.mem_erase, hiff]
      constructor
      · rintro ⟨hne, head, e, he, rfl⟩
        exact ⟨head, e, (hmem head e).2 ⟨he, hne⟩, rfl⟩
      · rintro ⟨head, e, he, rfl⟩
        obtain ⟨hin', hne⟩ := (hmem head e).1 he
        exact ⟨hne, head, e, hin', rfl⟩
  fires := h.fires

theorem TWInv.event (h : TWInv firing w) {event : TWEvent} (hused : event.timer < w.nextTimer)
    (hout : ∀ head, ∀ e ∈ w.wheel.list head, e.timer ≠ event.timer)
    (hfired : ∀ timer now, event = .fired timer now →
      lastTarget w.trace timer = some now ∧ Alive w.trace timer) :
    TWInv firing { w with trace := w.trace ++ [event] } where
  base := h.base
  now_lt := h.now_lt
  due := h.due
  uniq := h.uniq
  pending := by
    intro head e he
    obtain ⟨hlast, halive⟩ := h.pending head e he
    have hne := (hout head e he).symm
    exact ⟨by rw [lastTarget_snoc, TWEvent.assigns_of_ne hne]; exact hlast,
      halive.snoc fun heq => absurd heq hne⟩
  used := h.used
  traced := by
    intro ev hev
    rcases mem_append.1 hev with hev | hev
    · exact h.traced ev hev
    · rw [mem_singleton.1 hev]
      exact hused
  count := h.count
  fires := h.fires.snoc hfired

theorem TWInv.assign (h : TWInv firing w) {target : Nat} {event : TWEvent}
    (hevent : event = .added timer target ∨ event = .modified timer target)
    (hout : ∀ head, ∀ e ∈ w.wheel.list head, e.timer ≠ timer) (halive : Alive w.trace timer)
    (hused : timer < w.nextTimer) (htarget : w.wheel.now < target) (hmissed : ¬ Missed w.wheel.now target) :
    TWInv (firing - 1) { w with
      wheel := w.wheel.addTimerEntry ⟨timer, target⟩
      trace := w.trace ++ [event] } := by
  have htimer : event.timer = timer := by rcases hevent with rfl | rfl <;> rfl
  have hassigns : event.assigns timer = some target := by
    rcases hevent with rfl | rfl <;> exact if_pos rfl
  have hev : TWInv firing { w with trace := w.trace ++ [event] } :=
    h.event (htimer.symm ▸ hused) (htimer.symm ▸ hout)
      (by rcases hevent with rfl | rfl <;> (intro _ _ heq; cases heq))
  have hdue := (headFor_due h.base h.now_lt htarget).2 hmissed
  have hmem : ∀ {head e}, e ∈ (w.wheel.addTimerEntry ⟨timer, target⟩).list head ↔
      e ∈ w.wheel.list head ∨ e = ⟨timer, target⟩ ∧ head = w.wheel.headFor target :=
    mem_prepend
  refine ⟨h.base, h.now_lt, ?_, h.uniq.prepend hout, ?_, ?_, hev.traced, ?_, hev.fires⟩
  · intro head e he
    rcases hmem.1 he with he | ⟨rfl, rfl⟩
    · exact h.due head e he
    · exact hdue
  · intro head e he
    rcases hmem.1 he with he | ⟨rfl, rfl⟩
    · exact hev.pending head e he
    · refine ⟨?_, halive.snoc fun _ => by rw [hassigns]; rfl⟩
      show lastTarget (w.trace ++ [event]) timer = some target
      rw [lastTarget_snoc, hassigns]
      rfl
  · intro head e he
    rcases hmem.1 he with he | ⟨rfl, rfl⟩
    · exact h.used head e he
    · exact hused
  · obtain ⟨timers, hcard, hiff⟩ := h.count
    have hnot : timer ∉ timers := fun hin =>
      let ⟨head, e, he, ht⟩ := (hiff timer).1 hin
      hout head e he ht
    refine ⟨insert timer timers, ?_, ?_⟩
    · rw [Finset.card_insert_of_notMem hnot]
      show w.wheel.numTimers = _
      omega
    · intro t
      rw [Finset.mem_insert, hiff]
      constructor
      · rintro (rfl | ⟨head, e, he, rfl⟩)
        · exact ⟨_, _, hmem.2 (.inr ⟨rfl, rfl⟩), rfl⟩
        · exact ⟨head, e, hmem.2 (.inl he), rfl⟩
      · rintro ⟨head, e, he, rfl⟩
        rcases hmem.1 he with he | ⟨rfl, -⟩
        · exact .inr ⟨head, e, he, rfl⟩
        · exact .inl rfl

theorem TWInv.counted (h : TWInv firing w) (d : Int) : TWInv (firing + d)
    { w with wheel := { w.wheel with numTimers := w.wheel.numTimers + d } } :=
  let ⟨timers, hcard, hiff⟩ := h.count
  ⟨h.base, h.now_lt, h.due, ⟨h.uniq.one, h.uniq.apart⟩, h.pending, h.used, h.traced,
    ⟨timers, by show w.wheel.numTimers + d = _; omega, hiff⟩, h.fires⟩

theorem TWInv.name (h : TWInv firing w) {n : Nat} (hn : w.nextTimer ≤ n) :
    TWInv firing { w with nextTimer := n } :=
  ⟨h.base, h.now_lt, h.due, h.uniq, h.pending, fun head e he => (h.used head e he).trans_le hn,
    fun event hev => (h.traced event hev).trans_le hn, h.count, h.fires⟩

end

namespace TWWorld

variable {w w' : TWWorld} {firing : Int} {timeout timer : Nat}

theorem addTimer_inv (h : TWInv firing w) (hok : TimeoutOk w.wheel.now timeout)
    (hadd : w.addTimer timeout = some w') : TWInv firing w' := by
  obtain ⟨hpos, hlt, hmiss⟩ := hok
  have hnow := h.now_lt
  have htarget : (w.wheel.now + timeout) % 2 ^ 64 = w.wheel.now + timeout :=
    Nat.mod_eq_of_lt (by omega)
  unfold addTimer TimerWheel.addTimer at hadd
  rw [htarget] at hadd
  split at hadd
  swap
  · cases hadd
  cases hadd
  have hfresh : ∀ event ∈ w.trace, event.timer ≠ w.nextTimer :=
    fun event he => (h.traced event he).ne
  have halive : Alive w.trace w.nextTimer :=
    ⟨fun now hmem => hfresh _ hmem rfl, fun hmem => hfresh _ hmem rfl⟩
  have hassign := (h.name (Nat.le_succ _)).assign (.inl rfl)
    (fun head e he => (h.used head e he).ne) halive (Nat.lt_succ_self _)
    (Nat.lt_add_of_pos_right hpos) hmiss
  have hcounted := hassign.counted 1
  rw [Int.sub_add_cancel] at hcounted
  exact hcounted

theorem unlink_inv (h : TWInv firing w) {wheel : TimerWheel} (hunlink : w.wheel.unlink timer = some wheel) :
    TWInv (firing + 1) { w with wheel := wheel } ∧ wheel.now = w.wheel.now ∧
      (∀ head, ∀ e ∈ wheel.list head, e.timer ≠ timer) ∧ Alive w.trace timer ∧
      timer < w.nextTimer := by
  unfold unlink at hunlink
  split at hunlink
  swap
  · cases hunlink
  cases hunlink
  rename_i hlinked
  obtain ⟨head, -, hany⟩ := any_eq_true.1 hlinked
  obtain ⟨e, he, ht⟩ := any_eq_true.1 hany
  obtain rfl : e.timer = timer := beq_iff_eq.1 ht
  have hmem : ∀ head' a, a ∈ (w.wheel.list head').filter (fun entry => entry.timer != e.timer) ↔
      a ∈ w.wheel.list head' ∧ a.timer ≠ e.timer := by
    intro head' a
    rw [mem_filter, bne_iff_ne]
  exact ⟨h.remove (fun _ => filter_sublist) hmem ⟨head, e, he, rfl⟩, rfl,
    fun head' a ha => ((hmem head' a).1 ha).2, (h.pending head e he).2, h.used head e he⟩

theorem delTimer_inv (h : TWInv 0 w) (hdel : w.delTimer timer = some w') : TWInv 0 w' := by
  unfold delTimer TimerWheel.delTimer at hdel
  cases hunlink : w.wheel.unlink timer with
  | none =>
    rw [hunlink] at hdel
    cases hdel
  | some wheel =>
    rw [hunlink] at hdel
    cases hdel
    obtain ⟨hinv, -, hout, -, hused⟩ := unlink_inv h hunlink
    have hevent : TWInv (0 + 1) ⟨wheel, w.nextTimer, w.trace ++ [.deleted timer]⟩ :=
      hinv.event hused hout (by intro _ _ heq; cases heq)
    exact hevent.counted (-1)

theorem modTimer_inv (h : TWInv 0 w) (hok : TimeoutOk w.wheel.now timeout)
    (hmod : w.modTimer timer timeout = some w') : TWInv 0 w' := by
  obtain ⟨hpos, hlt, hmiss⟩ := hok
  have hnow := h.now_lt
  have htarget : (w.wheel.now + timeout) % 2 ^ 64 = w.wheel.now + timeout :=
    Nat.mod_eq_of_lt (by omega)
  unfold modTimer TimerWheel.modTimer at hmod
  cases hunlink : w.wheel.unlink timer with
  | none =>
    rw [hunlink] at hmod
    cases hmod
  | some wheel =>
    rw [hunlink] at hmod
    obtain ⟨hinv, hsame, hout, halive, hused⟩ := unlink_inv h hunlink
    simp only [Option.map_some, hsame, htarget] at hmod
    cases hmod
    rw [← hsame] at hmiss
    have htarget' : wheel.now < w.wheel.now + timeout := by omega
    rw [← hsame] at htarget' ⊢
    exact hinv.assign (.inr rfl) hout halive hused htarget' hmiss

/-! ## Firing a slot -/

/-- The world with other entries in a list. -/
def setHead (w : TWWorld) (head : TWHead) (entries : List TWEntry) : TWWorld :=
  { w with wheel := w.wheel.setList head entries }

theorem headFor_ne_dueHead (hbase : w.wheel.base = w.wheel.now / 1024 * 1024)
    (hnow : w.wheel.now < 2 ^ 62) (hok : TimeoutOk w.wheel.now timeout) :
    w.wheel.headFor ((w.wheel.now + timeout) % 2 ^ 64) ≠ w.dueHead := by
  obtain ⟨hpos, hlt, hmiss⟩ := hok
  rw [Nat.mod_eq_of_lt (by omega)]
  intro heq
  have hdue := (headFor_due hbase hnow (Nat.lt_add_of_pos_right hpos)).2 hmiss
  rw [heq, dueHead, slotOf_level0] at hdue
  obtain ⟨hslot, hlo, hhi⟩ := hdue
  omega

theorem addTimer_setHead {head : TWHead} {entries : List TWEntry}
    (hne : w.wheel.headFor ((w.wheel.now + timeout) % 2 ^ 64) ≠ head)
    (hadd : w.addTimer timeout = some w') :
    (w.setHead head entries).addTimer timeout = some (w'.setHead head entries) ∧
      w'.wheel.now = w.wheel.now ∧ w'.wheel.base = w.wheel.base := by
  unfold addTimer TimerWheel.addTimer at hadd
  split at hadd
  swap
  · cases hadd
  cases hadd
  rename_i hcount
  refine ⟨?_, rfl, rfl⟩
  have hcomm : (w.wheel.setList head entries).addTimerEntry
        ⟨w.nextTimer, (w.wheel.now + timeout) % 2 ^ 64⟩ =
      (w.wheel.addTimerEntry ⟨w.nextTimer, (w.wheel.now + timeout) % 2 ^ 64⟩).setList head
        entries :=
    (prepend_setList_comm hne.symm).symm
  have hsame : (w.wheel.setList head entries).addTimer timeout w.nextTimer =
      some { w.wheel.setList head entries with
        list := ((w.wheel.addTimerEntry
          ⟨w.nextTimer, (w.wheel.now + timeout) % 2 ^ 64⟩).setList head entries).list
        numTimers := w.wheel.numTimers + 1 } := by
    unfold TimerWheel.addTimer
    rw [if_pos (show (w.wheel.setList head entries).numTimers + 1 < 2 ^ 31 from hcount),
      show (w.wheel.setList head entries).now = w.wheel.now from rfl, hcomm]
    rfl
  unfold addTimer
  rw [show (w.setHead head entries).wheel.addTimer timeout (w.setHead head entries).nextTimer =
    _ from hsame]
  rfl

theorem addTimers_setHead {head : TWHead} {entries : List TWEntry} {timeouts : List Nat}
    (hne : ∀ timeout ∈ timeouts, w.wheel.headFor ((w.wheel.now + timeout) % 2 ^ 64) ≠ head)
    (hadd : w.addTimers timeouts = some w') :
    (w.setHead head entries).addTimers timeouts = some (w'.setHead head entries) ∧
      w'.wheel.now = w.wheel.now ∧ w'.wheel.base = w.wheel.base := by
  induction timeouts generalizing w with
  | nil =>
    cases hadd
    exact ⟨rfl, rfl, rfl⟩
  | cons timeout timeouts ih =>
    obtain ⟨w1, h1, hrest⟩ := bind_eq_some_iff.1 hadd
    obtain ⟨hset, hnow, hbase⟩ := addTimer_setHead (hne timeout mem_cons_self) h1
    have hhead : ∀ t, w1.wheel.headFor t = w.wheel.headFor t := by
      intro t
      unfold headFor
      rw [hnow, hbase]
    obtain ⟨hset', hnow', hbase'⟩ := ih (w := w1) (by
      intro t ht
      rw [hhead, hnow]
      exact hne t (mem_cons_of_mem _ ht)) hrest
    refine ⟨?_, hnow'.trans hnow, hbase'.trans hbase⟩
    rw [addTimers, hset]
    exact hset'

/-- What lasts through the firing of timers and the passing of time. -/
structure Lasts (P : TWWorld → Prop) : Prop where
  added {w w' : TWWorld} {timeout : Nat} : P w → w.addTimer timeout = some w' → P w'
  fired {w : TWWorld} {entry : TWEntry} {entries : List TWEntry} :
    P (w.setHead w.dueHead (entry :: entries)) →
      P (setHead { w with trace := w.trace ++ [.fired entry.timer w.wheel.now] } w.dueHead entries)
  counted {w : TWWorld} (n : Int) : P w → P { w with wheel := { w.wheel with numTimers := n } }
  ticked {w : TWWorld} : TWInv 0 w → P w → w.wheel.list w.dueHead = [] → P w.tick
  rebased {w : TWWorld} (newNow : Nat) : P w → P { w with wheel := w.wheel.rebase newNow }

theorem Lasts.true : Lasts fun _ => True :=
  ⟨fun _ _ => trivial, fun _ => trivial, fun _ _ => trivial, fun _ _ _ => trivial, fun _ _ => trivial⟩

variable {P : TWWorld → Prop}

theorem addTimers_inv (hP : Lasts P) {timeouts : List Nat} (h : TWInv firing w) (hw : P w)
    (hok : ∀ timeout ∈ timeouts, TimeoutOk w.wheel.now timeout) (hadd : w.addTimers timeouts = some w') :
    TWInv firing w' ∧ P w' := by
  induction timeouts generalizing w with
  | nil =>
    cases hadd
    exact ⟨h, hw⟩
  | cons timeout timeouts ih =>
    obtain ⟨w1, h1, hrest⟩ := bind_eq_some_iff.1 hadd
    have hok1 := hok timeout mem_cons_self
    obtain ⟨-, hnow, -⟩ :=
      @addTimer_setHead _ _ _ _ [] (headFor_ne_dueHead h.base h.now_lt hok1) h1
    refine ih (addTimer_inv h hok1 h1) (hP.added hw h1) ?_ hrest
    rw [hnow]
    exact fun t ht => hok t (mem_cons_of_mem _ ht)

variable {callback : Nat → Nat → List Nat}

theorem fired_inv {entry : TWEntry} {entries : List TWEntry}
    (h : TWInv 0 (w.setHead w.dueHead (entry :: entries))) :
    TWInv 1 (setHead { w with trace := w.trace ++ [.fired entry.timer w.wheel.now] } w.dueHead
      entries) := by
  have hin : entry ∈ (w.setHead w.dueHead (entry :: entries)).wheel.list w.dueHead := by
    rw [setHead, setList_self]
    exact mem_cons_self
  have hone := h.uniq.one w.dueHead
  rw [setHead, setList_self, map_cons, nodup_cons] at hone
  have htarget : entry.target = w.wheel.now := by
    have hdue := h.due w.dueHead entry hin
    rw [dueHead, slotOf_level0] at hdue
    obtain ⟨hslot, hlo, hhi⟩ := hdue
    simp only [setHead, setList] at hlo hhi
    omega
  have hmem : ∀ head e, e ∈ (w.wheel.setList w.dueHead entries).list head ↔
      e ∈ (w.setHead w.dueHead (entry :: entries)).wheel.list head ∧ e.timer ≠ entry.timer := by
    intro head e
    rw [setHead, mem_setList, mem_setList]
    constructor
    · rintro (⟨rfl, he⟩ | ⟨hne, he⟩)
      · refine ⟨.inl ⟨rfl, mem_cons_of_mem _ he⟩, fun ht => hone.1 ?_⟩
        exact ht ▸ mem_map_of_mem he
      · refine ⟨.inr ⟨hne, he⟩, fun ht => hne ?_⟩
        exact h.uniq.apart (mem_setList.2 (.inr ⟨hne, he⟩)) hin ht
    · rintro ⟨⟨rfl, he⟩ | ⟨hne, he⟩, ht⟩
      · rcases mem_cons.1 he with rfl | he
        · exact absurd rfl ht
        · exact .inl ⟨rfl, he⟩
      · exact .inr ⟨hne, he⟩
  have hsub : ∀ head, ((w.wheel.setList w.dueHead entries).list head).Sublist
      ((w.setHead w.dueHead (entry :: entries)).wheel.list head) := by
    intro head
    by_cases heq : head = w.dueHead
    · subst heq
      rw [setHead, setList_self, setList_self]
      exact sublist_cons_self _ _
    · rw [setHead, setList_of_ne heq, setList_of_ne heq]
  have hremoved := h.remove hsub hmem ⟨w.dueHead, entry, hin, rfl⟩
  obtain ⟨hlast, halive⟩ := h.pending w.dueHead entry hin
  refine hremoved.event (h.used w.dueHead entry hin) (fun head e he => ((hmem head e).1 he).2) ?_
  intro timer now heq
  cases heq
  rw [htarget] at hlast
  exact ⟨hlast, halive⟩

theorem fireEntries_inv (hP : Lasts P) {entries : List TWEntry} (h : TWInv 0 (w.setHead w.dueHead entries))
    (hw : P (w.setHead w.dueHead entries))
    (hok : ∀ timer, ∀ timeout ∈ callback w.wheel.now timer, TimeoutOk w.wheel.now timeout)
    (hfire : w.fireEntries callback entries = some w') :
    TWInv 0 (w'.setHead w.dueHead []) ∧ P (w'.setHead w.dueHead []) ∧ w'.wheel.now = w.wheel.now := by
  induction entries generalizing w with
  | nil =>
    cases hfire
    exact ⟨h, hw, rfl⟩
  | cons entry entries ih =>
    obtain ⟨w1, hadd, hrest⟩ := bind_eq_some_iff.1 hfire
    have hfired := fired_inv h
    have hne : ∀ timeout ∈ callback w.wheel.now entry.timer,
        w.wheel.headFor ((w.wheel.now + timeout) % 2 ^ 64) ≠ w.dueHead := fun timeout ht =>
      headFor_ne_dueHead (w := w) h.base h.now_lt (hok entry.timer timeout ht)
    obtain ⟨hset, hnow, -⟩ := @addTimers_setHead
      { w with trace := w.trace ++ [.fired entry.timer w.wheel.now] } _ w.dueHead entries _ hne hadd
    obtain ⟨hadded, hw1⟩ := addTimers_inv hP hfired (hP.fired hw) (hok entry.timer) hset
    have hcounted := hadded.counted (-1)
    have hwcounted := hP.counted (w1.wheel.numTimers - 1) hw1
    have hdue : dueHead { w1 with wheel := { w1.wheel with numTimers := w1.wheel.numTimers - 1 } } =
        w.dueHead := by
      unfold dueHead
      rw [show w1.wheel.now = w.wheel.now from hnow]
    obtain ⟨hinv, hw', hnow'⟩ := ih (by rw [hdue]; exact hcounted) (by rw [hdue]; exact hwcounted)
      (by rw [show w1.wheel.now = w.wheel.now from hnow]; exact hok) hrest
    rw [hdue] at hinv hw'
    exact ⟨hinv, hw', hnow'.trans hnow⟩

theorem fireSlot_inv (hP : Lasts P) (h : TWInv 0 w) (hw : P w)
    (hok : ∀ timer, ∀ timeout ∈ callback w.wheel.now timer, TimeoutOk w.wheel.now timeout)
    (hfire : w.fireSlot callback = some w') :
    TWInv 0 w' ∧ P w' ∧ w'.wheel.now = w.wheel.now ∧ w'.wheel.list w'.dueHead = [] := by
  obtain ⟨w1, hentries, heq⟩ := map_eq_some_iff.1 hfire
  have hwhole : w.setHead w.dueHead (w.wheel.list w.dueHead) = w := by
    unfold setHead setList
    rw [Function.update_eq_self]
  obtain ⟨hinv, hw1, hnow⟩ := fireEntries_inv hP (hwhole.symm ▸ h) (hwhole.symm ▸ hw) hok hentries
  subst heq
  refine ⟨hinv, hw1, hnow, ?_⟩
  have hdue : dueHead { w1 with wheel := w1.wheel.setList w.dueHead [] } = w.dueHead := by
    unfold dueHead
    rw [show (w1.wheel.setList _ []).now = w.wheel.now from hnow]
  rw [hdue]
  exact setList_self

/-! ## The passing of time -/

theorem rebase_inv (h : TWInv 0 w) (hzero : w.wheel.numTimers = 0) {newNow : Nat} (hnow : newNow < 2 ^ 62) :
    TWInv 0 { w with wheel := w.wheel.rebase newNow } := by
  have hempty : ∀ head, ∀ e ∈ w.wheel.list head, False := by
    intro head e he
    obtain ⟨timers, hcard, hiff⟩ := h.count
    have hin : e.timer ∈ timers := (hiff e.timer).2 ⟨head, e, he, rfl⟩
    have hpos : 0 < timers.card := Finset.card_pos.2 ⟨_, hin⟩
    omega
  refine ⟨?_, hnow, fun head e he => (hempty head e he).elim, ⟨h.uniq.one, h.uniq.apart⟩,
    h.pending, h.used, h.traced, h.count, h.fires⟩
  show clearBits newNow ((1 <<< 10 - 1) <<< 0) = newNow / 1024 * 1024
  rw [clearBits, show (1 <<< 10 - 1) <<< 0 = 2 ^ 10 - 1 from rfl, Nat.and_two_pow_sub_one_eq_mod]
  omega

theorem cascading_of_due (h : TWInv firing w) (hempty : w.wheel.list w.dueHead = []) :
    w.wheel.Cascading w.wheel.now 0 := by
  refine ⟨?_, fun j _ slot e he => h.due _ e he, fun e he => h.due _ e he⟩
  intro j hj slot e he
  obtain rfl : j = 0 := by omega
  obtain ⟨hslot, hlo, hhi⟩ := h.due _ e he
  have hne : e.target ≠ w.wheel.now := by
    intro heq
    rw [hslot, heq, ← slotOf_level0] at he
    rw [dueHead] at hempty
    rw [hempty] at he
    cases he
  exact ⟨hslot, by omega, by omega⟩

theorem tick_inv (h : TWInv 0 w) (hempty : w.wheel.list w.dueHead = []) (hnow : w.wheel.now + 1 < 2 ^ 62) :
    TWInv 0 w.tick ∧ w.tick.wheel.now = w.wheel.now + 1 := by
  have hcas := cascading_of_due h hempty
  have hnum : (twLevel 0).num = 1024 := rfl
  have hwrap : (w.wheel.now + 1) % 2 ^ 64 = w.wheel.now + 1 := Nat.mod_eq_of_lt (by omega)
  unfold tick
  rw [slotOf_level0, hnum]
  by_cases hlast : w.wheel.now % 1024 = 1024 - 1
  · rw [if_pos hlast]
    obtain ⟨hdue, huniq, hentries, hsame, hbase, hcount⟩ :=
      cascade_spec h.base h.now_lt hlast h.uniq hcas
    have hback : ∀ {head e}, e ∈ w.wheel.cascade.list head → ∃ head', e ∈ w.wheel.list head' :=
      fun he => (hentries _).1 ⟨_, he⟩
    generalize w.wheel.cascade = wheel at *
    simp only [hsame, hwrap, and_true]
    refine ⟨hbase, hnow, hdue, ⟨huniq.one, huniq.apart⟩, ?_, ?_, h.traced, ?_, h.fires⟩
    · intro head e he
      obtain ⟨head', he'⟩ := hback he
      exact h.pending head' e he'
    · intro head e he
      obtain ⟨head', he'⟩ := hback he
      exact h.used head' e he'
    · obtain ⟨timers, hcard, hiff⟩ := h.count
      refine ⟨timers, hcount.trans hcard, fun timer => (hiff timer).trans ?_⟩
      constructor
      · rintro ⟨head, e, he, rfl⟩
        obtain ⟨head', he'⟩ := (hentries e).2 ⟨head, he⟩
        exact ⟨head', e, he', rfl⟩
      · rintro ⟨head, e, he, rfl⟩
        obtain ⟨head', he'⟩ := hback he
        exact ⟨head', e, he', rfl⟩
  · rw [if_neg hlast]
    simp only [hwrap, and_true]
    have hround : (w.wheel.now + 1) / 1024 = w.wheel.now / 1024 := by omega
    refine ⟨?_, hnow, ?_, ⟨h.uniq.one, h.uniq.apart⟩, h.pending, h.used, h.traced, h.count, h.fires⟩
    · show w.wheel.base = (w.wheel.now + 1) / 1024 * 1024
      rw [hround]
      exact h.base
    · have hstays : ∀ j ≥ 0, reached j (w.wheel.now + 1) = reached j w.wheel.now :=
        fun j hj => reached_eq_of_le (k := 0) hround hj
      exact hcas.done (Nat.zero_le 3) hstays

theorem setTimeLoop_inv (hP : Lasts P) {newNow n : Nat} (h : TWInv 0 w) (hw : P w) (hnew : newNow < 2 ^ 62)
    (hn : w.wheel.now + n = newNow)
    (hok : ∀ now timer, w.wheel.now ≤ now → now < newNow → ∀ timeout ∈ callback now timer,
      TimeoutOk now timeout) (hloop : setTimeLoop callback newNow n w = some w') :
    TWInv 0 w' ∧ P w' ∧ newNow ≤ w'.wheel.now := by
  induction n generalizing w with
  | zero =>
    cases hloop
    exact ⟨h, hw, hn.ge⟩
  | succ n ih =>
    obtain ⟨w1, hfire, hrest⟩ := bind_eq_some_iff.1 hloop
    obtain ⟨hinv, hw1, hnow, hempty⟩ :=
      fireSlot_inv hP h hw (fun timer => hok _ timer le_rfl (by omega)) hfire
    by_cases hzero : w1.wheel.numTimers = 0
    · rw [if_pos hzero] at hrest
      cases hrest
      exact ⟨rebase_inv hinv hzero hnew, hP.rebased newNow hw1, le_refl _⟩
    · rw [if_neg hzero] at hrest
      obtain ⟨htick, hnext⟩ := tick_inv hinv hempty (by omega)
      exact ih htick (hP.ticked hinv hw1 hempty) (by omega) (fun now timer hlo => hok now timer (by omega)) hrest

theorem setTime_inv (hP : Lasts P) {newNow : Nat} (h : TWInv 0 w) (hw : P w) (hnew : newNow < 2 ^ 62)
    (hok : ∀ now timer, w.wheel.now ≤ now → now < newNow → ∀ timeout ∈ callback now timer,
      TimeoutOk now timeout) (hset : w.setTime callback newNow = some w') :
    TWInv 0 w' ∧ P w' ∧ newNow ≤ w'.wheel.now := by
  unfold setTime at hset
  split_ifs at hset with hback hzero
  · cases hset
    exact ⟨h, hw, hback⟩
  · cases hset
    exact ⟨rebase_inv h hzero hnew, hP.rebased newNow hw, le_refl _⟩
  · exact setTimeLoop_inv hP h hw hnew (by omega) hok hset

end TWWorld

/-! ## Runs -/

/-- The calls on a wheel; `callback now timer` are the timeouts of the timers that the callback of
`timer` adds when it is invoked at `now`. -/
inductive TWOp where
  | addTimer (timeout : Nat)
  | delTimer (timer : Nat)
  | modTimer (timer newTimeout : Nat)
  | setTime (newNow : Nat) (callback : Nat → Nat → List Nat)

def twStep (w : TWWorld) : TWOp → Option TWWorld
  | .addTimer timeout => w.addTimer timeout
  | .delTimer timer => w.delTimer timer
  | .modTimer timer newTimeout => w.modTimer timer newTimeout
  | .setTime newNow callback => w.setTime callback newNow

def twStart : TWWorld := ⟨timerWheelNew, 0, []⟩

/-- `P now timeout` holds of every timeout the call gives to a timer, and of those its callbacks
give. Times are below `2 ^ 62`. -/
def TWOp.Timeouts (P : Nat → Nat → Prop) (w : TWWorld) : TWOp → Prop
  | .addTimer timeout => P w.wheel.now timeout
  | .delTimer _ => True
  | .modTimer _ newTimeout => P w.wheel.now newTimeout
  | .setTime newNow callback => newNow < 2 ^ 62 ∧
    ∀ now timer, w.wheel.now ≤ now → now < newNow → ∀ timeout ∈ callback now timer, P now timeout

/-- A call with timeouts of which `P` holds. -/
def TWNext (P : Nat → Nat → Prop) (w : TWWorld) (op : TWOp) (w' : TWWorld) : Prop :=
  twStep w op = some w' ∧ op.Timeouts P w

theorem twNext_inv {w w' : TWWorld} {op : TWOp} (hnext : TWNext TimeoutOk w op w') (h : TWInv 0 w) :
    TWInv 0 w' := by
  obtain ⟨hstep, hok⟩ := hnext
  cases op with
  | addTimer timeout => exact TWWorld.addTimer_inv h hok hstep
  | delTimer timer => exact TWWorld.delTimer_inv h hstep
  | modTimer timer newTimeout => exact TWWorld.modTimer_inv h hok hstep
  | setTime newNow callback => exact (TWWorld.setTime_inv .true h trivial hok.1 hok.2 hstep).1

/-- **Timers fire at their targets.** In every run of calls whose timeouts the boundary tests do not
miss, every invocation of a callback happens with `now` equal to the target last assigned to the
timer, at most once per timer, and never after the timer was deleted. -/
theorem timer_wheel_fires_on_target {ops : List TWOp} {w : TWWorld}
    (h : Run (TWNext TimeoutOk) twStart ops w) : FiresOnTarget w.trace :=
  (h.invariant (I := TWInv 0) (fun _ _ _ hnext hinv => twNext_inv hnext hinv) TWInv.start).fires

/-- A timer of three seconds, moved to five, whose callback adds another one. -/
theorem timer_wheel_fires_on_target_modified : ∃ w,
    Run (TWNext TimeoutOk) twStart
      [.addTimer 3, .modTimer 0 5, .setTime 8 fun _ timer => if timer = 0 then [1] else []] w ∧
    w.trace = [.added 0 3, .modified 0 5, .fired 0 5, .added 1 6, .fired 1 6] ∧
    FiresOnTarget w.trace := by
  obtain ⟨w1, h1, hnow1⟩ := map_eq_some_iff.1
    (show (twStep twStart (.addTimer 3)).map (·.wheel.now) = some 0 by decide +kernel)
  obtain ⟨w2, h2, hnow2⟩ := map_eq_some_iff.1 (show ((twStep twStart (.addTimer 3)).bind
    (twStep · (.modTimer 0 5))).map (·.wheel.now) = some 0 by decide +kernel)
  obtain ⟨w3, h3, htrace⟩ := map_eq_some_iff.1 (show (((twStep twStart (.addTimer 3)).bind
    (twStep · (.modTimer 0 5))).bind (twStep · (.setTime 8 fun _ timer =>
      if timer = 0 then [1] else []))).map (·.trace) =
    some [.added 0 3, .modified 0 5, .fired 0 5, .added 1 6, .fired 1 6] by decide +kernel)
  rw [h2, bind_some] at h3
  rw [h1, bind_some] at h2
  have hcallback : ∀ now timer, w2.wheel.now ≤ now → now < 8 →
      ∀ timeout ∈ (if timer = 0 then [1] else [] : List Nat), TimeoutOk now timeout := by
    intro now timer _ hnow timeout ht
    split at ht
    · rw [mem_singleton.1 ht]
      interval_cases now <;> exact ⟨by decide, by decide, by decide⟩
    · cases ht
  have hrun : Run (TWNext TimeoutOk) twStart
      [.addTimer 3, .modTimer 0 5, .setTime 8 fun _ timer => if timer = 0 then [1] else []] w3 := by
    refine .step ⟨h1, by decide, by decide, by decide⟩ (.step ⟨h2, ?_⟩ (.single ⟨h3, ?_⟩))
    · show TimeoutOk w1.wheel.now 5
      rw [hnow1]
      exact ⟨by decide, by decide, by decide⟩
    · exact ⟨by decide, hcallback⟩
  exact ⟨w3, hrun, htrace, timer_wheel_fires_on_target hrun⟩

/-- A timer of 1024 seconds on a new wheel goes to the slot that is due at once, and fires 1024
seconds early. -/
theorem timer_wheel_fires_early : ∃ w,
    Run (TWNext fun _ timeout => 1 ≤ timeout ∧ timeout < 2 ^ 31) twStart
      [.addTimer 1024, .setTime 1 fun _ _ => []] w ∧
    w.trace = [.added 0 1024, .fired 0 0] ∧ ¬ FiresOnTarget w.trace := by
  obtain ⟨w1, h1, -⟩ := map_eq_some_iff.1
    (show (twStep twStart (.addTimer 1024)).map (·.wheel.now) = some 0 by decide +kernel)
  obtain ⟨w2, h2, htrace⟩ := map_eq_some_iff.1 (show ((twStep twStart (.addTimer 1024)).bind
    (twStep · (.setTime 1 fun _ _ => []))).map (·.trace) =
    some [.added 0 1024, .fired 0 0] by decide +kernel)
  rw [h1, bind_some] at h2
  refine ⟨w2, .step ⟨h1, by decide, by decide⟩ (.single ⟨h2, by decide, by simp⟩), htrace, ?_⟩
  intro h
  rw [htrace] at h
  cases (h [.added 0 1024] 0 0 [] rfl).1

end SyslogNg.DbParser
