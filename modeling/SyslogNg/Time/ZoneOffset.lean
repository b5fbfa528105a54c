import Mathlib.Data.List.Sort
import Mathlib.Tactic

/-!
# The offset of a time zone (`lib/timeutils.c`)

A table of transitions, and the query that remembers the index of its last answer. The search wants a
transition strictly before the timestamp and one strictly behind it; what no such pair covers gets the
last entry.
-/

namespace SyslogNg.Time

open List Option

/-- A `Transition`: from this time on, local time is this many seconds ahead. -/
structure Transition where
  time : Int
  gmtoffset : Int
  deriving DecidableEq

/-- A `ZoneInfo`; `last_transitions_index` is `-1` where it is `none`. -/
structure ZoneInfo where
  transitions : List Transition
  timecnt : Nat
  lastTransitionsIndex : Option Nat
  sized : timecnt ≤ transitions.length
  deriving DecidableEq

namespace ZoneInfo

/-- The entries in use. -/
def table (self : ZoneInfo) : List Transition := self.transitions.take self.timecnt

/-- `self->transitions[i].time < timestamp && self->transitions[i + 1].time > timestamp`. -/
def between (self : ZoneInfo) (timestamp : Int) (i : Nat) : Bool :=
  match self.transitions[i]?, self.transitions[i + 1]? with
  | some t, some u => t.time < timestamp && timestamp < u.time
  | _, _ => false

/-- `for (i = 0; i < timecnt - 1; i++)`, up to its `break`. -/
def search (self : ZoneInfo) (timestamp : Int) : Nat :=
  ((List.range (self.timecnt - 1)).find? (self.between timestamp)).getD (self.timecnt - 1)

/-- Is the timestamp inside the interval of the last answer? -/
def cached (self : ZoneInfo) (timestamp : Int) : Option Nat :=
  self.lastTransitionsIndex.filter fun i => i < self.timecnt - 1 && self.between timestamp i

/-- `zone_info_get_offset`; `none` is a read outside the table. -/
def getOffset (self : ZoneInfo) (timestamp : Int) : Option (Int × ZoneInfo) :=
  if self.transitions = [] then some (0, self)
  else match self.cached timestamp with
    | some i => self.transitions[i]?.map fun t => (t.gmtoffset, self)
    | none =>
      let i := self.search timestamp
      self.transitions[i]?.map fun t => (t.gmtoffset, { self with lastTransitionsIndex := some i })

/-- The state that earlier queries leave. -/
def after (self : ZoneInfo) : List Int → Option ZoneInfo
  | [] => some self
  | timestamp :: timestamps => (self.getOffset timestamp).bind fun (_, self) => self.after timestamps

end ZoneInfo

/-! ## What a table says -/

/-- The last transition that is not after the timestamp, or the first one. -/
def transitionAt (table : List Transition) (timestamp : Int) : Option Transition :=
  (table.filter (·.time ≤ timestamp)).getLast?.or table.head?

/-- The offset of local time, by a table. -/
def offsetAt (table : List Transition) (timestamp : Int) : Option Int :=
  (transitionAt table timestamp).map Transition.gmtoffset

/-- A table that strictly increases. -/
def Increasing (table : List Transition) : Prop := table.Pairwise fun t u => t.time < u.time

section

variable {table before behind : List Transition} {t : Transition} {timestamp : Int}

theorem transitionAt_split (hin : ∀ u ∈ behind, timestamp < u.time) (ht : t.time ≤ timestamp) :
    transitionAt (before ++ t :: behind) timestamp = some t := by
  have hbehind : behind.filter (·.time ≤ timestamp) = [] := by
    rw [filter_eq_nil_iff]
    intro u hu
    have hlt := hin u hu
    simpa using hlt
  unfold transitionAt
  rw [filter_append, filter_cons_of_pos (by simpa using ht), hbehind]
  simp

theorem neighbours_unique (h : Increasing table) {i j : Nat} {ti ui tj uj : Transition}
    (hti : table[i]? = some ti) (hui : table[i + 1]? = some ui)
    (htj : table[j]? = some tj) (huj : table[j + 1]? = some uj)
    (hi : ti.time < timestamp ∧ timestamp < ui.time)
    (hj : tj.time < timestamp ∧ timestamp < uj.time) : i = j := by
  have hmono : ∀ {a b : Nat} {ta tb : Transition}, table[a]? = some ta → table[b]? = some tb →
      a < b → ta.time < tb.time := by
    intro a b ta tb ha hb hlt
    obtain ⟨hla, rfl⟩ := List.getElem?_eq_some_iff.mp ha
    obtain ⟨hlb, rfl⟩ := List.getElem?_eq_some_iff.mp hb
    exact pairwise_iff_getElem.mp h a b hla hlb hlt
  rcases Nat.lt_trichotomy i j with hlt | heq | hlt
  · rcases Nat.lt_or_ge (i + 1) j with hnext | hnext
    · have hle := hmono hui htj hnext
      omega
    · obtain rfl : i + 1 = j := by omega
      rw [hui] at htj
      cases htj
      omega
  · exact heq
  · rcases Nat.lt_or_ge (j + 1) i with hnext | hnext
    · have hle := hmono huj hti hnext
      omega
    · obtain rfl : j + 1 = i := by omega
      rw [huj] at hti
      cases hti
      omega

end

namespace ZoneInfo

variable {self : ZoneInfo} {timestamp : Int}

theorem table_length (self : ZoneInfo) : self.table.length = self.timecnt := by
  unfold table
  rw [length_take]
  have hsized := self.sized
  omega

theorem table_getElem? {i : Nat} (h : i < self.timecnt) : self.table[i]? = self.transitions[i]? := by
  unfold table
  rw [getElem?_take, if_pos h]

theorem between_iff {i : Nat} (h : i + 1 < self.timecnt) :
    self.between timestamp i = true ↔ ∃ t u, self.table[i]? = some t ∧ self.table[i + 1]? = some u ∧
      t.time < timestamp ∧ timestamp < u.time := by
  rw [table_getElem? (by omega), table_getElem? h]
  unfold between
  split
  · next t u ht hu => simp [ht, hu]
  · next hnone =>
    constructor
    · intro hfalse
      cases hfalse
    · rintro ⟨t, u, ht, hu, -⟩
      exact absurd hu (hnone t u ht)

theorem search_of_cached (h : Increasing self.table) {i : Nat}
    (hc : self.cached timestamp = some i) : self.search timestamp = i := by
  obtain ⟨-, hi⟩ := filter_eq_some_iff.mp hc
  rw [Bool.and_eq_true, decide_eq_true_eq] at hi
  unfold search
  cases hfind : (List.range (self.timecnt - 1)).find? (self.between timestamp) with
  | none =>
    have hnot := find?_eq_none.mp hfind i (mem_range.mpr hi.1)
    exact absurd hi.2 hnot
  | some j =>
    have hj := mem_range.mp (mem_of_find?_eq_some hfind)
    obtain ⟨ti, ui, hti, hui, hin⟩ := (between_iff (by omega)).mp hi.2
    obtain ⟨tj, uj, htj, huj, hjn⟩ := (between_iff (by omega)).mp (find?_some hfind)
    exact (neighbours_unique h hti hui htj huj hin hjn).symm

/-- **The answer does not depend on earlier queries.** -/
theorem getOffset_eq (h : Increasing self.table) (hne : self.table ≠ []) (timestamp : Int) :
    ∃ t index, self.table[self.search timestamp]? = some t ∧
      self.getOffset timestamp = some (t.gmtoffset, { self with lastTransitionsIndex := index }) := by
  have hpos : 0 < self.timecnt := self.table_length ▸ length_pos_iff.mpr hne
  have hlt : self.search timestamp < self.timecnt := by
    unfold search
    cases hfind : (List.range (self.timecnt - 1)).find? (self.between timestamp) with
    | none => exact Nat.sub_lt hpos Nat.one_pos
    | some j =>
      have hj := mem_range.mp (mem_of_find?_eq_some hfind)
      exact Nat.lt_of_lt_of_le hj (Nat.sub_le _ _)
  have htrans : self.transitions ≠ [] := by
    intro hnil
    apply hne
    unfold table
    rw [hnil, take_nil]
  have hsome : ∃ t, self.table[self.search timestamp]? = some t := by
    rw [← table_length] at hlt
    exact ⟨_, getElem?_eq_getElem hlt⟩
  obtain ⟨t, hsome⟩ := hsome
  refine ⟨t, (self.cached timestamp).elim (some (self.search timestamp))
    fun _ => self.lastTransitionsIndex, hsome, ?_⟩
  rw [table_getElem? hlt] at hsome
  unfold getOffset
  rw [if_neg htrans]
  cases hcached : self.cached timestamp with
  | none =>
    dsimp only
    rw [hsome]
    rfl
  | some i =>
    have hi := search_of_cached h hcached
    dsimp only
    rw [← hi, hsome]
    rfl

theorem after_table {z : ZoneInfo} (h : Increasing z.table) (hne : z.table ≠ [])
    (queries : List Int) : ∃ z', z.after queries = some z' ∧ z'.table = z.table := by
  induction queries generalizing z with
  | nil => exact ⟨z, rfl, rfl⟩
  | cons q queries ih =>
    obtain ⟨t, index, -, hq⟩ := getOffset_eq h hne q
    obtain ⟨z', hz', htable⟩ := ih (z := { z with lastTransitionsIndex := index }) h hne
    refine ⟨z', ?_, htable⟩
    rw [after, hq, bind_some]
    exact hz'

end ZoneInfo

/-- The timestamp lies strictly between two neighbours, or the last transition is not after it; or the
offset at that time is the last one anyway. -/
def Served (table : List Transition) (timestamp : Int) : Prop :=
  (∃ i t u, table[i]? = some t ∧ table[i + 1]? = some u ∧ t.time < timestamp ∧
    timestamp < u.time) ∨
    ∃ t, table.getLast? = some t ∧ (t.time ≤ timestamp ∨ offsetAt table timestamp = some t.gmtoffset)

theorem transitionAt_between {table : List Transition} {t u : Transition} {timestamp : Int}
    (h : Increasing table) {i : Nat} (ht : table[i]? = some t) (hu : table[i + 1]? = some u)
    (hin : t.time < timestamp ∧ timestamp < u.time) : transitionAt table timestamp = some t := by
  obtain ⟨hi, hti⟩ := List.getElem?_eq_some_iff.mp ht
  obtain ⟨hj, huj⟩ := List.getElem?_eq_some_iff.mp hu
  have hsplit : table = table.take i ++ t :: table.drop (i + 1) := by
    rw [← hti, ← drop_eq_getElem_cons hi, take_append_drop]
  rw [hsplit]
  refine transitionAt_split (fun v hv => ?_) (by omega)
  obtain ⟨k, hk, rfl⟩ := mem_iff_getElem.mp hv
  rw [getElem_drop]
  rcases Nat.eq_zero_or_pos k with rfl | hpos
  · rw [← huj] at hin
    exact hin.2
  · have hlt : i + 1 < i + 1 + k := by omega
    rw [length_drop] at hk
    have hmono := pairwise_iff_getElem.mp h (i + 1) (i + 1 + k) hj (by omega) hlt
    rw [huj] at hmono
    omega

theorem transitionAt_late {table : List Transition} {t : Transition} {timestamp : Int}
    (hlast : table.getLast? = some t) (ht : t.time ≤ timestamp) :
    transitionAt table timestamp = some t := by
  obtain ⟨before, rfl⟩ := getLast?_eq_some_iff.mp hlast
  exact transitionAt_split (by simp) ht

/-- **Earlier queries do not matter, but the instants of the transitions do**: the offset is that of the
last transition not after the timestamp, or of the first one, just where the timestamp is served. -/
theorem getOffset_iff_served (z : ZoneInfo) (h : Increasing z.table) (hne : z.table ≠ [])
    (queries : List Int) (timestamp : Int) :
    ((z.after queries).bind (·.getOffset timestamp)).map Prod.fst = offsetAt z.table timestamp ↔
      Served z.table timestamp := by
  obtain ⟨z', hz', htable⟩ := ZoneInfo.after_table h hne queries
  rw [← htable] at h hne ⊢
  obtain ⟨t, index, ht, hoffset⟩ := ZoneInfo.getOffset_eq h hne timestamp
  rw [hz', bind_some, hoffset, map_some]
  have hcount := z'.table_length
  cases hfind : (List.range (z'.timecnt - 1)).find? (z'.between timestamp) with
  | some i =>
    have hi := mem_range.mp (mem_of_find?_eq_some hfind)
    obtain ⟨ti, ui, hti, hui, hin⟩ :=
      (ZoneInfo.between_iff (by omega)).mp (find?_some hfind)
    have hsearch : z'.search timestamp = i := by
      unfold ZoneInfo.search
      rw [hfind]
      rfl
    rw [hsearch, hti] at ht
    cases ht
    have hat := transitionAt_between h hti hui hin
    exact iff_of_true (by rw [offsetAt, hat, map_some]) (.inl ⟨i, t, ui, hti, hui, hin⟩)
  | none =>
    have hsearch : z'.search timestamp = z'.timecnt - 1 := by
      unfold ZoneInfo.search
      rw [hfind]
      rfl
    have hlast : z'.table.getLast? = some t := by
      rw [getLast?_eq_getElem?, hcount, ← hsearch]
      exact ht
    constructor
    · intro heq
      exact .inr ⟨t, hlast, .inr heq.symm⟩
    · rintro (⟨i, ti, ui, hti, hui, hin⟩ | ⟨u, hu, hle | hat⟩)
      · have hi := (List.getElem?_eq_some_iff.mp hui).1
        have hnot := find?_eq_none.mp hfind i (mem_range.mpr (by omega))
        exact absurd ((ZoneInfo.between_iff (by omega)).mpr ⟨ti, ui, hti, hui, hin⟩) hnot
      · rw [hlast] at hu
        cases hu
        rw [offsetAt, transitionAt_late hlast hle, map_some]
      · rw [hlast] at hu
        cases hu
        exact hat.symm

/-- Standard time, one hour of summer time, standard time. -/
def summerHour : ZoneInfo := ⟨[⟨0, 3600⟩, ⟨100, 7200⟩, ⟨200, 3600⟩], 3, none, by decide⟩

theorem summerHour_served :
    ((summerHour.after [150, 0]).bind (·.getOffset 120)).map Prod.fst = some 7200 :=
  ((getOffset_iff_served summerHour (by unfold Increasing; decide) (by decide) [150, 0] 120).mpr
    (.inl ⟨1, ⟨100, 7200⟩, ⟨200, 3600⟩, rfl, rfl, by decide⟩))

/-- **The instant at which summer time begins gets the offset of the last entry.** -/
theorem summerHour_begins :
    Increasing summerHour.table ∧ (summerHour.getOffset 100).map Prod.fst = some 3600 ∧
      offsetAt summerHour.table 100 = some 7200 := by
  refine ⟨by unfold Increasing; decide, by decide, by decide⟩

end SyslogNg.Time
