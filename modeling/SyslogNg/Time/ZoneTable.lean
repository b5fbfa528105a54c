import SyslogNg.Time.ZoneDecode

/-!
# The tables of time zone files

What `buildTransitions` makes of the transitions of a block. In the 64 bit block the transitions before
1901 become one entry; without any, the first type gets that entry. The 32 bit block has no such entry.
-/

namespace SyslogNg.Time

open List
open Option hiding filter filter_map map

/-! ## The loop over the 64 bit transitions -/

section

variable {times : List Int} {offsetOf : Nat → Int} {e : Nat}

def entryAt (times : List Int) (offsetOf : Nat → Int) (i : Nat) : Transition :=
  ⟨times.getD i 0, offsetOf i⟩

/-- After `i` transitions of which the first `e` are early. -/
def foldedTo (times : List Int) (offsetOf : Nat → Int) (e i : Nat) : EarlyFold where
  minidx := if min i e = 0 then none else some (min i e - 1)
  lastTransitionIndex := i - e
  transitions := (List.range' e (i - e)).map (entryAt times offsetOf) ++
    List.replicate (times.length - (i - e)) ⟨0, 0⟩

theorem foldTransition_foldedTo (hearly : ∀ i < times.length, times.getD i 0 < lowestTime32 ↔ i < e)
    (hinc : ∀ i j, i < j → j < times.length → times.getD i 0 < times.getD j 0) {i : Nat}
    (hi : i < times.length) :
    foldTransition times offsetOf (foldedTo times offsetOf e i) i = foldedTo times offsetOf e (i + 1) := by
  unfold foldTransition foldedTo
  dsimp only
  by_cases hlt : i < e
  · rw [if_pos ((hearly i hi).mpr hlt)]
    have hz : i - e = 0 := by omega
    have hz' : i + 1 - e = 0 := by omega
    have hmin : min i e = i := by omega
    have hmin' : min (i + 1) e = i + 1 := by omega
    rw [hz, hz', hmin, hmin', if_neg (Nat.succ_ne_zero i), Nat.add_sub_cancel]
    by_cases hfirst : i = 0
    · rw [if_pos hfirst]
    · rw [if_neg hfirst]
      dsimp only
      rw [if_pos (hinc (i - 1) i (by omega) hi)]
  · rw [if_neg (fun h => hlt ((hearly i hi).mp h))]
    have hmin : min i e = e := by omega
    have hmin' : min (i + 1) e = e := by omega
    have hnext : i + 1 - e = i - e + 1 := by omega
    have hzeros : times.length - (i - e) = times.length - (i - e + 1) + 1 := by omega
    have hlen : ((List.range' e (i - e)).map (entryAt times offsetOf)).length = i - e := by
      rw [length_map, length_range']
    rw [hmin, hmin', hnext, set_append_right _ _ (Nat.le_of_eq hlen), hlen, Nat.sub_self, hzeros,
      replicate_succ, set_cons_zero, range'_1_concat, map_append, map_singleton,
      append_assoc, singleton_append]
    have hindex : e + (i - e) = i := by omega
    rw [hindex]
    rfl

theorem foldEarly_eq (hearly : ∀ i < times.length, times.getD i 0 < lowestTime32 ↔ i < e)
    (hinc : ∀ i j, i < j → j < times.length → times.getD i 0 < times.getD j 0) :
    foldEarly times offsetOf = foldedTo times offsetOf e times.length := by
  have hupto : ∀ i ≤ times.length, (List.range i).foldl (foldTransition times offsetOf)
      ⟨none, 0, (zoneInfoNew times.length).transitions⟩ = foldedTo times offsetOf e i := by
    intro i hi
    induction i with
    | zero =>
      unfold foldedTo
      rw [Nat.zero_min, if_pos rfl, Nat.zero_sub]
      rfl
    | succ i ih =>
      rw [range_succ, foldl_append, ih (by omega), foldl_cons, foldl_nil,
        foldTransition_foldedTo hearly hinc (by omega)]
  exact hupto times.length (Nat.le_refl _)

end

/-! ## The table of a block -/

namespace TzBlock

variable {is64bitData : Bool} {block : TzBlock}

def offsetOf (block : TzBlock) (index : Nat) : Int := block.offsets.getD index 0

def entry (block : TzBlock) (t : Int × Nat) : Transition := ⟨t.1, block.offsetOf t.2⟩

theorem entryAt_eq (block : TzBlock) {ts : List (Int × Nat)} {i : Nat} (h : i < ts.length) :
    entryAt (ts.map Prod.fst)
      (fun i => block.offsets.getD ((ts.map Prod.snd).getD i 0) 0) i = block.entry ts[i] := by
  have htime : (ts.map Prod.fst).getD i 0 = ts[i].1 := by
    rw [getD_eq_getElem?_getD, getElem?_map, getElem?_eq_getElem h]
    rfl
  have hindex : (ts.map Prod.snd).getD i 0 = ts[i].2 := by
    rw [getD_eq_getElem?_getD, getElem?_map, getElem?_eq_getElem h]
    rfl
  unfold entryAt entry offsetOf
  dsimp only
  rw [htime, hindex]

theorem entries_drop (block : TzBlock) (ts : List (Int × Nat)) (e : Nat) :
    (List.range' e (ts.length - e)).map (entryAt (ts.map Prod.fst)
      (fun i => block.offsets.getD ((ts.map Prod.snd).getD i 0) 0)) = (ts.drop e).map block.entry := by
  refine ext_getElem (by simp) fun i hi hi' => ?_
  rw [length_map, length_range'] at hi
  rw [getElem_map, getElem_range', Nat.one_mul, entryAt_eq block (by omega),
    getElem_map, getElem_drop]

theorem early_late (h : block.WellFormed is64bitData) :
    ∃ early late, block.transitions = early ++ late ∧ (∀ t ∈ early, t.1 < lowestTime32) ∧
      ∀ t ∈ late, lowestTime32 ≤ t.1 := by
  have hinc := h.increasing
  generalize block.transitions = ts at hinc ⊢
  induction ts with
  | nil => exact ⟨[], [], rfl, by simp, by simp⟩
  | cons t ts ih =>
    rw [pairwise_cons] at hinc
    by_cases ht : t.1 < lowestTime32
    · obtain ⟨early, late, rfl, hearly, hlate⟩ := ih hinc.2
      refine ⟨t :: early, late, rfl, fun u hu => ?_, hlate⟩
      rcases mem_cons.mp hu with rfl | hu
      · exact ht
      · exact hearly u hu
    · refine ⟨[], t :: ts, rfl, by simp, fun u hu => ?_⟩
      rcases mem_cons.mp hu with rfl | hu
      · omega
      · have hlt := hinc.1 u hu
        omega

def initialEntry (block : TzBlock) (early : List (Int × Nat)) : Transition :=
  ⟨lowestTime32, block.offsetOf ((early.getLast?.map Prod.snd).getD 0)⟩

theorem info_table_nil (htypes : block.types ≠ []) (hnil : block.transitions = []) :
    (block.info is64bitData).table = [block.initialEntry []] := by
  have hoffsets : block.offsets.length > 0 := by
    unfold offsets
    rw [length_map]
    exact length_pos_iff.mpr htypes
  unfold info buildTransitions
  dsimp only
  rw [hnil, map_nil, map_nil, if_pos ⟨hoffsets, rfl⟩]
  rfl

/-- **The table of a 32 bit block**: the transitions, or an entry for the first type. -/
theorem info_table_32 (hne : block.transitions ≠ []) :
    (block.info false).table = block.transitions.map block.entry := by
  have hlen : (block.transitions.map Prod.fst).length = block.transitions.length := length_map _
  have hpos := length_pos_iff.mpr hne
  have hentries := block.entries_drop block.transitions 0
  rw [Nat.sub_zero, ← range_eq_range', drop_zero] at hentries
  unfold info buildTransitions ZoneInfo.table
  dsimp only
  rw [if_neg (by omega), dif_neg (by simp)]
  dsimp only
  rw [take_of_length_le (by rw [length_map, length_range]), hlen]
  exact hentries

/-- **The table of a 64 bit block**: an entry for the early transitions, and the others. -/
theorem info_table_64 (h : block.WellFormed true) {early late : List (Int × Nat)}
    (hsplit : block.transitions = early ++ late) (hearly : ∀ t ∈ early, t.1 < lowestTime32)
    (hlate : ∀ t ∈ late, lowestTime32 ≤ t.1) (hne : block.transitions ≠ []) :
    (block.info true).table = block.initialEntry early :: late.map block.entry := by
  have hlen : (block.transitions.map Prod.fst).length = block.transitions.length := length_map _
  have hpos := length_pos_iff.mpr hne
  have hsum : block.transitions.length = early.length + late.length := by
    rw [hsplit, length_append]
  have hgetD : ∀ i (hi : i < block.transitions.length),
      (block.transitions.map Prod.fst).getD i 0 = block.transitions[i].1 := by
    intro i hi
    rw [getD_eq_getElem?_getD, getElem?_map, getElem?_eq_getElem hi]
    rfl
  have hiff : ∀ i < (block.transitions.map Prod.fst).length,
      (block.transitions.map Prod.fst).getD i 0 < lowestTime32 ↔ i < early.length := by
    intro i hi
    rw [hlen] at hi
    rw [hgetD i hi]
    constructor
    · intro hlt
      by_contra hge
      have hmem : block.transitions[i] ∈ late := by
        rw [getElem_of_eq hsplit hi, getElem_append_right (by omega)]
        exact getElem_mem _
      have hle := hlate _ hmem
      omega
    · intro hlt
      have hmem : block.transitions[i] ∈ early := by
        rw [getElem_of_eq hsplit hi, getElem_append_left hlt]
        exact getElem_mem _
      exact hearly _ hmem
  have hinc : ∀ i j, i < j → j < (block.transitions.map Prod.fst).length →
      (block.transitions.map Prod.fst).getD i 0 < (block.transitions.map Prod.fst).getD j 0 := by
    intro i j hij hj
    rw [hlen] at hj
    rw [hgetD i (by omega), hgetD j hj]
    exact pairwise_iff_getElem.mp h.increasing i j (by omega) hj hij
  have hfold : foldEarly (block.transitions.map Prod.fst)
      (fun i => block.offsets.getD ((block.transitions.map Prod.snd).getD i 0) 0) =
        foldedTo _ _ early.length (block.transitions.map Prod.fst).length :=
    foldEarly_eq hiff hinc
  have hentries := block.entries_drop block.transitions early.length
  have hdrop : block.transitions.drop early.length = late := by rw [hsplit, drop_left]
  rw [hdrop] at hentries
  unfold info buildTransitions ZoneInfo.table
  dsimp only
  rw [if_neg (by omega), dif_pos ⟨rfl, by omega⟩]
  split
  case h_1 minidx hmin =>
    rw [hfold] at hmin
    unfold foldedTo at hmin
    dsimp only at hmin
    split at hmin
    case isTrue => cases hmin
    case isFalse hnz =>
      cases hmin
      have hmin : min (block.transitions.map Prod.fst).length early.length = early.length := by omega
      have hindex : (block.transitions.map Prod.snd).getD (early.length - 1) 0 =
          (early.getLast?.map Prod.snd).getD 0 := by
        rw [getLast?_eq_getElem?, getD_eq_getElem?_getD, getElem?_map, hsplit,
          getElem?_append_left (by omega)]
      have htake : (block.transitions.map Prod.fst).length - (early.length - 1) =
          block.transitions.length - early.length + 1 := by omega
      rw [hmin]
      dsimp only
      rw [htake, hindex, take_succ_cons, hfold, foldedTo]
      dsimp only
      rw [hlen, hentries, take_take, take_left' (by rw [length_map]; omega)]
      rfl
  case h_2 hmin =>
    rw [hfold] at hmin
    unfold foldedTo at hmin
    dsimp only at hmin
    split at hmin
    case isFalse => cases hmin
    case isTrue hz =>
      have hnil : early = [] := by
        rw [← length_eq_zero_iff]
        omega
      dsimp only
      rw [hfold, foldedTo]
      dsimp only
      rw [hlen, hentries, take_of_length_le, hnil, length_nil, Nat.sub_zero, Nat.sub_self,
        replicate_zero, append_nil]
      · rfl
      · simp only [length_cons, length_append, length_map, length_replicate]
        omega

/-! ## The offsets of a table -/

theorem localOffset_eq {time offset : Int} (ho : block.localOffset time = some offset) :
    block.offsetOf (((block.transitions.filter (·.1 ≤ time)).getLast?.map Prod.snd).getD 0) = offset := by
  unfold localOffset at ho
  unfold offsetOf offsets
  rw [getD_eq_getElem?_getD, getElem?_map]
  dsimp only at ho
  rw [ho]
  rfl

theorem filter_entries (block : TzBlock) (ts : List (Int × Nat)) (time : Int) :
    (ts.map block.entry).filter (·.time ≤ time) = (ts.filter (·.1 ≤ time)).map block.entry := by
  rw [filter_map]
  rfl

/-- **A table with an entry for the early transitions** gives the offsets of the file. -/
theorem offsetAt_initial {early late : List (Int × Nat)} (hsplit : block.transitions = early ++ late)
    (hearly : ∀ t ∈ early, t.1 < lowestTime32) {time offset : Int} (htime : lowestTime32 ≤ time)
    (ho : block.localOffset time = some offset) :
    offsetAt (block.initialEntry early :: late.map block.entry) time = some offset := by
  have hall : early.filter (·.1 ≤ time) = early := by
    rw [filter_eq_self]
    intro t ht
    have hlt := hearly t ht
    rw [decide_eq_true_eq]
    omega
  have hlocal := localOffset_eq ho
  rw [hsplit, filter_append, hall, getLast?_append] at hlocal
  unfold offsetAt transitionAt
  rw [filter_cons_of_pos (by rw [decide_eq_true_eq]; exact htime), filter_entries,
    getLast?_cons, getLast?_map]
  cases hlast : (late.filter (·.1 ≤ time)).getLast? with
  | none =>
    rw [hlast, none_or] at hlocal
    rw [← hlocal]
    rfl
  | some t =>
    rw [hlast, some_or] at hlocal
    rw [← hlocal]
    rfl

/-- The offset at the first transition that the 32 bit block lacks an entry for. -/
def FirstCovered (block : TzBlock) : Prop :=
  ∀ t, block.transitions.head? = some t →
    t.1 ≤ lowestTime32 ∨ block.offsetOf t.2 = block.offsetOf 0

/-- **A table without one** does so just where the first transition is not after 1901, or does not
change the offset of the first type. -/
theorem offsetAt_entries (h : block.WellFormed is64bitData) (hne : block.transitions ≠ []) :
    (∀ time, lowestTime32 ≤ time → ∀ offset, block.localOffset time = some offset →
      offsetAt (block.transitions.map block.entry) time = some offset) ↔ block.FirstCovered := by
  obtain ⟨first, ts, hts⟩ := exists_cons_of_ne_nil hne
  have hat : ∀ time, offsetAt (block.transitions.map block.entry) time =
      some (block.offsetOf (((block.transitions.filter (·.1 ≤ time)).getLast?.map Prod.snd).getD
        first.2)) := by
    intro time
    unfold offsetAt transitionAt
    rw [filter_entries, getLast?_map]
    cases (block.transitions.filter (·.1 ≤ time)).getLast? with
    | none =>
      rw [hts]
      rfl
    | some t => rfl
  constructor
  · intro hdecodes t ht
    rw [hts, head?_cons, some.injEq] at ht
    subst ht
    by_contra hnot
    rw [not_or] at hnot
    have hnone : block.transitions.filter (·.1 ≤ lowestTime32) = [] := by
      rw [filter_eq_nil_iff]
      intro u hu
      have hinc := h.increasing
      rw [hts, pairwise_cons] at hinc
      rw [hts] at hu
      rw [decide_eq_true_eq]
      rcases mem_cons.mp hu with rfl | hu
      · exact hnot.1
      · have hlt := hinc.1 u hu
        omega
    have hindex : 0 < block.types.length := by
      have hlt := h.indices first (by rw [hts]; exact mem_cons_self)
      omega
    have hlocal : block.localOffset lowestTime32 = some (block.types[0].utoff) := by
      unfold localOffset
      rw [hnone]
      dsimp only [getLast?_nil, map_none, getD_none]
      rw [getElem?_eq_getElem hindex]
      rfl
    have hsame := hdecodes lowestTime32 (Int.le_refl _) _ hlocal
    rw [hat, ← localOffset_eq hlocal, hnone] at hsame
    exact hnot.2 (some.inj hsame)
  · intro hfirst time htime offset ho
    rw [hat, ← localOffset_eq ho]
    cases hlast : (block.transitions.filter (·.1 ≤ time)).getLast? with
    | some t => rfl
    | none =>
      rcases hfirst first (by rw [hts]; rfl) with hle | hsame
      · have hnil := getLast?_eq_none_iff.mp hlast
        rw [hts, filter_cons_of_pos (by rw [decide_eq_true_eq]; omega)] at hnil
        cases hnil
      · rw [map_none, getD_none, getD_none, hsame]

/-- The parser takes just this block, and its table gives the offsets of the file from 1901 on. -/
def Decoded (is64bitData : Bool) (block : TzBlock) (rest : List UInt8) : Prop :=
  ∃ info, zoneInfoParser is64bitData (block.encode is64bitData ++ rest) =
      .ok (block.version, info) rest ∧
    ∀ time, lowestTime32 ≤ time → ∀ offset, block.localOffset time = some offset →
      offsetAt info.table time = some offset

/-- What the parser takes for granted: counts that are a `gint`, offsets of at most a day, the flags of
all types, and in the 32 bit block nothing to say about the times before the first transition. -/
structure Decodable (is64bitData : Bool) (block : TzBlock) : Prop where
  counts : SmallCounts block
  day : ∀ t ∈ block.types, DayOffset t
  isstd : block.isstd.length = block.types.length
  isgmt : block.isgmt.length = block.types.length
  first : is64bitData = false → block.FirstCovered

theorem info_offsets (h : block.WellFormed is64bitData) :
    (∀ time, lowestTime32 ≤ time → ∀ offset, block.localOffset time = some offset →
      offsetAt (block.info is64bitData).table time = some offset) ↔
        (is64bitData = false → block.FirstCovered) := by
  by_cases hne : block.transitions = []
  · refine iff_of_true (fun time htime offset ho => ?_) (fun _ t ht => ?_)
    · have htypes : block.types ≠ [] := by
        intro hnil
        unfold localOffset at ho
        dsimp only at ho
        rw [hnil, getElem?_nil] at ho
        cases ho
      rw [info_table_nil htypes hne]
      have hsplit : block.transitions = [] ++ [] := hne
      exact offsetAt_initial hsplit (by simp) htime ho
    · rw [hne] at ht
      cases ht
  · cases is64bitData with
    | true =>
      obtain ⟨early, late, hsplit, hearly, hlate⟩ := early_late h
      refine iff_of_true (fun time htime offset ho => ?_) nofun
      rw [info_table_64 h hsplit hearly hlate hne]
      exact offsetAt_initial hsplit hearly htime ho
    | false =>
      rw [info_table_32 hne, offsetAt_entries h hne]
      exact ⟨fun hfirst _ => hfirst, fun hfirst => hfirst rfl⟩

/-- **A well-formed block is decoded** just where it is as the parser takes for granted. -/
theorem decoded_iff (h : block.WellFormed is64bitData) (rest : List UInt8) :
    Decoded is64bitData block rest ↔ Decodable is64bitData block := by
  constructor
  · rintro ⟨info, hparse, hoffsets⟩
    have hcounts : SmallCounts block := by
      by_contra hlarge
      rw [zoneInfoParser_abort h hlarge rest] at hparse
      cases hparse
    have hday : ∀ t ∈ block.types, DayOffset t := by
      by_contra hnot
      obtain ⟨t, ht⟩ := not_forall.mp hnot
      obtain ⟨hmem, ht⟩ := Classical.not_imp.mp ht
      obtain ⟨rest', herror⟩ := zoneInfoParser_error h hcounts ⟨t, hmem, ht⟩ rest
      rw [herror] at hparse
      cases hparse
    rw [zoneInfoParser_encode h hcounts hday rest] at hparse
    have hlen := flags_length hparse
    have hflags : block.isstd.length = block.types.length ∧
        block.isgmt.length = block.types.length := by
      have hstd : block.isstd.length ≤ block.types.length := by
        rcases h.isstd with hnil | heq
        · rw [hnil]
          exact Nat.zero_le _
        · exact Nat.le_of_eq heq
      have hgmt : block.isgmt.length ≤ block.types.length := by
        rcases h.isgmt with hnil | heq
        · rw [hnil]
          exact Nat.zero_le _
        · exact Nat.le_of_eq heq
      unfold flagBytes at hlen
      rw [length_append, length_append, length_map, length_map] at hlen
      omega
    rw [flags_read hflags.1 hflags.2] at hparse
    cases hparse
    exact ⟨hcounts, hday, hflags.1, hflags.2, (info_offsets h).mp hoffsets⟩
  · intro hd
    refine ⟨block.info is64bitData, ?_, (info_offsets h).mpr hd.first⟩
    rw [zoneInfoParser_encode h hd.counts hd.day, flags_read hd.isstd hd.isgmt]

end TzBlock

/-- A zone that has summer time once, and the flags of its types. -/
def summerBlock : TzBlock where
  version2 := false
  reserved := List.replicate 15 0
  transitions := [(-2 ^ 31, 0), (100, 1), (200, 0)]
  types := [⟨3600, false, 0⟩, ⟨7200, true, 4⟩]
  chars := [67, 69, 84, 0, 67, 69, 83, 84, 0]
  leaps := []
  isstd := [false, false]
  isgmt := [false, false]

theorem summerBlock_wellFormed : summerBlock.WellFormed false :=
  ⟨rfl, by unfold TimeFits; decide, by decide, by decide, by decide, by decide, by unfold TimeFits; decide,
    .inr rfl, .inr rfl, by decide⟩

theorem summerBlock_decoded : TzBlock.Decoded false summerBlock [] :=
  (TzBlock.decoded_iff summerBlock_wellFormed []).mpr
    ⟨⟨by decide, by decide, by decide⟩, by decide, rfl, rfl, fun _ t ht => by
      cases ht
      exact .inl (Int.le_refl _)⟩

/-- The same zone without the flags, which a file may leave out. -/
def plainBlock : TzBlock := { summerBlock with isstd := [], isgmt := [] }

/-- **The flags that are not there are read from what comes next.** -/
theorem plainBlock_not_decoded :
    plainBlock.WellFormed false ∧
      zoneInfoParser false (plainBlock.encode false ++ tzMagic) = .abort ∧
      ¬TzBlock.Decoded false plainBlock tzMagic := by
  have hwell : plainBlock.WellFormed false :=
    ⟨rfl, summerBlock_wellFormed.times, by decide, by decide, by decide, by decide,
      summerBlock_wellFormed.leaps, .inl rfl, .inl rfl, by decide⟩
  refine ⟨hwell, by decide +kernel, fun hdecoded => ?_⟩
  obtain ⟨info, hparse, -⟩ := hdecoded
  have habort : zoneInfoParser false (plainBlock.encode false ++ tzMagic) = .abort := by
    decide +kernel
  rw [habort] at hparse
  cases hparse

end SyslogNg.Time
