import SyslogNg.BasicFuncs.Numbers

/-!
# `$(substr)` (`modules/basicfuncs/str-funcs.c`)

The length of the first argument is read before the arguments are counted, and the checks negate numbers
whose opposite is not a `long`.
-/

namespace SyslogNg.BasicFuncs

open Option

/-- The end of `tf_substr`, for numbers that are not negative; `none` if it reads behind the string. -/
def substrClip (s : List UInt8) (start len : Int) : Option (List UInt8) :=
  if start ≥ s.length then some []
  else
    let len := if wrap64 (start + len) > s.length then s.length - start else len
    if len = 0 then some []
    else if start + len > s.length then none
    else some ((s.drop start.toNat).take len.toNat)

/-- `tf_substr` with a start and a length. -/
def substrFrom (s : List UInt8) (start len : Int) : Option (List UInt8) :=
  if len < 0 ∧ wrap64 (-len) > s.length then some []
  else
    let len := min len s.length
    if start ≥ s.length then some []
    else if start < 0 ∧ wrap64 (-start) > s.length then some []
    else if len < 0 ∧ (start < 0 ∧ start > len ∨ start ≥ 0 ∧ wrap64 (wrap64 (len + s.length) - start) < 0) then
      some []
    else
      let start := if start < 0 then max 0 (wrap64 (start + s.length)) else start
      if len < 0 then
        let len := wrap64 (wrap64 (s.length - start) + len)
        if len < 0 then some [] else substrClip s start len
      else substrClip s start len

/-- `tf_substr`: what it appends; `none` if it reads a missing argument. -/
def tfSubstr : List (List UInt8) → Option (List UInt8)
  | [] => none
  | s :: args =>
    if (s.length : Int) ≥ 2 ^ 63 - 1 then some []
    else match args with
    | [a] => ((tfParseInt a).map fun start => substrFrom s start s.length).getD (some [])
    | [a, b] => (((tfParseInt a).bind fun start => (tfParseInt b).map fun len =>
        substrFrom s start len)).getD (some [])
    | _ => some []

/-- Where a slice starts, counted from the front. -/
def firstOf (s : List UInt8) (start : Int) : Int := if start < 0 then start + s.length else start

/-- The slice that is asked for; the end of the string cuts it. -/
def slice (s : List UInt8) (start len : Int) : List UInt8 :=
  if firstOf s start < 0 ∨ firstOf s start ≥ s.length then []
  else (s.drop (firstOf s start).toNat).take
    (if len < 0 then s.length + len - firstOf s start else len).toNat

/-- A call with a start and perhaps a length that are numbers. -/
def Asks (argv : List (List UInt8)) (s : List UInt8) (start len : Int) : Prop :=
  (∃ a, argv = [s, a] ∧ tfParseInt a = some start ∧ len = s.length) ∨
    ∃ a b, argv = [s, a, b] ∧ tfParseInt a = some start ∧ tfParseInt b = some len

/-- The call stays inside its arguments and appends the slice. -/
def Extracts (argv : List (List UInt8)) : Prop :=
  tfSubstr argv ≠ none ∧ ∀ s start len, Asks argv s start len → tfSubstr argv = some (slice s start len)

/-- The start and the length together are no `long`. -/
def Overflows (s : List UInt8) (start len : Int) : Prop :=
  start < s.length ∧ 2 ^ 63 ≤ firstOf s start + min len s.length

instance (s : List UInt8) (start len : Int) : Decidable (Overflows s start len) :=
  inferInstanceAs (Decidable (_ ∧ _))

/-- What the numbers must be like for the string. -/
def Sliceable (s : List UInt8) (start len : Int) : Prop :=
  if (s.length : Int) ≥ 2 ^ 63 - 1 then slice s start len = []
  else if start = -2 ^ 63 then slice s 0 len = []
  else ¬Overflows s start len

section

variable {s : List UInt8} {start len : Int}

theorem take_drop_eq {a b c : Nat} (h : min b (s.length - a) = min c (s.length - a)) :
    (s.drop a).take b = (s.drop a).take c := by
  rwa [List.take_eq_take_iff, List.length_drop]

theorem substrClip_eq (hs : (s.length : Int) < 2 ^ 63 - 1) (hstart : 0 ≤ start)
    (hlen : 0 ≤ len ∧ len ≤ s.length) (hin : start < s.length) :
    substrClip s start len =
      if 2 ^ 63 ≤ start + len then none else some ((s.drop start.toNat).take len.toNat) := by
  unfold substrClip wrap64
  rw [if_neg (by omega)]
  extract_lets len'
  by_cases hsum : 2 ^ 63 ≤ start + len
  · have hlen' : len' = len := if_neg (by omega)
    rw [if_neg (by omega), if_pos (by omega), if_pos hsum]
  · rw [if_neg hsum]
    have hlen' : len' = if start + len > s.length then s.length - start else len := by
      simp only [len']
      congr 2
      omega
    split
    case isTrue h0 => rw [take_drop_eq (by omega : min _ _ = min 0 _), List.take_zero]
    case isFalse h0 =>
      rw [if_neg (by omega)]
      exact congrArg some (take_drop_eq (by omega))

theorem slice_eq_nil (h : firstOf s start < 0 ∨ firstOf s start ≥ s.length ∨
    len < 0 ∧ s.length + len ≤ firstOf s start) : slice s start len = [] := by
  unfold slice
  split
  case isTrue => rfl
  case isFalse hin =>
    have hlen : len < 0 ∧ s.length + len ≤ firstOf s start := by omega
    rw [if_pos hlen.1, Int.toNat_of_nonpos (by omega), List.take_zero]

/-- The least `long` is taken for 0: its opposite is the same number, and no check refuses it. -/
def startTaken (start : Int) : Int := if start = -2 ^ 63 then 0 else start

/-- The slice, if nothing overflows. -/
def appended (s : List UInt8) (start len : Int) : Option (List UInt8) :=
  if Overflows s start len then none else some (slice s start len)

theorem appended_nil (hs : (s.length : Int) < 2 ^ 63 - 1) (h : firstOf s start < 0 ∨ start ≥ s.length ∨
    len < 0 ∧ s.length + len ≤ firstOf s start) : some [] = appended s start len := by
  have hfirst : firstOf s start = if start < 0 then start + s.length else start := rfl
  rw [appended, if_neg (by unfold Overflows; omega), slice_eq_nil (by omega)]

theorem appended_clip (hs : (s.length : Int) < 2 ^ 63 - 1) (h0 : 0 ≤ firstOf s start)
    (hin : firstOf s start < s.length) {count : Int} (hcount : 0 ≤ count)
    (hlen : count = if len < 0 then s.length + len - firstOf s start else min len s.length) :
    substrClip s (firstOf s start) count = appended s start len := by
  have hfirst : firstOf s start = if start < 0 then start + s.length else start := rfl
  rw [substrClip_eq hs h0 (by omega) hin, appended]
  by_cases hover : 2 ^ 63 ≤ firstOf s start + count
  · rw [if_pos hover, if_pos (by unfold Overflows; omega)]
  · rw [if_neg hover, if_neg (by unfold Overflows; omega), slice, if_neg (by omega)]
    exact congrArg some (take_drop_eq (by omega))

theorem substrFrom_eq (hs : (s.length : Int) < 2 ^ 63 - 1) (hstart : Long start) (hlen : Long len) :
    substrFrom s start len = appended s (startTaken start) len := by
  unfold Long at hstart hlen
  have htaken : startTaken start = if start = -2 ^ 63 then 0 else start := rfl
  have hfirst : firstOf s (startTaken start) =
      if startTaken start < 0 then startTaken start + s.length else startTaken start := rfl
  unfold substrFrom wrap64
  by_cases h1 : len < 0 ∧ (-len + 2 ^ 63) % 2 ^ 64 - 2 ^ 63 > s.length
  · rw [if_pos h1]
    exact appended_nil hs (by omega)
  rw [if_neg h1]
  extract_lets len' start' len''
  have hlen' : len' = min len s.length := rfl
  by_cases h2 : start ≥ s.length
  · rw [if_pos h2]
    exact appended_nil hs (by omega)
  rw [if_neg h2]
  by_cases h3 : start < 0 ∧ (-start + 2 ^ 63) % 2 ^ 64 - 2 ^ 63 > s.length
  · rw [if_pos h3]
    exact appended_nil hs (by omega)
  rw [if_neg h3]
  split
  case isTrue h4 => exact appended_nil hs (by omega)
  case isFalse h4 =>
    have htail : start' = firstOf s (startTaken start) := by omega
    by_cases hempty : start' ≥ s.length
    · have hclip : ∀ count, substrClip s start' count = some [] := fun count => if_pos hempty
      rw [hclip, hclip, ite_self, ite_self]
      exact appended_nil hs (by omega)
    rw [htail]
    split
    case isTrue hneg =>
      have hcount : len'' = s.length - start' + len' := by omega
      split
      case isTrue h5 => exact appended_nil hs (by omega)
      case isFalse h5 =>
        exact appended_clip hs (by omega) (by omega) (by omega) (by rw [if_pos (by omega)]; omega)
    case isFalse hneg =>
      exact appended_clip hs (by omega) (by omega) (by omega) (by rw [if_neg (by omega)])

variable {argv : List (List UInt8)}

theorem Asks.long (h : Asks argv s start len) (hs : (s.length : Int) < 2 ^ 63) :
    Long start ∧ Long len := by
  rcases h with ⟨a, -, ha, rfl⟩ | ⟨a, b, -, ha, hb⟩
  · exact ⟨long_of_parse ha, by unfold Long; omega⟩
  · exact ⟨long_of_parse ha, long_of_parse hb⟩

theorem tfSubstr_asks (h : Asks argv s start len) :
    tfSubstr argv = if (s.length : Int) ≥ 2 ^ 63 - 1 then some [] else appended s (startTaken start) len := by
  split
  case isTrue hs =>
    rcases h with ⟨a, rfl, -⟩ | ⟨a, b, rfl, -⟩
    · exact if_pos hs
    · exact if_pos hs
  case isFalse hs =>
    obtain ⟨hstart, hlen⟩ := h.long (by omega)
    rw [← substrFrom_eq (by omega) hstart hlen]
    rcases h with ⟨a, rfl, ha, rfl⟩ | ⟨a, b, rfl, ha, hb⟩
    · simp only [tfSubstr, if_neg hs, ha, map_some, getD_some]
    · simp only [tfSubstr, if_neg hs, ha, hb, bind_some, map_some, getD_some]

theorem tfSubstr_other (hargv : argv ≠ [])
    (h : ∀ s start len, ¬Asks argv s start len) : tfSubstr argv = some [] := by
  unfold tfSubstr
  split
  case h_1 => exact absurd rfl hargv
  case h_2 s args =>
    split
    case isTrue => rfl
    case isFalse =>
      split
      case h_1 a =>
        cases ha : tfParseInt a with
        | none => rfl
        | some start => exact absurd (.inl ⟨a, rfl, ha, rfl⟩) (h s start s.length)
      case h_2 a b =>
        cases ha : tfParseInt a with
        | none => rfl
        | some start =>
          cases hb : tfParseInt b with
          | none => rfl
          | some len => exact absurd (.inr ⟨a, b, rfl, ha, hb⟩) (h s start len)
      case h_3 => rfl

theorem sliceable_iff (h : Asks argv s start len) :
    tfSubstr argv = some (slice s start len) ↔ Sliceable s start len := by
  rw [tfSubstr_asks h]
  unfold Sliceable
  split
  · rw [some_inj, eq_comm]
  · rw [appended]
    by_cases hmin : start = -2 ^ 63
    · have hnil : slice s start len = [] := slice_eq_nil (.inl (by simp only [firstOf]; omega))
      have hover : ¬Overflows s 0 len := by
        unfold Overflows firstOf
        omega
      rw [startTaken, if_pos hmin, if_pos hmin, if_neg hover, some_inj, hnil]
    · rw [startTaken, if_neg hmin, if_neg hmin]
      split
      case isTrue hover => exact ⟨nofun, fun hno => absurd hover hno⟩
      case isFalse hover => exact ⟨fun _ => hover, fun _ => rfl⟩

/-- The function extracts the slice if and only if it has an argument and the numbers are as they must be
for the string. -/
theorem substr_extracts_iff (argv : List (List UInt8)) :
    Extracts argv ↔ argv ≠ [] ∧ ∀ s start len, Asks argv s start len → Sliceable s start len := by
  constructor
  · rintro ⟨hread, hall⟩
    exact ⟨fun hnil => hread (hnil ▸ rfl), fun s start len h => (sliceable_iff h).1 (hall s start len h)⟩
  · rintro ⟨hargv, hall⟩
    refine ⟨?_, fun s start len h => (sliceable_iff h).2 (hall s start len h)⟩
    by_cases hasks : ∀ s start len, ¬Asks argv s start len
    · rw [tfSubstr_other hargv hasks]
      nofun
    · push Not at hasks
      obtain ⟨s, start, len, h⟩ := hasks
      rw [(sliceable_iff h).2 (hall s start len h)]
      nofun

/-- `$(substr)` without an argument reads one. -/
theorem substr_unasked : ¬Extracts [] := fun h => h.1 rfl

end

end SyslogNg.BasicFuncs
