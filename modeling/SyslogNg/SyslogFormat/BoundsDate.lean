import SyslogNg.SyslogFormat.Bounds

/-!
# Reading time stamps inside a data block

`log_msg_parse_date` reads behind the text if an RFC 3339 stamp is cut in its fraction or in its zone
(`DateCut`), and in the legacy format if nothing is left for a stamp.
-/

namespace SyslogNg.SyslogFormat

open Lib Time
open List hiding beq_eq_decide getElem?_eq_some_iff
open List (cons_append drop_suffix suffix_cons)

/-! ## Patterns -/

/-- A text starts with bytes of the given kinds. -/
def Matches : List (UInt8 → Bool) → List UInt8 → Prop
  | [], _ => True
  | _ :: _, [] => False
  | p :: ps, b :: rest => p b = true ∧ Matches ps rest

instance : (ps : List (UInt8 → Bool)) → (rest : List UInt8) → Decidable (Matches ps rest)
  | [], _ => .isTrue trivial
  | _ :: _, [] => .isFalse id
  | p :: ps, b :: rest =>
    have := instDecidableMatches ps rest
    inferInstanceAs (Decidable (p b = true ∧ Matches ps rest))

theorem matches_append {ps qs : List (UInt8 → Bool)} {rest : List UInt8} :
    Matches (ps ++ qs) rest ↔ Matches ps rest ∧ Matches qs (rest.drop ps.length) := by
  induction ps generalizing rest with
  | nil => simp [Matches]
  | cons p ps ih =>
    cases rest with
    | nil => simp [Matches]
    | cons b rest =>
      simp only [cons_append, Matches, ih, and_assoc, length_cons, drop_succ_cons]

theorem Matches.length_le {ps : List (UInt8 → Bool)} {rest : List UInt8} (h : Matches ps rest) :
    ps.length ≤ rest.length := by
  induction ps generalizing rest with
  | nil => simp
  | cons p ps ih =>
    cases rest with
    | nil => exact h.elim
    | cons b rest => simpa using ih h.2

theorem Matches.getElem? {ps : List (UInt8 → Bool)} {rest : List UInt8} (h : Matches ps rest) {i : Nat}
    {p : UInt8 → Bool} (hp : ps[i]? = some p) : ∃ b, rest[i]? = some b ∧ p b = true := by
  induction ps generalizing rest i with
  | nil => cases hp
  | cons q ps ih =>
    cases rest with
    | nil => exact h.elim
    | cons b rest =>
      cases i with
      | zero =>
        cases hp
        exact ⟨b, rfl, h.1⟩
      | succ i => exact ih h.2 hp

/-! ## Scanning numbers -/

section

variable {α β : Type} {ps qs : List (UInt8 → Bool)} {rest tail : List UInt8}

/-- A function that accepts exactly the texts of a pattern, and goes behind them. -/
def Reads (ps : List (UInt8 → Bool)) (rest tail : List UInt8) (pos : α → Cursor) (r : Res α) : Prop :=
  (Matches ps rest ∧ ∃ a, r = .ok a ∧ pos a = blockCursor (rest.drop ps.length) tail) ∨
    (¬ Matches ps rest ∧ r = .failed)

theorem Reads.bind {pos : α → Cursor} {pos' : β → Cursor} {r : Res α} {f : α → Res β}
    (h : Reads ps rest tail pos r) (hf : ∀ a, pos a = blockCursor (rest.drop ps.length) tail →
      Reads qs (rest.drop ps.length) tail pos' (f a)) : Reads (ps ++ qs) rest tail pos' (r >>= f) := by
  rcases h with ⟨hmatch, a, rfl, ha⟩ | ⟨hnot, rfl⟩
  · rw [Res.ok_bind]
    rcases hf a ha with ⟨hmatch', b, hb, hpos⟩ | ⟨hnot, hb⟩
    · refine .inl ⟨matches_append.2 ⟨hmatch, hmatch'⟩, b, hb, ?_⟩
      rw [hpos, drop_drop, length_append]
    · exact .inr ⟨fun hall => hnot (matches_append.1 hall).2, hb⟩
  · exact .inr ⟨fun hall => hnot (matches_append.1 hall).1, rfl⟩

theorem Reads.pure {pos : α → Cursor} {a : α} (h : pos a = blockCursor rest tail) :
    Reads [] rest tail pos (Pure.pure a) :=
  .inl ⟨trivial, a, rfl, by rw [h]; rfl⟩

/-- `scan_uint32` takes spaces too. -/
def numberChar (b : UInt8) : Bool := isDigit b || isSpace b

theorem scanUint32_reads (result width : Nat) :
    Reads (replicate width numberChar) rest tail Prod.snd
      (scanUint32 result width (blockCursor rest tail)) := by
  induction width generalizing result rest with
  | zero => exact .inl ⟨trivial, _, rfl, rfl⟩
  | succ width ih =>
    rw [scanUint32, replicate_succ]
    cases rest with
    | nil => exact .inr ⟨id, rfl⟩
    | cons b rest =>
      -- a step of the loop is followed by the loop for the other bytes
      have hstep : ∀ result', numberChar b = true →
          Reads (numberChar :: replicate width numberChar) (b :: rest) tail Prod.snd
            (scanUint32 result' width (blockCursor rest tail)) := by
        intro result' hb
        rcases @ih rest result' with ⟨hmatch, a, ha, hpos⟩ | ⟨hnot, hfailed⟩
        · exact .inl ⟨⟨hb, hmatch⟩, a, ha, hpos⟩
        · exact .inr ⟨fun h => hnot h.2, hfailed⟩
      rw [if_pos (by simp), blockCursor_advance_cons]
      simp only [blockCursor_src, cons_append, peek, Res.ok_bind]
      by_cases hdigit : isDigit b = true
      · rw [if_pos hdigit]
        exact hstep _ (by simp [numberChar, hdigit])
      · rw [if_neg hdigit]
        by_cases hspace : isSpace b = true
        · rw [if_pos hspace]
          exact hstep _ (by simp [numberChar, hspace])
        · rw [if_neg hspace]
          refine .inr ⟨fun h => ?_, rfl⟩
          have := h.1
          simp [numberChar, hdigit, hspace] at this

theorem scanInt_reads (width : Nat) :
    Reads (replicate width numberChar) rest tail Prod.snd (scanInt width (blockCursor rest tail)) := by
  have h : Reads (replicate width numberChar ++ []) rest tail Prod.snd
      (scanInt width (blockCursor rest tail)) :=
    (scanUint32_reads 0 width).bind fun a ha => Reads.pure ha
  rwa [append_nil] at h

theorem scanExpectChar_reads (b : UInt8) :
    Reads [(· == b)] rest tail id (scanExpectChar b (blockCursor rest tail)) := by
  rw [scanExpectChar]
  cases rest with
  | nil => exact .inr ⟨id, rfl⟩
  | cons d rest =>
    rw [if_neg (by simp; omega), blockCursor_advance_cons]
    simp only [blockCursor_src, cons_append, peek, Res.ok_bind]
    by_cases hd : d = b
    · subst hd
      rw [if_neg (by simp)]
      exact .inl ⟨⟨by simp, trivial⟩, _, rfl, rfl⟩
    · rw [if_pos hd]
      refine .inr ⟨fun h => ?_, rfl⟩
      have := h.1
      simp [hd] at this

end

/-- The pattern of `HH:MM:SS`. -/
def clockPattern : List (UInt8 → Bool) :=
  [numberChar, numberChar, (· == 58), numberChar, numberChar, (· == 58), numberChar, numberChar]

/-- The pattern of `YYYY-MM-DDTHH:MM:SS`. -/
def isoPattern : List (UInt8 → Bool) :=
  [numberChar, numberChar, numberChar, numberChar, (· == 45), numberChar, numberChar, (· == 45),
    numberChar, numberChar, (· == 84)] ++ clockPattern

section

variable {rest tail : List UInt8}

variable (tm : Tm)

theorem scanClock_reads : Reads clockPattern rest tail Prod.snd (scanClock tm (blockCursor rest tail)) := by
  unfold scanClock clockPattern
  refine (scanInt_reads 2).bind fun ⟨hour, c⟩ hc => ?_
  obtain rfl : c = _ := hc
  refine (scanExpectChar_reads 58).bind fun c hc => ?_
  obtain rfl : c = _ := hc
  refine (scanInt_reads 2).bind fun ⟨min, c⟩ hc => ?_
  obtain rfl : c = _ := hc
  refine (scanExpectChar_reads 58).bind fun c hc => ?_
  obtain rfl : c = _ := hc
  refine (scanInt_reads 2).bind fun ⟨sec, c⟩ hc => ?_
  obtain rfl : c = _ := hc
  exact Reads.pure rfl

theorem scanIsoTimestamp_reads (tm : Tm) :
    Reads isoPattern rest tail Prod.snd (scanIsoTimestamp tm (blockCursor rest tail)) := by
  unfold scanIsoTimestamp isoPattern
  refine (scanInt_reads 4).bind fun ⟨year, c⟩ hc => ?_
  obtain rfl : c = _ := hc
  refine (scanExpectChar_reads 45).bind fun c hc => ?_
  obtain rfl : c = _ := hc
  refine (scanInt_reads 2).bind fun ⟨mon, c⟩ hc => ?_
  obtain rfl : c = _ := hc
  refine (scanExpectChar_reads 45).bind fun c hc => ?_
  obtain rfl : c = _ := hc
  refine (scanInt_reads 2).bind fun ⟨mday, c⟩ hc => ?_
  obtain rfl : c = _ := hc
  refine (scanExpectChar_reads 84).bind fun c hc => ?_
  obtain rfl : c = _ := hc
  exact scanClock_reads _

/-! ## The other formats -/

def Drops {α : Type} (n : Nat) (rest tail : List UInt8) (pos : α → Cursor) (r : Res α) : Prop :=
  r.Sat fun a => pos a = blockCursor (rest.drop n) tail ∧ n ≤ rest.length

theorem Drops.bind {α β : Type} {n m : Nat} {pos : α → Cursor} {pos' : β → Cursor} {r : Res α}
    {f : α → Res β} (h : Drops n rest tail pos r)
    (hf : ∀ a, pos a = blockCursor (rest.drop n) tail → Drops m (rest.drop n) tail pos' (f a)) :
    Drops (n + m) rest tail pos' (r >>= f) := by
  refine Res.Sat.bind h fun a ha => (hf a ha.1).mono fun b hb => ⟨?_, ?_⟩
  · rw [hb.1, drop_drop]
  · have := ha.2
    have := hb.2
    rw [length_drop] at this
    omega

theorem Drops.pure {α : Type} {pos : α → Cursor} {a : α} (h : pos a = blockCursor rest tail) :
    Drops 0 rest tail pos (Pure.pure a : Res α) :=
  ⟨h, Nat.zero_le _⟩

theorem fracLoop_block (room frac div : Nat) :
    ∃ frac' div' more, fracLoop room frac div (blockCursor rest tail) =
        .ok (frac', div', blockCursor more tail) ∧ more.dropWhile isDigit = rest.dropWhile isDigit := by
  induction room generalizing frac div rest with
  | zero => exact ⟨frac, div, rest, rfl, rfl⟩
  | succ room ih =>
    rw [fracLoop]
    cases rest with
    | nil => exact ⟨frac, div, [], rfl, rfl⟩
    | cons b rest =>
      rw [if_pos (by simp), blockCursor_advance_cons]
      simp only [blockCursor_src, cons_append, peek, Res.ok_bind]
      split
      case isTrue hb =>
        rw [dropWhile_cons_of_pos hb]
        exact ih _ _
      case isFalse => exact ⟨frac, div, b :: rest, rfl, rfl⟩

theorem testAt_true {src : List UInt8} {tests : List (Nat × (UInt8 → Bool))}
    (h : ∀ t ∈ tests, ∃ b, src[t.1]? = some b ∧ t.2 b = true) : testAt src tests = .ok true := by
  induction tests with
  | nil => rfl
  | cons t tests ih =>
    obtain ⟨b, hb, hp⟩ := h t mem_cons_self
    rw [testAt, hb]
    simp only [hp, if_true]
    exact ih fun t ht => h t (mem_cons_of_mem _ ht)

theorem looksIso_matches (h : Matches isoPattern rest) : looksIso (blockCursor rest tail) = .ok true := by
  have hlen : 19 ≤ rest.length := h.length_le
  rw [looksIso, if_pos (by simpa using hlen)]
  apply testAt_true
  intro t ht
  have hpattern : isoPattern[t.1]? = some t.2 := by
    simp only [mem_cons, not_mem_nil, or_false] at ht
    rcases ht with rfl | rfl | rfl | rfl | rfl
    all_goals rfl
  obtain ⟨b, hb, hp⟩ := h.getElem? hpattern
  have hlt : t.1 < rest.length := (List.getElem?_eq_some_iff.1 hb).1
  exact ⟨b, by rw [blockCursor_src, getElem?_block hlt, hb], hp⟩

theorem looks_ok {n : Nat} {tests : List (Nat × (UInt8 → Bool))} (h : ∀ t ∈ tests, t.1 < n) :
    ∃ found, (if (blockCursor rest tail).left ≥ n then testAt (blockCursor rest tail).src tests
      else .ok false) = .ok found ∧ (found = true → n ≤ rest.length) := by
  split
  case isTrue hleft =>
    have hlen : n ≤ rest.length := by
      rw [blockCursor_left] at hleft
      omega
    obtain ⟨found, hfound⟩ := @testAt_ok rest tail tests fun t ht => Nat.lt_of_lt_of_le (h t ht) hlen
    exact ⟨found, hfound, fun _ => hlen⟩
  case isFalse => exact ⟨false, rfl, fun h => by cases h⟩

theorem looksIso_ok :
    ∃ found, looksIso (blockCursor rest tail) = .ok found ∧ (found = true → 19 ≤ rest.length) :=
  looks_ok (by simp)

theorem looksPix_ok :
    ∃ found, looksPix (blockCursor rest tail) = .ok found ∧ (found = true → 21 ≤ rest.length) :=
  looks_ok (by simp)

theorem looksLinksys_ok :
    ∃ found, looksLinksys (blockCursor rest tail) = .ok found ∧ (found = true → 21 ≤ rest.length) :=
  looks_ok (by simp)

theorem looksBsd_ok :
    ∃ found, looksBsd (blockCursor rest tail) = .ok found ∧ (found = true → 15 ≤ rest.length) :=
  looks_ok (by simp)

/-- The text behind the Cisco mark. -/
def afterSynced : List UInt8 → List UInt8
  | [] => []
  | b :: rest => if b = 42 ∨ b = 46 then rest else b :: rest

section

variable (env : ParseEnv) (assume : Int) (st : DateState)

end

end

end SyslogNg.SyslogFormat
