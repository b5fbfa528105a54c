import SyslogNg.SyslogFormat.BoundsDate
import Mathlib.Data.List.TakeWhile

/-!
# The texts of time stamps

What the scanners of `lib/str-format.c` should take: fields of a fixed width, one behind the other. They
take more. Any three bytes stand for a month if the first one is the first letter of a month, since
`scan_month_abbrev` leaves an unknown name to its caller as -1, and none of the callers looks. And a
blank is skipped wherever it is in a number.
-/

namespace SyslogNg.SyslogFormat

open Lib Time List Option
open List (cons_append nil_append)

/-! ## Layouts -/

inductive Field where
  | year
  | mday
  | hour
  | min
  | sec
  deriving DecidableEq

def Field.width : Field → Nat
  | .year => 4
  | _ => 2

/-- The number goes to its member of `struct tm`. -/
def Field.set (tm : Tm) (n : Int) : Field → Tm
  | .year => { tm with year := n - 1900 }
  | .mday => { tm with mday := n }
  | .hour => { tm with hour := n }
  | .min => { tm with min := n }
  | .sec => { tm with sec := n }

inductive Piece where
  | month
  | monthNumber
  | number (field : Field)
  | sep (b : UInt8)
  deriving DecidableEq

/-- `HH:MM:SS`. -/
def clockLayout : List Piece := [.number .hour, .sep 58, .number .min, .sep 58, .number .sec]

/-- `YYYY-MM-DDTHH:MM:SS`. -/
def isoLayout : List Piece :=
  [.number .year, .sep 45, .monthNumber, .sep 45, .number .mday, .sep 84] ++ clockLayout

/-- `MMM DD YYYY HH:MM:SS`. -/
def pixLayout : List Piece :=
  [.month, .sep 32, .number .mday, .sep 32, .number .year, .sep 32] ++ clockLayout

/-- `MMM DD HH:MM:SS YYYY`. -/
def linksysLayout : List Piece :=
  [.month, .sep 32, .number .mday, .sep 32] ++ clockLayout ++ [.sep 32, .number .year]

/-- `MMM DD HH:MM:SS`. -/
def bsdLayout : List Piece := [.month, .sep 32, .number .mday, .sep 32] ++ clockLayout

/-! ## Reading a layout -/

def monthNames : List (List UInt8) :=
  ["Jan", "Feb", "Mar", "Apr", "May", "Jun", "Jul", "Aug", "Sep", "Oct", "Nov", "Dec"].map
    fun name => name.toUTF8.toList

/-- A number: blanks, and then digits. -/
def IsNumber (t : List UInt8) : Prop :=
  t.dropWhile isSpace ≠ [] ∧ ∀ b ∈ t.dropWhile isSpace, isDigit b = true

def numberOf (t : List UInt8) : Nat := readDecimal 0 (t.dropWhile isSpace)

namespace Piece

def width : Piece → Nat
  | month => 3
  | monthNumber => 2
  | number field => field.width
  | sep _ => 1

/-- What stands for a piece. -/
def Text : Piece → List UInt8 → Prop
  | month, t => t ∈ monthNames
  | monthNumber, t => IsNumber t ∧ 1 ≤ numberOf t ∧ numberOf t ≤ 12
  | number _, t => IsNumber t
  | sep b, t => t = [b]

def value (tm : Tm) (t : List UInt8) : Piece → Tm
  | month => { tm with mon := monthNames.idxOf t }
  | monthNumber => { tm with mon := numberOf t - 1 }
  | number field => field.set tm (numberOf t)
  | sep _ => tm

end Piece

def layoutWidth (ps : List Piece) : Nat := (ps.map Piece.width).sum

def StartsWith : List Piece → List UInt8 → Prop
  | [], _ => True
  | p :: ps, rest => p.width ≤ rest.length ∧ p.Text (rest.take p.width) ∧
      StartsWith ps (rest.drop p.width)

def readLayout : List Piece → Tm → List UInt8 → Tm
  | [], tm, _ => tm
  | p :: ps, tm, rest => readLayout ps (p.value tm (rest.take p.width)) (rest.drop p.width)

/-- A scanner takes the texts of its layout, no others, and gives the time that they say. -/
def ScansExactly (scan : Tm → Cursor → Res (Tm × Cursor)) (ps : List Piece) (tm : Tm)
    (rest tail : List UInt8) : Prop :=
  ∀ tm' c, scan tm (blockCursor rest tail) = .ok (tm', c) ↔
    StartsWith ps rest ∧ tm' = readLayout ps tm rest ∧
      c = blockCursor (rest.drop (layoutWidth ps)) tail

/-! ## What the scanners take -/

namespace Piece

def monthInitial (b : UInt8) : Bool := (monthsOf b).isSome

/-- The bytes that a scanner lets pass. -/
def pattern : Piece → List (UInt8 → Bool)
  | month => [monthInitial, fun _ => true, fun _ => true]
  | monthNumber => replicate 2 numberChar
  | number field => replicate field.width numberChar
  | sep b => [(· == b)]

theorem pattern_length (p : Piece) : p.pattern.length = p.width := by
  cases p with
  | month => rfl
  | monthNumber => rfl
  | number field => exact length_replicate
  | sep b => rfl

def scan (tm : Tm) (c : Cursor) : Piece → Res (Tm × Cursor)
  | month => do
    let (mon, c) ← scanMonthAbbrev c
    return ({ tm with mon }, c)
  | monthNumber => do
    let (mon, c) ← scanInt 2 c
    return ({ tm with mon := mon - 1 }, c)
  | number field => do
    let (n, c) ← scanInt field.width c
    return (field.set tm n, c)
  | sep b => do
    let c ← scanExpectChar b c
    return (tm, c)

end Piece

def scanPieces : List Piece → Tm → Cursor → Res (Tm × Cursor)
  | [], tm, c => .ok (tm, c)
  | p :: ps, tm, c => do
    let (tm, c) ← p.scan tm c
    scanPieces ps tm c

theorem scanIsoTimestamp_pieces (tm : Tm) (c : Cursor) :
    scanIsoTimestamp tm c = scanPieces isoLayout tm c := by
  simp only [scanIsoTimestamp, scanClock, isoLayout, clockLayout, cons_append, nil_append,
    scanPieces, Piece.scan, Field.set, Field.width, Res.bind_assoc, Res.pure_eq, Res.ok_bind]

theorem scanPixTimestamp_pieces (tm : Tm) (c : Cursor) :
    scanPixTimestamp tm c = scanPieces pixLayout tm c := by
  simp only [scanPixTimestamp, scanClock, pixLayout, clockLayout, cons_append, nil_append,
    scanPieces, Piece.scan, Field.set, Field.width, Res.bind_assoc, Res.pure_eq, Res.ok_bind]

theorem scanLinksysTimestamp_pieces (tm : Tm) (c : Cursor) :
    scanLinksysTimestamp tm c = scanPieces linksysLayout tm c := by
  simp only [scanLinksysTimestamp, scanClock, linksysLayout, clockLayout, cons_append, nil_append,
    scanPieces, Piece.scan, Field.set, Field.width, Res.bind_assoc, Res.pure_eq, Res.ok_bind]

theorem scanBsdTimestamp_pieces (tm : Tm) (c : Cursor) :
    scanBsdTimestamp tm c = scanPieces bsdLayout tm c := by
  simp only [scanBsdTimestamp, scanClock, bsdLayout, clockLayout, cons_append, nil_append,
    scanPieces, Piece.scan, Field.set, Field.width, Res.bind_assoc, Res.pure_eq, Res.ok_bind]

/-! ## Numbers -/

section

variable {rest tail t : List UInt8}

theorem matches_replicate {p : UInt8 → Bool} {n : Nat} :
    Matches (replicate n p) rest ↔ n ≤ rest.length ∧ ∀ b ∈ rest.take n, p b = true := by
  induction n generalizing rest with
  | zero => simp [Matches]
  | succ n ih =>
    cases rest with
    | nil => simp [replicate_succ, Matches]
    | cons b rest =>
      rw [replicate_succ, Matches, ih, take_succ_cons, forall_mem_cons,
        length_cons, Nat.add_le_add_iff_right]
      exact and_left_comm

theorem not_isDigit_of_isSpace {b : UInt8} (h : isSpace b = true) : isDigit b = false := by
  have hall : ∀ n : Fin 256, isSpace (UInt8.ofFin n) = true → isDigit (UInt8.ofFin n) = false := by
    decide +kernel
  exact hall b.toFin h

/-- What `scan_uint32` makes of a text: blanks are passed over. -/
def scannedValue (result : Nat) (t : List UInt8) : Nat :=
  t.foldl (fun r b => if isDigit b then (r * 10 + (b.toNat - 48)) % 2 ^ 32 else r) result

theorem scanUint32_value {width : Nat} (result : Nat) (h : Matches (replicate width numberChar) rest) :
    scanUint32 result width (blockCursor rest tail) =
      .ok (scannedValue result (rest.take width), blockCursor (rest.drop width) tail) := by
  induction width generalizing result rest with
  | zero => rfl
  | succ width ih =>
    cases rest with
    | nil => exact h.elim
    | cons b rest =>
      rw [scanUint32, if_pos (by simp), blockCursor_advance_cons, take_succ_cons,
        drop_succ_cons, scannedValue, foldl_cons]
      simp only [blockCursor_src, cons_append, peek, Res.ok_bind]
      by_cases hdigit : isDigit b = true
      · rw [if_pos hdigit, if_pos hdigit, ih _ h.2, scannedValue]
      · have hspace : isSpace b = true := by
          have hb : numberChar b = true := h.1
          simpa [numberChar, hdigit] using hb
        rw [if_neg hdigit, if_pos hspace, if_neg hdigit, ih _ h.2, scannedValue]

theorem digit_sub_lt {b : UInt8} (h : isDigit b = true) : b.toNat - 48 < 10 := by
  have hall : ∀ n : Fin 256, isDigit (UInt8.ofFin n) = true → (UInt8.ofFin n).toNat - 48 < 10 := by
    decide +kernel
  exact hall b.toFin h

theorem scannedValue_digits {ds : List UInt8} {result : Nat} (hds : ∀ b ∈ ds, isDigit b = true)
    (hfit : (result + 1) * 10 ^ ds.length ≤ 2 ^ 32) : scannedValue result ds = readDecimal result ds := by
  induction ds generalizing result with
  | nil => rfl
  | cons b ds ih =>
    have hb := hds b mem_cons_self
    have hlt := digit_sub_lt hb
    have hstep : (result * 10 + (b.toNat - 48) + 1) * 10 ^ ds.length ≤ 2 ^ 32 := by
      refine le_trans ?_ hfit
      rw [length_cons, pow_succ', ← mul_assoc]
      exact Nat.mul_le_mul_right _ (by omega)
    have hsmall : result * 10 + (b.toNat - 48) < 2 ^ 32 := by
      have hpos : 1 ≤ 10 ^ ds.length := Nat.one_le_pow _ _ (by decide)
      calc result * 10 + (b.toNat - 48) < (result * 10 + (b.toNat - 48) + 1) * 1 := by omega
        _ ≤ (result * 10 + (b.toNat - 48) + 1) * 10 ^ ds.length := Nat.mul_le_mul_left _ hpos
        _ ≤ 2 ^ 32 := hstep
    rw [scannedValue, foldl_cons, if_pos hb, Nat.mod_eq_of_lt hsmall, readDecimal_cons]
    exact ih (fun d hd => hds d (mem_cons_of_mem _ hd)) hstep

theorem scannedValue_blanks (result : Nat) :
    scannedValue result t = scannedValue result (t.dropWhile isSpace) := by
  induction t with
  | nil => rfl
  | cons b t ih =>
    by_cases hb : isSpace b = true
    · rw [dropWhile_cons_of_pos hb, ← ih, scannedValue, foldl_cons,
        not_isDigit_of_isSpace hb, if_neg (by decide), scannedValue]
    · rw [dropWhile_cons_of_neg hb]

theorem scannedValue_number (h : IsNumber t) (hlen : t.length ≤ 4) : scannedValue 0 t = numberOf t := by
  have hle : (t.dropWhile isSpace).length ≤ 4 := (dropWhile_suffix isSpace).length_le.trans hlen
  rw [scannedValue_blanks, scannedValue_digits h.2]
  · rfl
  · calc (0 + 1) * 10 ^ (t.dropWhile isSpace).length ≤ (0 + 1) * 10 ^ 4 :=
        Nat.mul_le_mul_left _ (Nat.pow_le_pow_right (by decide) hle)
      _ ≤ 2 ^ 32 := by decide

theorem readDecimal_lt {ds : List UInt8} {acc : Nat} (hds : ∀ b ∈ ds, isDigit b = true) :
    readDecimal acc ds < (acc + 1) * 10 ^ ds.length := by
  induction ds generalizing acc with
  | nil => simp [readDecimal]
  | cons b ds ih =>
    have hlt := digit_sub_lt (hds b mem_cons_self)
    rw [readDecimal_cons, length_cons, pow_succ', ← mul_assoc]
    refine lt_of_lt_of_le (ih fun d hd => hds d (mem_cons_of_mem _ hd)) ?_
    exact Nat.mul_le_mul_right _ (by omega)

theorem numberOf_lt (h : IsNumber t) (hlen : t.length ≤ 4) : numberOf t < 10 ^ 4 := by
  have hle : (t.dropWhile isSpace).length ≤ 4 := (dropWhile_suffix isSpace).length_le.trans hlen
  calc numberOf t < (0 + 1) * 10 ^ (t.dropWhile isSpace).length := readDecimal_lt h.2
    _ ≤ (0 + 1) * 10 ^ 4 := Nat.mul_le_mul_left _ (Nat.pow_le_pow_right (by decide) hle)
    _ = 10 ^ 4 := by decide

theorem scanInt_block (width : Nat) :
    (Matches (replicate width numberChar) rest ∧ ∃ n : Int,
      scanInt width (blockCursor rest tail) = .ok (n, blockCursor (rest.drop width) tail) ∧
        (width ≤ 4 → IsNumber (rest.take width) → n = numberOf (rest.take width))) ∨
      (¬Matches (replicate width numberChar) rest ∧ scanInt width (blockCursor rest tail) = .failed) := by
  rcases @scanInt_reads rest tail width with ⟨hmatch, -⟩ | hfailed
  · refine .inl ⟨hmatch, wrap32 (scannedValue 0 (rest.take width)), ?_, fun hwidth hnumber => ?_⟩
    · rw [scanInt, scanUint32_value 0 hmatch]
      rfl
    · have hlen : (rest.take width).length ≤ 4 := (length_take_le _ _).trans hwidth
      have hlt := numberOf_lt hnumber hlen
      rw [scannedValue_number hnumber hlen]
      exact wrap32_eq_self ⟨by omega, by omega⟩
  · exact .inr hfailed

def TightNumber (t : List UInt8) : Prop :=
  (∀ b ∈ t.dropWhile isSpace, isSpace b = false) ∧ ∃ b ∈ t, isDigit b = true

theorem tightNumber_iff (h : ∀ b ∈ t, numberChar b = true) : TightNumber t ↔ IsNumber t := by
  have hsub : ∀ b ∈ t.dropWhile isSpace, b ∈ t := fun b hb =>
    (dropWhile_suffix isSpace).subset hb
  constructor
  · rintro ⟨hspaces, b, hb, hdigit⟩
    refine ⟨fun hnil => ?_, fun d hd => ?_⟩
    · have hspace := dropWhile_eq_nil_iff.mp hnil b hb
      rw [not_isDigit_of_isSpace hspace] at hdigit
      cases hdigit
    · have hd' := h d (hsub d hd)
      rw [numberChar, hspaces d hd, Bool.or_false] at hd'
      exact hd'
  · rintro ⟨hne, hdigits⟩
    obtain ⟨b, more, hmore⟩ := exists_cons_of_ne_nil hne
    have hb : b ∈ t.dropWhile isSpace := hmore ▸ mem_cons_self
    refine ⟨fun d hd => ?_, b, hsub b hb, hdigits b hb⟩
    by_contra hspace
    have := not_isDigit_of_isSpace (Bool.not_eq_false _ ▸ hspace)
    rw [hdigits d hd] at this
    cases this

theorem IsNumber.chars (h : IsNumber t) : ∀ b ∈ t, numberChar b = true := by
  intro b hb
  rw [← takeWhile_append_dropWhile (p := isSpace) (l := t), mem_append] at hb
  rcases hb with hb | hb
  · simp [numberChar, mem_takeWhile_imp hb]
  · simp [numberChar, h.2 b hb]

/-! ## Pieces -/

theorem memEq_append {a b : List UInt8} (h : a.length = b.length) (more : List UInt8) :
    memEq a (b ++ more) = .ok (a == b) := by
  induction a generalizing b with
  | nil =>
    obtain rfl := length_eq_zero_iff.mp h.symm
    rfl
  | cons x a ih =>
    cases b with
    | nil => cases h
    | cons y b =>
      rw [cons_append, memEq, ih (Nat.succ.inj h)]
      by_cases hxy : x = y
      · simp [hxy]
      · simp [hxy]

def monthAmong (months : List (String × Int)) (t : List UInt8) : Int :=
  (months.find? fun month => month.1.toUTF8.toList == t).elim (-1) Prod.snd

theorem findMonth_append {months : List (String × Int)}
    (h : ∀ month ∈ months, month.1.toUTF8.toList.length = t.length) (more : List UInt8) :
    findMonth (t ++ more) months = .ok (monthAmong months t) := by
  induction months with
  | nil => rfl
  | cons month months ih =>
    obtain ⟨name, mon⟩ := month
    rw [findMonth, memEq_append (h _ mem_cons_self), Res.ok_bind, monthAmong]
    by_cases hname : (name.toUTF8.toList == t) = true
    · rw [if_pos hname, find?_cons_of_pos (by exact hname)]
      rfl
    · rw [if_neg hname, find?_cons_of_neg (by exact hname),
        ih fun month hmonth => h month (mem_cons_of_mem _ hmonth), monthAmong]

theorem monthsOf_names {b : UInt8} {months : List (String × Int)} (h : monthsOf b = some months) :
    ∀ month ∈ months, month.1.toUTF8.toList.length = 3 := by
  unfold monthsOf at h
  repeat' split at h
  all_goals first | (cases h; decide +kernel) | cases h

theorem monthAmong_name (h : t ∈ monthNames) :
    (t.head?.bind monthsOf).map (monthAmong · t) = some (monthNames.idxOf t : Int) ∧ t.length = 3 := by
  have hall : ∀ t ∈ monthNames,
      (t.head?.bind monthsOf).map (monthAmong · t) = some (monthNames.idxOf t : Int) ∧
        t.length = 3 := by
    decide +kernel
  exact hall t h

namespace Piece

def Tight : Piece → List UInt8 → Prop
  | month, t => t ∈ monthNames
  | monthNumber, t => TightNumber t ∧ 1 ≤ numberOf t ∧ numberOf t ≤ 12
  | number _, t => TightNumber t
  | sep _, _ => True

theorem width_le (field : Field) : field.width ≤ 4 := by
  cases field <;> decide

theorem text_iff (p : Piece) :
    p.width ≤ rest.length ∧ p.Text (rest.take p.width) ↔
      Matches p.pattern rest ∧ p.Tight (rest.take p.width) := by
  cases p with
  | month =>
    constructor
    · rintro ⟨hlen, hname⟩
      refine ⟨?_, hname⟩
      obtain ⟨b, c, d, more, rfl⟩ : ∃ b c d more, rest = b :: c :: d :: more := by
        match rest, hlen with
        | b :: c :: d :: more, _ => exact ⟨b, c, d, more, rfl⟩
      have hfound := (monthAmong_name hname).1
      refine ⟨?_, rfl, rfl, trivial⟩
      show (monthsOf b).isSome = true
      change ((some b).bind monthsOf).map _ = _ at hfound
      rw [bind_some] at hfound
      obtain ⟨months, hmonths, -⟩ := map_eq_some_iff.mp hfound
      rw [hmonths]
      rfl
    · rintro ⟨hmatch, hname⟩
      exact ⟨hmatch.length_le, hname⟩
  | monthNumber =>
    show 2 ≤ rest.length ∧ (_ ∧ _) ↔ Matches (replicate 2 numberChar) rest ∧ (_ ∧ _)
    rw [matches_replicate]
    constructor
    · rintro ⟨hlen, hnumber, hrange⟩
      exact ⟨⟨hlen, hnumber.chars⟩, (tightNumber_iff hnumber.chars).mpr hnumber, hrange⟩
    · rintro ⟨⟨hlen, hchars⟩, htight, hrange⟩
      exact ⟨hlen, (tightNumber_iff hchars).mp htight, hrange⟩
  | number field =>
    show field.width ≤ rest.length ∧ _ ↔ Matches (replicate field.width numberChar) rest ∧ _
    rw [matches_replicate]
    constructor
    · rintro ⟨hlen, hnumber⟩
      exact ⟨⟨hlen, IsNumber.chars hnumber⟩, (tightNumber_iff (IsNumber.chars hnumber)).mpr hnumber⟩
    · rintro ⟨⟨hlen, hchars⟩, htight⟩
      exact ⟨hlen, (tightNumber_iff hchars).mp htight⟩
  | sep b =>
    cases rest with
    | nil => exact iff_of_false (fun h => absurd h.1 (Nat.not_succ_le_zero 0)) (fun h => h.1)
    | cons d rest =>
      show 1 ≤ (d :: rest).length ∧ [d] = [b] ↔ ((d == b) = true ∧ True) ∧ True
      simp

theorem scan_block (p : Piece) (tm : Tm) :
    (Matches p.pattern rest ∧ ∃ tm',
      p.scan tm (blockCursor rest tail) = .ok (tm', blockCursor (rest.drop p.width) tail) ∧
        (p.Text (rest.take p.width) → tm' = p.value tm (rest.take p.width))) ∨
      (¬Matches p.pattern rest ∧ p.scan tm (blockCursor rest tail) = .failed) := by
  cases p with
  | month =>
    rw [scan, scanMonthAbbrev]
    by_cases hlen : 3 ≤ rest.length
    · obtain ⟨b, c, d, more, rfl⟩ : ∃ b c d more, rest = b :: c :: d :: more := by
        match rest, hlen with
        | b :: c :: d :: more, _ => exact ⟨b, c, d, more, rfl⟩
      rw [if_neg (by rw [blockCursor_left]; omega), blockCursor_advance hlen]
      simp only [blockCursor_src, cons_append, peek, Res.ok_bind]
      cases hmonths : monthsOf b with
      | none =>
        refine .inr ⟨fun hmatch => ?_, rfl⟩
        have hb : (monthsOf b).isSome = true := hmatch.1
        rw [hmonths] at hb
        cases hb
      | some months =>
        have hfind : findMonth (b :: c :: d :: (more ++ tail)) months =
            .ok (monthAmong months [b, c, d]) :=
          @findMonth_append [b, c, d] _ (monthsOf_names hmonths) (more ++ tail)
        simp only [hfind, Res.ok_bind, Res.pure_eq]
        refine .inl ⟨⟨?_, rfl, rfl, trivial⟩, _, rfl, fun hname => ?_⟩
        · show (monthsOf b).isSome = true
          rw [hmonths]
          rfl
        · have hfound := (monthAmong_name hname).1
          change ((some b).bind monthsOf).map _ = _ at hfound
          rw [bind_some, hmonths] at hfound
          rw [show monthAmong months [b, c, d] = _ from some.inj hfound]
          rfl
    · rw [if_pos (by rw [blockCursor_left]; omega)]
      exact .inr ⟨fun hmatch => hlen hmatch.length_le, rfl⟩
  | monthNumber =>
    rcases @scanInt_block rest tail 2 with ⟨hmatch, n, hscan, hn⟩ | ⟨hnot, hscan⟩
    · refine .inl ⟨hmatch, _, by rw [scan, hscan]; rfl, fun htext => ?_⟩
      rw [hn (by decide) htext.1]
      rfl
    · exact .inr ⟨hnot, by rw [scan, hscan]; rfl⟩
  | number field =>
    rcases @scanInt_block rest tail field.width with ⟨hmatch, n, hscan, hn⟩ | ⟨hnot, hscan⟩
    · refine .inl ⟨hmatch, _, by rw [scan, hscan]; rfl, fun htext => ?_⟩
      rw [hn (width_le field) htext]
      rfl
    · exact .inr ⟨hnot, by rw [scan, hscan]; rfl⟩
  | sep b =>
    rcases @scanExpectChar_reads rest tail b with ⟨hmatch, c, hscan, hc⟩ | ⟨hnot, hscan⟩
    · obtain rfl : c = _ := hc
      exact .inl ⟨hmatch, tm, by rw [scan, hscan]; rfl, fun _ => rfl⟩
    · exact .inr ⟨hnot, by rw [scan, hscan]; rfl⟩

end Piece

/-! ## Stamps -/

/-- The bytes that the scanners of a layout let pass. -/
def layoutPattern (ps : List Piece) : List (UInt8 → Bool) := ps.flatMap Piece.pattern

/-- The months of a text are known, and blanks only stand before the digits of its numbers. -/
def TightText : List Piece → List UInt8 → Prop
  | [], _ => True
  | p :: ps, rest => p.Tight (rest.take p.width) ∧ TightText ps (rest.drop p.width)

theorem startsWith_iff (ps : List Piece) :
    StartsWith ps rest ↔ Matches (layoutPattern ps) rest ∧ TightText ps rest := by
  induction ps generalizing rest with
  | nil => exact iff_of_true trivial ⟨trivial, trivial⟩
  | cons p ps ih =>
    have happend : layoutPattern (p :: ps) = p.pattern ++ layoutPattern ps := flatMap_cons
    rw [happend, matches_append, p.pattern_length, StartsWith, TightText, ih, ← and_assoc, p.text_iff]
    exact and_and_and_comm

theorem scanPieces_block (ps : List Piece) (tm : Tm) :
    (Matches (layoutPattern ps) rest ∧ ∃ tm', scanPieces ps tm (blockCursor rest tail) =
        .ok (tm', blockCursor (rest.drop (layoutWidth ps)) tail) ∧
          (StartsWith ps rest → tm' = readLayout ps tm rest)) ∨
      (¬Matches (layoutPattern ps) rest ∧ scanPieces ps tm (blockCursor rest tail) = .failed) := by
  induction ps generalizing tm rest with
  | nil => exact .inl ⟨trivial, tm, rfl, fun _ => rfl⟩
  | cons p ps ih =>
    have happend : layoutPattern (p :: ps) = p.pattern ++ layoutPattern ps := flatMap_cons
    have hwidth : layoutWidth (p :: ps) = p.width + layoutWidth ps := sum_cons
    rw [happend, matches_append, p.pattern_length, hwidth, scanPieces]
    rcases @Piece.scan_block rest tail p tm with ⟨hp, tm₁, hscan, htm₁⟩ | ⟨hp, hscan⟩
    · rw [hscan, Res.ok_bind]
      rcases @ih (rest.drop p.width) tm₁ with ⟨hps, tm₂, hscan₂, htm₂⟩ | ⟨hps, hscan₂⟩
      · refine .inl ⟨⟨hp, hps⟩, tm₂, ?_, fun ⟨_, htext, hmore⟩ => ?_⟩
        · rw [← drop_drop]
          exact hscan₂
        · rw [htm₂ hmore, htm₁ htext]
          rfl
      · exact .inr ⟨fun h => hps h.2, hscan₂⟩
    · rw [hscan]
      exact .inr ⟨fun h => hp h.1, rfl⟩

theorem scansExactly_iff {scan : Tm → Cursor → Res (Tm × Cursor)} {ps : List Piece}
    (hscan : ∀ tm c, scan tm c = scanPieces ps tm c) (tm : Tm) :
    ScansExactly scan ps tm rest tail ↔ (Matches (layoutPattern ps) rest → TightText ps rest) := by
  unfold ScansExactly
  rw [hscan, startsWith_iff]
  rcases @scanPieces_block rest tail ps tm with ⟨hmatch, tm', hok, htm'⟩ | ⟨hnot, hfailed⟩
  · rw [hok]
    constructor
    · intro hexact _
      exact ((hexact tm' _).mp rfl).1.2
    · intro htight tm'' c
      have hvalue := htm' ((startsWith_iff ps).mpr ⟨hmatch, htight hmatch⟩)
      rw [Res.ok.injEq, Prod.mk.injEq, hvalue, eq_comm, @eq_comm _ _ c]
      exact (and_iff_right ⟨hmatch, htight hmatch⟩).symm
  · rw [hfailed]
    refine iff_of_true (fun tm'' c => ?_) (fun hmatch => absurd hmatch hnot)
    exact iff_of_false nofun fun h => hnot h.1.1

/-! ## `log_msg_parse_date` -/

def DateFormat.layout : DateFormat → List Piece
  | .iso => isoLayout
  | .pix => pixLayout
  | .linksys => linksysLayout
  | .bsd => bsdLayout

theorem dateFormat_pix {syslogProtocol : Bool}
    (h : dateFormat syslogProtocol (blockCursor rest tail) = .ok (some .pix)) : 21 ≤ rest.length := by
  obtain ⟨iso, hiso, -⟩ := @looksIso_ok rest tail
  obtain ⟨pix, hpix, hlen⟩ := @looksPix_ok rest tail
  obtain ⟨linksys, hlinksys, -⟩ := @looksLinksys_ok rest tail
  obtain ⟨bsd, hbsd, -⟩ := @looksBsd_ok rest tail
  rw [dateFormat, hiso, hpix, hlinksys, hbsd] at h
  cases iso with
  | true => cases h
  | false =>
    cases syslogProtocol with
    | true => cases h
    | false =>
      cases pix with
      | true => exact hlen rfl
      | false =>
        cases linksys with
        | true => cases h
        | false =>
          cases bsd with
          | true => cases h
          | false => cases h

theorem dateFormat_iso (syslogProtocol : Bool) (h : Matches isoPattern rest) :
    dateFormat syslogProtocol (blockCursor rest tail) = .ok (some .iso) := by
  rw [dateFormat, looksIso_matches h]
  rfl

theorem bsdFrac_block : ∃ usec c, bsdFrac (blockCursor rest tail) = .ok (usec, c) := by
  rw [bsdFrac, nextIs_block, Res.ok_bind]
  split
  case isTrue h =>
    cases rest with
    | nil => cases h
    | cons b rest =>
      obtain ⟨frac, div, more, hloop, -⟩ := @fracLoop_block rest tail 6 0 1
      rw [blockCursor_advance_cons, hloop, Res.ok_bind]
      simp only [skipUntil_block, Res.ok_bind]
      exact ⟨_, _, rfl⟩
  case isFalse => exact ⟨_, _, rfl⟩

theorem scanDate_named {syslogProtocol : Bool} {format : DateFormat} (now : Tm)
    (hformat : dateFormat syslogProtocol (blockCursor rest tail) = .ok (some format))
    (hnamed : format ≠ .iso) :
    (Matches (layoutPattern format.layout) rest ∧
        ∃ scanned, scanDate now (blockCursor rest tail) format = .ok scanned) ∨
      (¬Matches (layoutPattern format.layout) rest ∧
        scanDate now (blockCursor rest tail) format = .failed) := by
  rcases @scanPieces_block rest tail format.layout now with ⟨hmatch, tm, hscan, -⟩ | ⟨hnot, hscan⟩
  · refine .inl ⟨hmatch, ?_⟩
    cases format with
    | iso => exact absurd rfl hnamed
    | pix =>
      have hlen := dateFormat_pix hformat
      obtain ⟨b, more, hmore⟩ : ∃ b more, rest.drop 20 = b :: more := by
        cases hdrop : rest.drop 20 with
        | nil =>
          have := drop_eq_nil_iff.1 hdrop
          omega
        | cons b more => exact ⟨b, more, rfl⟩
      have hwidth : layoutWidth DateFormat.pix.layout = 20 := rfl
      rw [hwidth, hmore] at hscan
      rw [scanDate, scanPix, scanPixTimestamp_pieces, show pixLayout = DateFormat.pix.layout from rfl,
        hscan]
      exact ⟨_, rfl⟩
    | linksys =>
      rw [scanDate, scanLinksys, scanLinksysTimestamp_pieces,
        show linksysLayout = DateFormat.linksys.layout from rfl, hscan]
      exact ⟨_, rfl⟩
    | bsd =>
      obtain ⟨usec, c, hfrac⟩ := @bsdFrac_block (rest.drop (layoutWidth DateFormat.bsd.layout)) tail
      rw [scanDate, scanBsd, scanBsdTimestamp_pieces, show bsdLayout = DateFormat.bsd.layout from rfl,
        hscan, Res.ok_bind]
      simp only [hfrac]
      exact ⟨_, rfl⟩
  · refine .inr ⟨hnot, ?_⟩
    cases format with
    | iso => exact absurd rfl hnamed
    | pix =>
      rw [scanDate, scanPix, scanPixTimestamp_pieces, show pixLayout = DateFormat.pix.layout from rfl,
        hscan]
      rfl
    | linksys =>
      rw [scanDate, scanLinksys, scanLinksysTimestamp_pieces,
        show linksysLayout = DateFormat.linksys.layout from rfl, hscan]
      rfl
    | bsd =>
      rw [scanDate, scanBsd, scanBsdTimestamp_pieces, show bsdLayout = DateFormat.bsd.layout from rfl,
        hscan]
      rfl

/-- The text that is looked at: behind the Cisco mark, which the syslog protocol does not have. -/
def stampText (syslogProtocol : Bool) (rest : List UInt8) : List UInt8 :=
  if syslogProtocol then rest else afterSynced rest

theorem skipSynced_text (syslogProtocol : Bool) (msg : LogMessage) (b : UInt8) (rest : List UInt8) :
    ∃ msg', skipSynced syslogProtocol msg (blockCursor (b :: rest) tail) =
      .ok (msg', blockCursor (stampText syslogProtocol (b :: rest)) tail) := by
  unfold skipSynced stampText
  cases syslogProtocol with
  | true => exact ⟨msg, rfl⟩
  | false =>
    rw [blockCursor_advance_cons]
    simp only [Bool.false_eq_true, if_false, blockCursor_src, cons_append, peek, Res.ok_bind, afterSynced]
    by_cases hstar : b = 42
    · rw [if_pos hstar, if_pos (.inl hstar)]
      exact ⟨_, rfl⟩
    · rw [if_neg hstar]
      by_cases hdot : b = 46
      · rw [if_pos hdot, if_pos (.inr hdot)]
        exact ⟨_, rfl⟩
      · rw [if_neg hdot, if_neg (not_or.2 ⟨hstar, hdot⟩)]
        exact ⟨_, rfl⟩

theorem dateFormat_left {c : Cursor} (syslogProtocol : Bool) (h : c.left ≤ 0) :
    dateFormat syslogProtocol c = .ok none := by
  have hiso : looksIso c = .ok false := if_neg (by omega)
  have hpix : looksPix c = .ok false := if_neg (by omega)
  have hlinksys : looksLinksys c = .ok false := if_neg (by omega)
  have hbsd : looksBsd c = .ok false := if_neg (by omega)
  rw [dateFormat, hiso, hpix, hlinksys, hbsd]
  cases syslogProtocol <;> rfl

section

variable (env : ParseEnv) (syslogProtocol : Bool) (assume : Int) (st : DateState)

/-- A stamp that is accepted has the layout of RFC 3339, or the name of a month. -/
def MonthKnown (rest tail : List UInt8) : Prop :=
  ∀ st' c, logMsgParseDate env syslogProtocol assume st (blockCursor rest tail) = .ok (true, st', c) →
    Matches isoPattern (stampText syslogProtocol rest) ∨
      (stampText syslogProtocol rest).take 3 ∈ monthNames

/-- The stamps of the formats with a name of a month have a known one. -/
def NamedTight (rest tail : List UInt8) : Prop :=
  ∀ format, format ≠ .iso →
    dateFormat syslogProtocol (blockCursor (stampText syslogProtocol rest) tail) = .ok (some format) →
      Matches (layoutPattern format.layout) (stampText syslogProtocol rest) →
        (stampText syslogProtocol rest).take 3 ∈ monthNames

theorem monthKnown_nil : MonthKnown env syslogProtocol assume st [] tail := by
  intro st' c h
  exfalso
  have hreject : ∀ msg : LogMessage, ∀ d : Cursor, d.left ≤ 0 →
      skipSynced syslogProtocol st.msg (blockCursor [] tail) = .ok (msg, d) → False := by
    intro msg d hd hskip
    rw [logMsgParseDate, hskip, Res.ok_bind] at h
    simp only [dateFormat_left syslogProtocol hd, Res.ok_bind] at h
    cases h
  cases hskip : skipSynced syslogProtocol st.msg (blockCursor [] tail) with
  | outside =>
    rw [logMsgParseDate, hskip] at h
    cases h
  | failed =>
    rw [logMsgParseDate, hskip] at h
    cases h
  | ok r =>
    refine hreject r.1 r.2 ?_ hskip
    unfold skipSynced at hskip
    cases syslogProtocol with
    | true =>
      cases hskip
      exact le_refl _
    | false =>
      cases tail with
      | nil => cases hskip
      | cons b tail =>
        simp only [Bool.false_eq_true, if_false, blockCursor_src, nil_append, peek, Res.ok_bind] at hskip
        split at hskip
        · cases hskip
          show ((0 : Nat) : Int) - (1 : Nat) ≤ 0
          decide
        · split at hskip
          · cases hskip
            show ((0 : Nat) : Int) - (1 : Nat) ≤ 0
            decide
          · cases hskip
            exact le_refl _

theorem monthKnown_iff (rest : List UInt8) :
    MonthKnown env syslogProtocol assume st rest tail ↔ NamedTight syslogProtocol rest tail := by
  cases rest with
  | nil =>
    refine iff_of_true (monthKnown_nil env syslogProtocol assume st) ?_
    intro format _ hformat
    have hnil : stampText syslogProtocol [] = [] := by cases syslogProtocol <;> rfl
    rw [hnil, dateFormat_left syslogProtocol (le_refl _)] at hformat
    cases hformat
  | cons b rest =>
    obtain ⟨msg, hskip⟩ := @skipSynced_text tail syslogProtocol st.msg b rest
    unfold MonthKnown NamedTight
    rw [logMsgParseDate, hskip, Res.ok_bind]
    generalize stampText syslogProtocol (b :: rest) = text
    constructor
    · intro hknown format hnamed hformat hmatch
      simp only [hformat, Res.ok_bind] at hknown
      rcases scanDate_named (cachedLocaltime env.zone env.now st.caches).1 hformat hnamed with
        ⟨-, scanned, hscan⟩ | ⟨hnot, -⟩
      · rw [hscan] at hknown
        refine (hknown _ _ rfl).resolve_left fun hiso => hnamed ?_
        rw [dateFormat_iso syslogProtocol hiso] at hformat
        exact (some.inj (Res.ok.inj hformat)).symm
      · exact absurd hmatch hnot
    · intro htight st' c haccept
      dsimp only at haccept
      rcases hformat : dateFormat syslogProtocol (blockCursor text tail) with _ | _ | format
      · rw [hformat] at haccept
        cases haccept
      · rw [hformat] at haccept
        cases haccept
      · rw [hformat, Res.ok_bind] at haccept
        cases format with
        | none => cases haccept
        | some format =>
          by_cases hnamed : format = .iso
          · subst hnamed
            left
            simp only [scanDate, scanIso] at haccept
            rcases @scanIsoTimestamp_reads text tail
              (cachedLocaltime env.zone env.now st.caches).1 with ⟨hmatch, -⟩ | ⟨-, hfailed⟩
            · exact hmatch
            · rw [hfailed] at haccept
              cases haccept
          · right
            rcases scanDate_named (cachedLocaltime env.zone env.now st.caches).1 hformat hnamed with
              ⟨hmatch, -⟩ | ⟨-, hfailed⟩
            · exact htight format hnamed hformat hmatch
            · simp only [hfailed] at haccept
              cases haccept

/-- All of the scanners take the stamps of their layout only, and say what is in them. -/
structure StampsExact (tm : Tm) (rest tail : List UInt8) : Prop where
  pix : ScansExactly scanPixTimestamp pixLayout tm rest tail
  linksys : ScansExactly scanLinksysTimestamp linksysLayout tm rest tail
  bsd : ScansExactly scanBsdTimestamp bsdLayout tm rest tail
  iso : ScansExactly scanIsoTimestamp isoLayout tm rest tail
  month : MonthKnown env syslogProtocol assume st rest tail

/-- **Stamps are recognised exactly** where the months that the scanners let pass are known, and the
numbers have no blanks but leading ones. -/
theorem stampsExact_iff (tm : Tm) (rest tail : List UInt8) :
    StampsExact env syslogProtocol assume st tm rest tail ↔
      (∀ ps ∈ [pixLayout, linksysLayout, bsdLayout, isoLayout],
        Matches (layoutPattern ps) rest → TightText ps rest) ∧
      NamedTight syslogProtocol rest tail := by
  have hpix := @scansExactly_iff rest tail _ _ scanPixTimestamp_pieces tm
  have hlinksys := @scansExactly_iff rest tail _ _ scanLinksysTimestamp_pieces tm
  have hbsd := @scansExactly_iff rest tail _ _ scanBsdTimestamp_pieces tm
  have hiso := @scansExactly_iff rest tail _ _ scanIsoTimestamp_pieces tm
  have hmonth := @monthKnown_iff tail env syslogProtocol assume st rest
  simp only [mem_cons, not_mem_nil, or_false, forall_eq_or_imp, forall_eq]
  constructor
  · intro h
    exact ⟨⟨hpix.mp h.pix, hlinksys.mp h.linksys, hbsd.mp h.bsd, hiso.mp h.iso⟩, hmonth.mp h.month⟩
  · rintro ⟨⟨h1, h2, h3, h4⟩, h5⟩
    exact ⟨hpix.mpr h1, hlinksys.mpr h2, hbsd.mpr h3, hiso.mpr h4, hmonth.mpr h5⟩

end

/-- `Jxx 12 10:11:12`. -/
def unknownMonth : List UInt8 := [74, 120, 120, 32, 49, 50, 32, 49, 48, 58, 49, 49, 58, 49, 50]

/-- **A stamp of the month `Jxx` is taken**, with the month -1. -/
theorem unknown_month_taken :
    scanBsdTimestamp Tm.zero (blockCursor unknownMonth []) =
        .ok ({ Tm.zero with mon := -1, mday := 12, hour := 10, min := 11, sec := 12 },
          blockCursor [] []) ∧
      ∀ env assume st, ¬StampsExact env false assume st Tm.zero unknownMonth [] := by
  refine ⟨by decide +kernel, fun env assume st hexact => ?_⟩
  have htight := (scansExactly_iff scanBsdTimestamp_pieces Tm.zero).mp hexact.bsd (by decide +kernel)
  have hname : unknownMonth.take 3 ∉ monthNames := by decide +kernel
  exact hname htight.1

end

end SyslogNg.SyslogFormat
