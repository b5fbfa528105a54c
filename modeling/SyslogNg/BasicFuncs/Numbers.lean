import SyslogNg.SyslogFormat.Cursor

/-!
# The template functions of numbers (`modules/basicfuncs`)

`$(+)`, `$(-)`, `$(*)`, `$(/)` and `$(%)` compute with 64 bits and print 32 of them: `$(%)` an unsigned
number, the others a signed one.
-/

namespace SyslogNg.BasicFuncs

open Lib Option
open SyslogFormat (isDigit isSpace)

/-- The 64 bit two's complement value of `x`. -/
def wrap64 (x : Int) : Int := (x + 2 ^ 63) % 2 ^ 64 - 2 ^ 63

/-- The values of a `long`. -/
def Long (x : Int) : Prop := -2 ^ 63 ≤ x ∧ x < 2 ^ 63

instance (x : Int) : Decidable (Long x) := inferInstanceAs (Decidable (_ ∧ _))

theorem wrap64_eq_self {x : Int} (h : Long x) : wrap64 x = x := by
  unfold Long at h
  unfold wrap64
  omega

/-- `tf_parse_int`: a whole number, as `strtoll` reads it, that it does not have to cut. -/
def tfParseInt (s : List UInt8) : Option Int :=
  let s := (s.takeWhile (· ≠ 0)).dropWhile isSpace
  let digits := if s.head? = some 45 ∨ s.head? = some 43 then s.tail else s
  let val : Int := if s.head? = some 45 then -readDecimal 0 digits else readDecimal 0 digits
  if digits ≠ [] ∧ digits.all isDigit ∧ Long val then some val else none

theorem long_of_parse {s : List UInt8} {x : Int} (h : tfParseInt s = some x) : Long x := by
  obtain ⟨hs, hx⟩ := ite_none_right_eq_some.1 h
  cases hx
  exact hs.2.2

/-! ## Arithmetic -/

/-- The canonical decimal numeral of an integer. -/
def numeral (x : Int) : List UInt8 := if x < 0 then 45 :: decimal x.natAbs else decimal x.natAbs

theorem numeral_injective {x y : Int} (h : numeral x = numeral y) : x = y := by
  have hdigit : ∀ n l, decimal n ≠ 45 :: l := fun n l heq => by
    have := (decimal_digit (heq ▸ List.mem_cons_self : 45 ∈ decimal n)).1
    simp at this
  have hinj : ∀ n m, decimal n = decimal m → n = m := fun n m heq => by
    rw [← readDecimal_decimal n, heq, readDecimal_decimal]
  unfold numeral at h
  split at h <;> split at h
  · have := hinj _ _ (List.cons.inj h).2
    omega
  · exact absurd h.symm (hdigit _ _)
  · exact absurd h (hdigit _ _)
  · have := hinj _ _ h
    omega

/-- `format_int32_padded` with base 10 and no padding. -/
def formatInt32 (value : Int) : List UInt8 := numeral (wrap32 value)

/-- `format_uint32_padded` with base 10 and no padding. -/
def formatUint32 (value : Int) : List UInt8 := numeral (value % 2 ^ 32)

def nan : List UInt8 := [78, 97, 78]

def tfNumParse : List (List UInt8) → Option (Int × Int)
  | [a, b] => (tfParseInt a).bind fun n => (tfParseInt b).map fun m => (n, m)
  | _ => none

inductive NumFunc where
  | plus
  | minus
  | multi
  | div
  | mod

namespace NumFunc

def exact : NumFunc → Int → Int → Int
  | plus, n, m => n + m
  | minus, n, m => n - m
  | multi, n, m => n * m
  | div, n, m => n.tdiv m
  | mod, n, m => n.tmod m

def divides : NumFunc → Bool
  | div | mod => true
  | _ => false

def format : NumFunc → Int → List UInt8
  | mod => formatUint32
  | _ => formatInt32

/-- The numbers that the format prints as they are. -/
def Prints : NumFunc → Int → Prop
  | mod, x => 0 ≤ x ∧ x < 2 ^ 32
  | _, x => -2 ^ 31 ≤ x ∧ x < 2 ^ 31

end NumFunc

/-- The body of the five functions. A division of the least `long` by -1 traps. -/
def tfNum (f : NumFunc) (argv : List (List UInt8)) : Option (List UInt8) :=
  match tfNumParse argv with
  | none => some nan
  | some (n, m) =>
    if f.divides ∧ m = 0 then some nan
    else if f.divides ∧ n = -2 ^ 63 ∧ m = -1 then none
    else some (f.format (wrap64 (f.exact n m)))

def tfNumPlus := tfNum .plus

def tfNumMinus := tfNum .minus

def tfNumMulti := tfNum .multi

def tfNumDiv := tfNum .div

def tfNumMod := tfNum .mod

section

variable {f : NumFunc} {a b : List UInt8} {n m x : Int}

/-- The operands of a call whose divisor is not zero. -/
def Operands (f : NumFunc) (a b : List UInt8) (n m : Int) : Prop :=
  tfParseInt a = some n ∧ tfParseInt b = some m ∧ ¬(f.divides ∧ m = 0)

/-- No trap, and the exact result, where it is one of 64 bits, or `NaN`. -/
def ExactOrNan (f : NumFunc) (a b : List UInt8) : Prop :=
  tfNum f [a, b] ≠ none ∧ ((∀ n m, ¬Operands f a b n m) → tfNum f [a, b] = some nan) ∧
    ∀ n m, Operands f a b n m → Long (f.exact n m) → tfNum f [a, b] = some (numeral (f.exact n m))

theorem wrap32_eq_iff : wrap32 x = x ↔ -2 ^ 31 ≤ x ∧ x < 2 ^ 31 :=
  ⟨fun h => h ▸ wrap32_range x, wrap32_eq_self⟩

theorem format_eq_iff : f.format x = numeral x ↔ f.Prints x := by
  have hsigned : formatInt32 x = numeral x ↔ -2 ^ 31 ≤ x ∧ x < 2 ^ 31 :=
    ⟨fun h => wrap32_eq_iff.1 (numeral_injective h), fun h => congrArg numeral (wrap32_eq_iff.2 h)⟩
  have hunsigned : formatUint32 x = numeral x ↔ 0 ≤ x ∧ x < 2 ^ 32 := by
    refine ⟨fun h => ?_, fun h => congrArg numeral ?_⟩
    · have := numeral_injective h
      omega
    · omega
  cases f
  case mod => exact hunsigned
  all_goals exact hsigned

theorem tfNum_eq (h : Operands f a b n m) :
    tfNum f [a, b] = if f.divides ∧ n = -2 ^ 63 ∧ m = -1 then none
      else some (f.format (wrap64 (f.exact n m))) := by
  obtain ⟨ha, hb, hzero⟩ := h
  unfold tfNum tfNumParse
  simp only [ha, hb, bind_some, map_some, if_neg hzero]

theorem tfNum_nan (h : ∀ n m, ¬Operands f a b n m) : tfNum f [a, b] = some nan := by
  unfold tfNum
  split
  case h_1 => rfl
  case h_2 n m hparse =>
    obtain ⟨n', ha, hrest⟩ := bind_eq_some_iff.1 hparse
    obtain ⟨m', hb, heq⟩ := map_eq_some_iff.1 hrest
    cases heq
    have hzero : f.divides ∧ m = 0 := by
      by_contra hne
      exact h n m ⟨ha, hb, hne⟩
    rw [if_pos hzero]

/-- The arithmetic is exact if and only if no division traps and the result is one that the format
prints. -/
theorem arithmetic_exact_iff (f : NumFunc) (a b : List UInt8) :
    ExactOrNan f a b ↔ ∀ n m, Operands f a b n m →
      ¬(f.divides ∧ n = -2 ^ 63 ∧ m = -1) ∧ (Long (f.exact n m) → f.Prints (f.exact n m)) := by
  constructor
  · rintro ⟨htrap, -, hexact⟩ n m h
    rw [tfNum_eq h] at htrap
    have hno : ¬(f.divides ∧ n = -2 ^ 63 ∧ m = -1) := fun hdiv => htrap (if_pos hdiv)
    refine ⟨hno, fun hlong => ?_⟩
    have heq := hexact n m h hlong
    rw [tfNum_eq h, if_neg hno, wrap64_eq_self hlong, some_inj] at heq
    exact format_eq_iff.1 heq
  · intro hall
    refine ⟨?_, tfNum_nan, fun n m h hlong => ?_⟩
    · by_cases hop : ∀ n m, ¬Operands f a b n m
      · rw [tfNum_nan hop]
        nofun
      · push Not at hop
        obtain ⟨n, m, h⟩ := hop
        rw [tfNum_eq h, if_neg (hall n m h).1]
        nofun
    · obtain ⟨hno, hprints⟩ := hall n m h
      rw [tfNum_eq h, if_neg hno, wrap64_eq_self hlong, format_eq_iff.2 (hprints hlong)]

/-- `$(+ 2147483647 1)` is printed as -2147483648. -/
theorem sum_cut : ¬ExactOrNan .plus (decimal 2147483647) [49] := by
  intro h
  have := h.2.2 2147483647 1 (by unfold Operands; decide +kernel) (by decide)
  revert this
  decide +kernel

end

end SyslogNg.BasicFuncs
