import SyslogNg.Time.TimeUtils
import SyslogNg.Lib.CInt
import SyslogNg.Lib.Decimal

/-!
# Reading from a data block (`lib/str-format.c`)

A function of the parser gets a pointer and the number of bytes that are left, and advances the two
of them separately. A `Cursor` has the memory from the pointer on, so that reading behind the end of
the memory is seen: it makes the result `outside`.
-/

namespace SyslogNg.SyslogFormat

open Lib Time

/-- The outcome of a function that reads: a byte outside of the memory was read, the function
returned `FALSE`, or it has a result. -/
inductive Res (α : Type) where
  | outside
  | failed
  | ok (a : α)
  deriving DecidableEq

namespace Res

variable {α β : Type}

def bind : Res α → (α → Res β) → Res β
  | outside, _ => outside
  | failed, _ => failed
  | ok a, f => f a

instance : Monad Res where
  pure := ok
  bind := bind

@[simp] theorem outside_bind (f : α → Res β) : (outside >>= f) = outside := rfl
@[simp] theorem failed_bind (f : α → Res β) : (failed >>= f) = failed := rfl
@[simp] theorem ok_bind (a : α) (f : α → Res β) : (ok a >>= f) = f a := rfl
@[simp] theorem pure_eq (a : α) : (pure a : Res α) = ok a := rfl

theorem bind_assoc {γ : Type} (r : Res α) (f : α → Res β) (g : β → Res γ) :
    (r >>= f) >>= g = r >>= fun a => f a >>= g := by
  cases r with
  | outside => rfl
  | failed => rfl
  | ok a => rfl

/-- A function that returned `FALSE` is called for its effect. -/
def orElse (r : Res α) (a : α) : Res α :=
  match r with
  | failed => ok a
  | r => r

@[simp] theorem outside_orElse (a : α) : (outside : Res α).orElse a = outside := rfl
@[simp] theorem failed_orElse (a : α) : (failed : Res α).orElse a = ok a := rfl
@[simp] theorem ok_orElse (a b : α) : (ok a).orElse b = ok a := rfl

end Res

/-- `src` and `left`. -/
structure Cursor where
  src : List UInt8
  left : Int
  deriving DecidableEq

/-- `src += n; left -= n`. -/
def Cursor.advance (c : Cursor) (n : Nat) : Cursor := ⟨c.src.drop n, c.left - n⟩

def isDigit (b : UInt8) : Bool := 48 ≤ b && b ≤ 57

theorem isDigit_of_mem_decimal {n : Nat} {c : UInt8} (h : c ∈ Lib.decimal n) : isDigit c = true := by
  have := Lib.decimal_digit h
  simp only [isDigit, Bool.and_eq_true, decide_eq_true_eq, UInt8.le_iff_toNat_le]
  exact this

/-- `isspace` in the C locale. -/
def isSpace (b : UInt8) : Bool := b == 32 || (9 ≤ b && b ≤ 13)

def isAscii (b : UInt8) : Bool := b < 128

/-- `*src`. -/
def peek (src : List UInt8) : Res UInt8 :=
  match src with
  | [] => .outside
  | b :: _ => .ok b

/-- Conditions on bytes at some offsets, that are joined with `&&`. -/
def testAt (src : List UInt8) : List (Nat × (UInt8 → Bool)) → Res Bool
  | [] => .ok true
  | (i, p) :: rest =>
    match src[i]? with
    | none => .outside
    | some b => if p b then testAt src rest else .ok false

/-- `left && p(*src)`. -/
def leftAnd (p : UInt8 → Bool) (c : Cursor) : Res Bool :=
  if c.left = 0 then .ok false else testAt c.src [(0, p)]

/-- `memcmp(src, str, strlen(str)) == 0`. -/
def memEq : (str src : List UInt8) → Res Bool
  | [], _ => .ok true
  | _ :: _, [] => .outside
  | a :: str, b :: src => if a = b then memEq str src else .ok false

/-- `while (left && !stop(*src)) { if (!good(*src)) return FALSE; src++; left--; }`: the bytes that were
skipped, and the cursor behind them. -/
def scanUntil (stop good : UInt8 → Bool) : List UInt8 → Int → Res (List UInt8 × Cursor)
  | [], left => if left = 0 then .ok ([], ⟨[], left⟩) else .outside
  | b :: src, left =>
    if left = 0 ∨ stop b = true then .ok ([], ⟨b :: src, left⟩)
    else if good b then do
      let r ← scanUntil stop good src (left - 1)
      return (b :: r.1, r.2)
    else .failed

/-- The loop without a condition in its body. -/
def skipUntil (stop : UInt8 → Bool) (c : Cursor) : Res (List UInt8 × Cursor) :=
  scanUntil stop (fun _ => true) c.src c.left

/-! ## Numbers and time stamps -/

def scanUint32 : (result fieldWidth : Nat) → Cursor → Res (Nat × Cursor)
  | result, 0, c => .ok (result, c)
  | result, fieldWidth + 1, c =>
    if c.left > 0 then do
      let b ← peek c.src
      if isDigit b then
        scanUint32 ((result * 10 + (b.toNat - 48)) % 2 ^ 32) fieldWidth (c.advance 1)
      else if isSpace b then scanUint32 result fieldWidth (c.advance 1)
      else .failed
    else .failed

/-- `scan_int`: the widths are below 10, so that the number is its value as a `gint`. -/
def scanInt (fieldWidth : Nat) (c : Cursor) : Res (Int × Cursor) := do
  let r ← scanUint32 0 fieldWidth c
  return (wrap32 r.1, r.2)

def scanExpectChar (value : UInt8) (c : Cursor) : Res Cursor :=
  if c.left = 0 then .failed
  else do
    let b ← peek c.src
    if b ≠ value then .failed else .ok (c.advance 1)

/-- The months that start with a letter, in the order of the comparisons. -/
def monthsOf (b : UInt8) : Option (List (String × Int)) :=
  if b = 74 then some [("Jan", 0), ("Jun", 5), ("Jul", 6)]
  else if b = 70 then some [("Feb", 1)]
  else if b = 77 then some [("Mar", 2), ("May", 4)]
  else if b = 65 then some [("Apr", 3), ("Aug", 7)]
  else if b = 83 then some [("Sep", 8)]
  else if b = 79 then some [("Oct", 9)]
  else if b = 78 then some [("Nov", 10)]
  else if b = 68 then some [("Dec", 11)]
  else none

/-- The month of a text: -1 if there is none. -/
def findMonth (src : List UInt8) : List (String × Int) → Res Int
  | [] => .ok (-1)
  | (name, mon) :: rest => do
    if ← memEq name.toUTF8.toList src then .ok mon else findMonth src rest

def scanMonthAbbrev (c : Cursor) : Res (Int × Cursor) :=
  if c.left < 3 then .failed
  else do
    let b ← peek c.src
    match monthsOf b with
    | none => .failed
    | some months =>
      let mon ← findMonth c.src months
      return (mon, c.advance 3)

/-- `HH:MM:SS`, as all of the formats have it. -/
def scanClock (tm : Tm) (c : Cursor) : Res (Tm × Cursor) := do
  let (hour, c) ← scanInt 2 c
  let c ← scanExpectChar 58 c
  let (min, c) ← scanInt 2 c
  let c ← scanExpectChar 58 c
  let (sec, c) ← scanInt 2 c
  return ({ tm with hour, min, sec }, c)

def scanIsoTimestamp (tm : Tm) (c : Cursor) : Res (Tm × Cursor) := do
  let (year, c) ← scanInt 4 c
  let c ← scanExpectChar 45 c
  let (mon, c) ← scanInt 2 c
  let c ← scanExpectChar 45 c
  let (mday, c) ← scanInt 2 c
  let c ← scanExpectChar 84 c
  scanClock { tm with year := year - 1900, mon := mon - 1, mday } c

def scanPixTimestamp (tm : Tm) (c : Cursor) : Res (Tm × Cursor) := do
  let (mon, c) ← scanMonthAbbrev c
  let c ← scanExpectChar 32 c
  let (mday, c) ← scanInt 2 c
  let c ← scanExpectChar 32 c
  let (year, c) ← scanInt 4 c
  let c ← scanExpectChar 32 c
  scanClock { tm with year := year - 1900, mon, mday } c

def scanLinksysTimestamp (tm : Tm) (c : Cursor) : Res (Tm × Cursor) := do
  let (mon, c) ← scanMonthAbbrev c
  let c ← scanExpectChar 32 c
  let (mday, c) ← scanInt 2 c
  let c ← scanExpectChar 32 c
  let (tm, c) ← scanClock { tm with mon, mday } c
  let c ← scanExpectChar 32 c
  let (year, c) ← scanInt 4 c
  return ({ tm with year := year - 1900 }, c)

def scanBsdTimestamp (tm : Tm) (c : Cursor) : Res (Tm × Cursor) := do
  let (mon, c) ← scanMonthAbbrev c
  let c ← scanExpectChar 32 c
  let (mday, c) ← scanInt 2 c
  let c ← scanExpectChar 32 c
  scanClock { tm with mon, mday } c

end SyslogNg.SyslogFormat
