import SyslogNg.DbParser.Parsers
import SyslogNg.Lib.Decimal

/-!
# The text of addresses

IPv4 addresses are four decimal numbers of at most 255 with dots between them. IPv6 addresses are
eight groups of one to four hexadecimal digits with colons between them, the last two of which may
be written as an IPv4 address, and of which any number in a row may be left out at one `::`.
-/

namespace SyslogNg.DbParser

open Lib List

/-! ## Pieces between separators -/

def joinText (sep : UInt8) (pieces : List (List UInt8)) : List UInt8 := [sep].intercalate pieces

variable (sep : UInt8)

@[simp] theorem joinText_nil : joinText sep [] = [] := rfl

@[simp] theorem joinText_singleton (p : List UInt8) : joinText sep [p] = p :=
  intercalate_singleton

variable {ps : List (List UInt8)}

theorem joinText_cons {sep : UInt8} (p : List UInt8) (h : ps ≠ []) :
    joinText sep (p :: ps) = p ++ sep :: joinText sep ps := by
  simp [joinText, intercalate_cons_of_ne_nil h]

theorem joinText_append {sep : UInt8} {qs : List (List UInt8)} (hp : ps ≠ []) (hq : qs ≠ []) :
    joinText sep (ps ++ qs) = joinText sep ps ++ sep :: joinText sep qs := by
  induction ps with
  | nil => exact absurd rfl hp
  | cons p ps ih =>
    rw [cons_append, joinText_cons p (by simp [hq])]
    by_cases h : ps = []
    · simp [h]
    · rw [ih h, joinText_cons p h]
      simp

theorem joinText_snoc {sep : UInt8} (h : ps ≠ []) (p : List UInt8) :
    joinText sep (ps ++ [p]) = joinText sep ps ++ sep :: p := by
  rw [joinText_append h (cons_ne_nil p []), joinText_singleton]

theorem joinText_extend (ps : List (List UInt8)) (p t : List UInt8) :
    joinText sep (ps ++ [p ++ t]) = joinText sep (ps ++ [p]) ++ t := by
  by_cases h : ps = []
  · simp [h]
  · rw [joinText_snoc h, joinText_snoc h]
    simp

theorem joinText_open (h : ps ≠ []) : joinText sep (ps ++ [[]]) = joinText sep ps ++ [sep] :=
  joinText_snoc h []

theorem joinText_inj {sep : UInt8} {qs : List (List UInt8)} (hp : ps ≠ []) (hq : qs ≠ [])
    (hps : ∀ p ∈ ps, sep ∉ p) (hqs : ∀ q ∈ qs, sep ∉ q) (h : joinText sep ps = joinText sep qs) : ps = qs :=
  calc ps = (joinText sep ps).splitOn sep := (splitOn_intercalate sep hps hp).symm
    _ = (joinText sep qs).splitOn sep := by rw [h]
    _ = qs := splitOn_intercalate sep hqs hq

/-! ## Addresses -/

/-- A decimal number of at most 255. -/
structure IsNumber (n : List UInt8) : Prop where
  ne_nil : n ≠ []
  digits : ∀ c ∈ n, asciiIsdigit c
  le : readDecimal 0 n ≤ 255

def IsDottedQuad (t : List UInt8) : Prop :=
  ∃ ns : List (List UInt8), ns.length = 4 ∧ (∀ n ∈ ns, IsNumber n) ∧ t = joinText 46 ns

/-- A group of one to four hexadecimal digits. -/
structure IsGroup (g : List UInt8) : Prop where
  ne_nil : g ≠ []
  digits : ∀ c ∈ g, asciiIsxdigit c
  length_le : g.length ≤ 4

/-- Groups, the last of which may be a dotted quad, with the number of groups they stand for. -/
inductive Pieces : List (List UInt8) → Nat → Prop
  | nil : Pieces [] 0
  | quad {q : List UInt8} (h : IsDottedQuad q) : Pieces [q] 2
  | group {g : List UInt8} {ps : List (List UInt8)} {w : Nat} (h : IsGroup g) (hs : Pieces ps w) :
    Pieces (g :: ps) (w + 1)

def IsIpv6Address (t : List UInt8) : Prop :=
  (∃ ps, Pieces ps 8 ∧ t = joinText 58 ps) ∨
    ∃ left right w, (∀ g ∈ left, IsGroup g) ∧ Pieces right w ∧ left.length + w ≤ 7 ∧
      t = joinText 58 left ++ [58, 58] ++ joinText 58 right

end SyslogNg.DbParser
