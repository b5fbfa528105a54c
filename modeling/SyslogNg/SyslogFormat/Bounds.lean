import SyslogNg.SyslogFormat.Handler

/-!
# Reading inside a data block

A data block is a text and the line ends and NUL bytes behind it, which `syslog_format_handler` does
not count. Most of the functions of the parser only read bytes of the text, and pass on a cursor with
the rest of it: `Res.Sat` says so, and composes along the parser. The functions that look further are
described by what they return.
-/

namespace SyslogNg.SyslogFormat

open Lib Time
open List hiding beq_eq_decide
open List (cons_append head?_cons suffix_rfl)

/-! ## Specifications -/

namespace Res

variable {α β : Type} {r : Res α} {f : α → Res β} {P Q : α → Prop} {R : β → Prop}

/-- Nothing was read outside of the memory, and a result has the property. -/
def Sat (r : Res α) (Q : α → Prop) : Prop :=
  match r with
  | outside => False
  | failed => True
  | ok a => Q a

@[simp] theorem sat_ok {a : α} : (ok a).Sat Q ↔ Q a := Iff.rfl
@[simp] theorem sat_failed : (failed : Res α).Sat Q := trivial
theorem Sat.mono (h : r.Sat P) (himp : ∀ a, P a → Q a) : r.Sat Q := by
  cases r with
  | outside => exact h
  | failed => trivial
  | ok a => exact himp a h

theorem Sat.bind (h : r.Sat P) (hf : ∀ a, P a → (f a).Sat R) : (r >>= f).Sat R := by
  cases r with
  | outside => exact h
  | failed => trivial
  | ok a => exact hf a h

end Res

/-! ## Cursors in a block -/

/-- The cursor in front of the rest of the text. -/
def blockCursor (rest tail : List UInt8) : Cursor := ⟨rest ++ tail, rest.length⟩

/-- A cursor somewhere in a text: `left` is what is left of it, and so it is not negative. -/
def InText (text tail : List UInt8) (c : Cursor) : Prop :=
  ∃ rest, rest <:+ text ∧ c = blockCursor rest tail

section

variable {text rest tail : List UInt8} {c : Cursor}

theorem InText.self : InText rest tail (blockCursor rest tail) := ⟨rest, suffix_rfl, rfl⟩

theorem InText.trans (h : InText rest tail c) (hrest : rest <:+ text) : InText text tail c := by
  obtain ⟨more, hmore, rfl⟩ := h
  exact ⟨more, hmore.trans hrest, rfl⟩

theorem InText.drop (n : Nat) : InText rest tail (blockCursor (rest.drop n) tail) :=
  ⟨rest.drop n, drop_suffix n rest, rfl⟩

@[simp] theorem blockCursor_left : (blockCursor rest tail).left = rest.length := rfl
@[simp] theorem blockCursor_src : (blockCursor rest tail).src = rest ++ tail := rfl

theorem blockCursor_advance {n : Nat} (h : n ≤ rest.length) :
    (blockCursor rest tail).advance n = blockCursor (rest.drop n) tail := by
  simp only [Cursor.advance, blockCursor, length_drop, Cursor.mk.injEq]
  refine ⟨drop_append_of_le_length h, ?_⟩
  omega

variable {b : UInt8}

theorem blockCursor_advance_cons :
    (blockCursor (b :: rest) tail).advance 1 = blockCursor rest tail := by
  rw [blockCursor_advance (by simp)]
  rfl

theorem getElem?_block {i : Nat} (h : i < rest.length) : (rest ++ tail)[i]? = rest[i]? :=
  getElem?_append_left h

theorem testAt_ok {tests : List (Nat × (UInt8 → Bool))} (h : ∀ t ∈ tests, t.1 < rest.length) :
    ∃ found, testAt (rest ++ tail) tests = .ok found := by
  induction tests with
  | nil => exact ⟨true, rfl⟩
  | cons t tests ih =>
    obtain ⟨i, p⟩ := t
    have hi : i < rest.length := h (i, p) mem_cons_self
    obtain ⟨found, hfound⟩ := ih fun t ht => h t (mem_cons_of_mem _ ht)
    rw [testAt, getElem?_block hi, getElem?_eq_getElem hi]
    simp only
    split
    · exact ⟨found, hfound⟩
    · exact ⟨false, rfl⟩

theorem leftAnd_block {p : UInt8 → Bool} : leftAnd p (blockCursor rest tail) = .ok (rest.head?.any p) := by
  cases rest with
  | nil => rfl
  | cons b rest =>
    rw [leftAnd, if_neg (by simp; omega)]
    simp only [blockCursor, testAt, cons_append, getElem?_cons_zero, head?_cons, Option.any_some]
    split
    case isTrue h => rw [h]
    case isFalse h => rw [Bool.not_eq_true] at h; rw [h]

theorem nextIs_block : nextIs b (blockCursor rest tail) = .ok (rest.head?.any (· == b)) := by
  have hleft := @leftAnd_block rest tail (· == b)
  rw [← hleft, nextIs, leftAnd]
  cases rest with
  | nil => rfl
  | cons d rest => rw [if_pos (by simp), if_neg (by simp; omega)]

variable {stop : UInt8 → Bool}

theorem left_tail {rest : List UInt8} :
    (((b :: rest).length : Nat) : Int) - 1 = rest.length := by
  simp

theorem left_ne_zero {rest : List UInt8} : ¬ (((b :: rest).length : Nat) : Int) = 0 := by
  simp
  omega

theorem scanUntil_block {good : UInt8 → Bool} :
    scanUntil stop good (rest ++ tail) rest.length =
      if (rest.takeWhile fun b => !stop b).all good then
        .ok (rest.takeWhile fun b => !stop b, blockCursor (rest.dropWhile fun b => !stop b) tail)
      else .failed := by
  induction rest with
  | nil =>
    cases tail with
    | nil => rfl
    | cons b tail =>
      rw [nil_append, scanUntil, if_pos (.inl rfl)]
      rfl
  | cons b rest ih =>
    rw [cons_append, scanUntil, left_tail, ih]
    by_cases hstop : stop b = true
    · rw [if_pos (.inr hstop), takeWhile_cons_of_neg (by simp [hstop]),
        dropWhile_cons_of_neg (by simp [hstop])]
      rfl
    · rw [if_neg (not_or.2 ⟨left_ne_zero, hstop⟩), takeWhile_cons_of_pos (by simp [hstop]),
        dropWhile_cons_of_pos (by simp [hstop]), all_cons]
      by_cases hgood : good b = true
      · simp only [hgood, if_true, Bool.true_and]
        split
        · rfl
        · rfl
      · rw [Bool.not_eq_true] at hgood
        simp [hgood]

theorem skipUntil_block :
    skipUntil stop (blockCursor rest tail) =
      .ok (rest.takeWhile fun b => !stop b, blockCursor (rest.dropWhile fun b => !stop b) tail) := by
  rw [skipUntil, blockCursor_src, blockCursor_left, scanUntil_block, if_pos (by simp)]

theorem InText.dropWhile (p : UInt8 → Bool) : InText rest tail (blockCursor (rest.dropWhile p) tail) :=
  ⟨_, dropWhile_suffix p, rfl⟩

variable (options : MsgFormatOptions)

/-- The bytes that end a host name. -/
def hostStop (check : Bool) (b : UInt8) : Bool :=
  b == 32 || b == 58 || b == 91 || (check && isInvalidChar b)

/-- The host name at the start of a text. -/
def hostOf (check : Bool) (room : Nat) (rest : List UInt8) : List UInt8 :=
  (rest.take room).takeWhile fun b => !hostStop check b

theorem hostOf_cons (check : Bool) (room : Nat) (b : UInt8) (rest : List UInt8) :
    hostOf check (room + 1) (b :: rest) =
      if hostStop check b then [] else b :: hostOf check room rest := by
  unfold hostOf
  rw [take_succ_cons]
  split
  case isTrue h => rw [takeWhile_cons_of_neg (by simp [h])]
  case isFalse h => rw [takeWhile_cons_of_pos (by simp [h])]

theorem hostnameLoop_block (check : Bool) (room : Nat) :
    hostnameLoop check room (rest ++ tail) rest.length =
      .ok (hostOf check room rest, blockCursor (rest.drop (hostOf check room rest).length) tail) := by
  induction rest generalizing room with
  | nil =>
    have hnil : hostOf check room [] = [] := by
      simp [hostOf]
    rw [hnil]
    cases tail with
    | nil =>
      cases room with
      | zero => rfl
      | succ room => rfl
    | cons b tail =>
      cases room with
      | zero => rfl
      | succ room =>
        rw [nil_append, hostnameLoop, if_pos (.inl rfl)]
        rfl
  | cons b rest ih =>
    cases room with
    | zero => simp [hostnameLoop, hostOf, blockCursor]
    | succ room =>
      have hcond : (b = 32 ∨ b = 58 ∨ b = 91 ∨ (check = true ∧ isInvalidChar b = true)) ↔
          hostStop check b = true := by
        simp [hostStop, or_assoc]
      rw [cons_append, hostnameLoop, hostOf_cons, left_tail, ih]
      by_cases hstop : hostStop check b = true
      · rw [if_pos (.inr (hcond.2 hstop)), if_pos hstop]
        rfl
      · rw [if_neg (not_or.2 ⟨left_ne_zero, fun h => hstop (hcond.1 h)⟩), if_neg hstop]
        rfl

theorem parseHostname_block (badHostname : Option (List UInt8 → Bool)) :
    logMsgParseHostname options badHostname (blockCursor rest tail) =
      let host := hostOf options.checkHostname 255 rest
      if (rest.drop host.length).head? = some 32 ∧
          (badHostname.any fun bad => bad (host.takeWhile (· ≠ 0))) = false then
        .ok (some host, blockCursor (rest.drop host.length) tail)
      else .ok (none, blockCursor rest tail) := by
  have hhead : ∀ l : List UInt8, (l.head?.any (· == 32)) = decide (l.head? = some 32) := by
    intro l
    cases l with
    | nil => rfl
    | cons b l => simp [beq_eq_decide]
  rw [logMsgParseHostname, blockCursor_src, blockCursor_left, hostnameLoop_block, Res.ok_bind]
  simp only [leftAnd_block, Res.ok_bind, hhead]
  generalize hostOf options.checkHostname 255 rest = host
  cases hbad : badHostname.any fun bad => bad (host.takeWhile (· ≠ 0)) with
  | true => simp
  | false =>
    by_cases h : (rest.drop host.length).head? = some 32
    · simp [h]
    · simp [h]

end

end SyslogNg.SyslogFormat
