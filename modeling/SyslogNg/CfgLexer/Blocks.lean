import Mathlib.Tactic

/-!
# Expanding blocks (`cfg_block_generate`, `lib/cfg-lexer.c`)

The names in backticks in the content of a block are replaced. This fails exactly on an argument
that the block does not declare and on a backtick without its other half.
-/

namespace SyslogNg.CfgLexer

open List

variable (value : List UInt8 → List UInt8)

/-- The loop of `cfg_lexer_subst_args`: `ref` is what follows `ref_start`, and `none` while
`backtick` is not set. -/
def substLoop : List UInt8 → Option (List UInt8) → List UInt8 → Option (List UInt8)
  | [], none, result => some result
  | [], some _, _ => none
  | c :: p, none, result =>
    if c = 96 then substLoop p (some []) result else substLoop p none (result ++ [c])
  | c :: p, some ref, result =>
    if c = 96 then substLoop p none (result ++ value ref) else substLoop p (some (ref ++ [c])) result

/-- The text in which each name in backticks is given its value. -/
inductive ExpandsTo : List UInt8 → List UInt8 → Prop where
  | nil : ExpandsTo [] []
  | byte {c : UInt8} {text out : List UInt8} : c ≠ 96 → ExpandsTo text out →
      ExpandsTo (c :: text) (c :: out)
  | ref {name text out : List UInt8} : 96 ∉ name → ExpandsTo text out →
      ExpandsTo (96 :: (name ++ 96 :: text)) (value name ++ out)

variable (globals args : CfgArgs) (getenv : List UInt8 → Option (List UInt8))

variable {value} {text out result : List UInt8} {ref : Option (List UInt8)}

theorem substLoop_ref {name : List UInt8} (hname : 96 ∉ name) (ref : List UInt8) :
    substLoop value (name ++ 96 :: text) (some ref) result =
      substLoop value text none (result ++ value (ref ++ name)) := by
  induction name generalizing ref with
  | nil => simp [substLoop]
  | cons c name ih =>
    obtain ⟨hc, hname⟩ := not_or.1 (mem_cons.not.1 hname)
    rw [cons_append, substLoop, if_neg (Ne.symm hc), ih hname, append_assoc, singleton_append]

theorem ExpandsTo.substLoop (h : ExpandsTo value text out) (result : List UInt8) :
    substLoop value text none result = some (result ++ out) := by
  induction h generalizing result with
  | nil => simp [CfgLexer.substLoop]
  | byte hc _ ih => rw [CfgLexer.substLoop, if_neg hc, ih, append_assoc, singleton_append]
  | ref hname _ ih => rw [CfgLexer.substLoop, if_pos rfl, substLoop_ref hname, ih, append_assoc, nil_append]

end SyslogNg.CfgLexer
