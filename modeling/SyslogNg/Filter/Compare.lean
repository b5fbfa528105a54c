import SyslogNg.Filter.Calls

/-!
# Comparisons (`fop_cmp_new` and `fop_cmp_eval` of `lib/filter.c`)

There are two kinds of operators, for strings and for numbers. `fop_cmp_new` makes them the same: where a
case of its switch falls through to the next one, the bit for numbers is assigned over.
-/

namespace SyslogNg.Filter

open LogMsg List

variable {P : Type}

/-- `KW_LT` and the other tokens. -/
inductive CmpOperator where
  | lt | le | eq | ne | ge | gt
  | numLt | numLe | numEq | numNe | numGe | numGt
  deriving DecidableEq, Repr

namespace CmpOperator

/-- `<`, `<=`, `==`, `!=`, `>=`, `>`. -/
def numeric : CmpOperator → Bool
  | lt | le | eq | ne | ge | gt => false
  | numLt | numLe | numEq | numNe | numGe | numGt => true

/-- The outcomes of a comparison that an operator stands for. -/
def accepts : CmpOperator → Ordering → Bool
  | lt, o | numLt, o => o == .lt
  | le, o | numLe, o => o != .gt
  | eq, o | numEq, o => o == .eq
  | ne, o | numNe, o => o != .eq
  | ge, o | numGe, o => o != .lt
  | gt, o | numGt, o => o == .gt

/-- How the operator compares its operands: in byte order, or as the integers that they denote. -/
def order (op : CmpOperator) (left right : List UInt8) : Ordering :=
  if op.numeric then compare (atoi left).toInt (atoi right).toInt else compare left right

/-- What is assigned to `cmp_op`, from the case of the operator up to the next `break`. -/
def assignments : CmpOperator → List (BitVec 32)
  | lt => [fcmpLt]
  | numLt => [fcmpNum, fcmpLt]
  | le => [fcmpLt ||| fcmpEq]
  | numLe => [fcmpNum, fcmpLt ||| fcmpEq]
  | eq => [fcmpEq]
  | numEq => [fcmpNum, fcmpEq]
  | ne => [0]
  | numNe => [fcmpNum, 0]
  | ge => [fcmpGt ||| fcmpEq]
  | numGe => [fcmpNum, fcmpGt ||| fcmpEq]
  | gt => [fcmpGt]
  | numGt => [fcmpNum, fcmpGt]

end CmpOperator

def fopCmpNew (op : CmpOperator) (left right : LogTemplate P) : FilterTest P :=
  .cmp left right (op.assignments.foldl (fun _ value => value) 0)

theorem fopCmpEval_new (op : CmpOperator) (left right : List UInt8) :
    fopCmpEval (op.assignments.foldl (fun _ value => value) 0) left right =
      op.accepts (compare (cString left) (cString right)) := by
  have hnum : ∀ op : CmpOperator, op.assignments.foldl (fun _ value => value) 0 &&& fcmpNum = 0 := by
    intro op
    cases op <;> rfl
  rw [fopCmpEval, if_neg (fun h => h (hnum op))]
  generalize compare (cString left) (cString right) = o
  cases op <;> cases o <;> rfl

section

variable (env : MsgEnv P) (h : LogHeap P) (m : Nat) (context : List Nat) (left right : LogTemplate P)

/-- The operator applied to the operands, on the messages of a context. -/
def compares (op : CmpOperator) : Bool := (fopCmpNew op left right).eval env h m context

/-- What the operators are for. -/
structure ComparesRight : Prop where
  outcome : ∀ op : CmpOperator, compares env h m context left right op =
    op.accepts (op.order (left h (m :: context)) (right h (m :: context)))
  one : ([.lt, .eq, .gt].countP (compares env h m context left right)) = 1
  oneNumeric : ([.numLt, .numEq, .numGt].countP (compares env h m context left right)) = 1
  negated : ∀ ops ∈ [(CmpOperator.le, CmpOperator.gt), (.ge, .lt), (.ne, .eq), (.numLe, .numGt),
      (.numGe, .numLt), (.numNe, .numEq)],
    compares env h m context left right ops.1 = !compares env h m context left right ops.2

end

/-- The order of the strings up to their first zero byte is that of the whole strings, and that of the
numbers. -/
def OrdersAgree (left right : List UInt8) : Prop :=
  compare (cString left) (cString right) = compare left right ∧
    compare (cString left) (cString right) = compare (atoi left).toInt (atoi right).toInt

section

variable {env : MsgEnv P} {h : LogHeap P} {m : Nat} {context : List Nat} {left right : LogTemplate P}

theorem compares_eq (op : CmpOperator) :
    compares env h m context left right op =
      op.accepts (compare (cString (left h (m :: context))) (cString (right h (m :: context)))) :=
  fopCmpEval_new op _ _

theorem eq_of_accepts {o o' : Ordering} (hlt : (o == .lt) = (o' == .lt)) (hgt : (o == .gt) = (o' == .gt)) :
    o = o' := by
  revert hlt hgt
  cases o <;> cases o' <;> decide

end

/-- The operators do what they are for if and only if all the ways to compare the operands agree. -/
theorem compares_right_iff (env : MsgEnv P) (h : LogHeap P) (m : Nat) (context : List Nat)
    (left right : LogTemplate P) :
    ComparesRight env h m context left right ↔
      OrdersAgree (left h (m :: context)) (right h (m :: context)) := by
  constructor
  · intro hright
    have hspec : ∀ op : CmpOperator,
        op.accepts (compare (cString (left h (m :: context))) (cString (right h (m :: context)))) =
          op.accepts (op.order (left h (m :: context)) (right h (m :: context))) :=
      fun op => (compares_eq op).symm.trans (hright.outcome op)
    exact ⟨eq_of_accepts (hspec .lt) (hspec .gt), eq_of_accepts (hspec .numLt) (hspec .numGt)⟩
  · rintro ⟨hbytes, hnumbers⟩
    refine ⟨fun op => ?_, ?_, ?_, ?_⟩
    · rw [compares_eq, CmpOperator.order]
      split
      · rw [hnumbers]
      · rw [hbytes]
    · simp only [countP_cons, countP_nil, compares_eq]
      generalize compare (cString (left h (m :: context))) (cString (right h (m :: context))) = o
      cases o <;> rfl
    · simp only [countP_cons, countP_nil, compares_eq]
      generalize compare (cString (left h (m :: context))) (cString (right h (m :: context))) = o
      cases o <;> rfl
    · intro ops hops
      rw [compares_eq, compares_eq]
      generalize compare (cString (left h (m :: context))) (cString (right h (m :: context))) = o
      simp only [mem_cons, not_mem_nil, or_false] at hops
      rcases hops with rfl | rfl | rfl | rfl | rfl | rfl <;> cases o <;> rfl

/-- `"10" < "9"` matches. -/
theorem ten_below_nine :
    compares emptyEnv ⟨[], [], [], [], [], []⟩ 0 [] (fun _ _ => [49, 48]) (fun _ _ => [57]) .numLt = true ∧
      ¬ComparesRight emptyEnv ⟨[], [], [], [], [], []⟩ 0 [] (fun _ _ => [49, 48]) (fun _ _ => [57]) := by
  have hmatches : compares emptyEnv ⟨[], [], [], [], [], []⟩ 0 [] (fun _ _ => [49, 48]) (fun _ _ => [57])
      .numLt = true := by decide
  refine ⟨hmatches, fun hright => ?_⟩
  have houtcome := hright.outcome .numLt
  rw [hmatches] at houtcome
  exact absurd houtcome (by decide)

end SyslogNg.Filter
