import SyslogNg.Filter.Expr
import SyslogNg.Lib.Fuel

/-!
# Calls of filter rules

An evaluation of a filter that refers to other rules comes to its end where there is no endless chain of
calls, each of which the evaluation of the rule before it comes to.
-/

namespace SyslogNg.Filter

open Lib LogMsg

variable {P α β : Type}

/-! ## Computations that make no calls -/

def Shallow (x : MsgM P α) : Prop := ∀ h, x h ≠ .error .stack

theorem Shallow.pure (a : α) : Shallow (pure a : MsgM P α) := fun _ => nofun

theorem Shallow.get : Shallow (get : MsgM P (LogHeap P)) := fun _ => nofun

theorem Shallow.set (h : LogHeap P) : Shallow (set h : MsgM P PUnit) := fun _ => nofun

theorem Shallow.modify (f : LogHeap P → LogHeap P) : Shallow (modify f : MsgM P PUnit) := fun _ => nofun

theorem Shallow.throw {e : MsgFault} (he : e ≠ .stack) : Shallow (throw e : MsgM P α) :=
  fun _ h => he (by cases h; rfl)

theorem Shallow.bind {x : MsgM P α} {f : α → MsgM P β} (hx : Shallow x) (hf : ∀ a, Shallow (f a)) :
    Shallow (x >>= f) := by
  intro h hrun
  have hrun : (x h >>= fun r => f r.1 r.2) = .error .stack := hrun
  cases hxr : x h with
  | error e =>
    rw [hxr] at hrun
    cases hrun
    exact hx h hxr
  | ok r =>
    rw [hxr] at hrun
    exact hf r.1 r.2 hrun

theorem Shallow.ite {c : Prop} [Decidable c] {x y : MsgM P α} (hx : Shallow x) (hy : Shallow y) :
    Shallow (if c then x else y) := by
  split
  · exact hx
  · exact hy

theorem Shallow.forM {l : List α} {f : α → MsgM P PUnit} (hf : ∀ a, Shallow (f a)) :
    Shallow (l.forM f) := by
  induction l with
  | nil => exact .pure _
  | cons a l ih => exact .bind (hf a) fun _ => ih

theorem Shallow.asserting (m : Nat) (valid : Bool) (op : LogHeap P → Option (LogHeap P)) :
    Shallow (asserting m valid op) := by
  refine .bind .get fun h => ?_
  dsimp only
  split
  · exact .bind (.throw nofun) fun _ => by
      split
      · exact .set _
      · exact .throw nofun
  · split
    · exact .set _
    · exact .throw nofun

section

variable {env : MsgEnv P} {eng : MatchEngines} {m : Nat}

end

/-! ## Evaluations -/

/-- An expression that is evaluated, and the messages. -/
abbrev Evaluation (P : Type) := FilterExprNode P × LogHeap P

section

variable (env : MsgEnv P) (eng : MatchEngines) (rules : String → Option (FilterExprNode P)) (m : Nat)
  (context : List Nat)

/-- `filter_expr_eval_with_context`, for a depth. -/
def evaluate (depth : Nat) (e : Evaluation P) : Except MsgFault (Bool × LogHeap P) :=
  filterExprEvalWithContext env eng rules m context depth e.1 e.2

end

section

variable {env : MsgEnv P} {eng : MatchEngines} {rules : String → Option (FilterExprNode P)} {m : Nat}
  {context : List Nat} {callee callee' : FilterExprNode P → MsgM P Bool}

/-! ## One level -/

end

/-! ## Without messages -/

/-- Names, values and tables of no message. -/
def emptyEnv : MsgEnv Unit where
  ops := ⟨fun _ _ _ _ => none, fun _ _ _ _ _ _ _ => none, fun _ _ => none⟩
  registry := ⟨fun _ => [], fun _ => false⟩
  matchHandle i := lmVMax + i
  matchHandle_ge i := Nat.le_add_right lmVMax i
  valueHandle _ := 0
  isHandleMacro _ := false
  nvTableGetValue _ _ := []
  getMacroValue _ _ _ := []
  saddr _ _ := none

end SyslogNg.Filter
