import SyslogNg.Filter.Calls
import SyslogNg.Template.Compile

/-!
# Conditions over a context

`filter_expr_eval_with_context` evaluates an expression on an array of messages. The comparisons look at
the last message of it, the other tests at the first one.
-/

namespace SyslogNg.Filter

open Lib LogMsg Template

variable {P : Type}

/-! ## What a test sees of a message -/

section

variable (env : MsgEnv P) (eng : MatchEngines) (rules : String → Option (FilterExprNode P)) (m : Nat)
  (context : List Nat)

/-- The evaluation comes to an evaluation of an expression: of itself, of an operand or of a rule that
is called. -/
inductive Visits : Evaluation P → Evaluation P → Prop where
  | refl (e : Evaluation P) : Visits e e
  | orLeft {comp : Bool} {left right : FilterExprNode P} {h : LogHeap P} {e : Evaluation P} :
      Visits (left, h) e → Visits (.or comp left right, h) e
  | orRight {comp : Bool} {left right : FilterExprNode P} {h h' : LogHeap P} {e : Evaluation P}
      {depth : Nat} : evaluate env eng rules m context depth (left, h) = .ok (false, h') →
      Visits (right, h') e → Visits (.or comp left right, h) e
  | andLeft {comp : Bool} {left right : FilterExprNode P} {h : LogHeap P} {e : Evaluation P} :
      Visits (left, h) e → Visits (.and comp left right, h) e
  | andRight {comp : Bool} {left right : FilterExprNode P} {h h' : LogHeap P} {e : Evaluation P}
      {depth : Nat} : evaluate env eng rules m context depth (left, h) = .ok (true, h') →
      Visits (right, h') e → Visits (.and comp left right, h) e
  | call {comp : Bool} {rule : String} {expr : FilterExprNode P} {h : LogHeap P} {e : Evaluation P} :
      rules rule = some expr → Visits (expr, h) e → Visits (.call comp true rule, h) e

end

section

variable {env : MsgEnv P} {eng : MatchEngines} {rules : String → Option (FilterExprNode P)} {m : Nat}
  {context : List Nat}

variable {expr : FilterExprNode P}

theorem Visits.trans {e₁ e₂ e₃ : Evaluation P} (h : Visits env eng rules m context e₁ e₂)
    (h' : Visits env eng rules m context e₂ e₃) : Visits env eng rules m context e₁ e₃ := by
  induction h with
  | refl _ => exact h'
  | orLeft _ ih => exact .orLeft (ih h')
  | orRight hleft _ ih => exact .orRight hleft (ih h')
  | andLeft _ ih => exact .andLeft (ih h')
  | andRight hleft _ ih => exact .andRight hleft (ih h')
  | call hrule _ ih => exact .call hrule (ih h')

end

/-! ## The condition -/

end SyslogNg.Filter
