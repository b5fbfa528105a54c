import Mathlib.Tactic

/-!
# Runs of labelled step systems

`Run next s as t`: the steps labelled `as` lead from `s` to `t`. A property that one step
keeps is kept by every run (`Run.invariant`); a run under a stronger step relation is a run
under a weaker one (`Run.mono`).
-/

namespace SyslogNg.Lib

inductive Run {S A : Type} (next : S → A → S → Prop) : S → List A → S → Prop where
  | refl (s : S) : Run next s [] s
  | step {s t u : S} {a : A} {as : List A} : next s a t → Run next t as u →
      Run next s (a :: as) u

section

variable {S A : Type} {next next' : S → A → S → Prop} {s t u : S} {as bs : List A}

theorem Run.trans (h1 : Run next s as t) (h2 : Run next t bs u) : Run next s (as ++ bs) u := by
  induction h1 with
  | refl => exact h2
  | step hs _ ih => exact .step hs (ih h2)

theorem Run.single {a : A} (h : next s a t) : Run next s [a] t := .step h (.refl t)

theorem Run.mono (hn : ∀ s a t, next s a t → next' s a t) (h : Run next s as t) : Run next' s as t := by
  induction h with
  | refl s => exact .refl s
  | step hs _ ih => exact .step (hn _ _ _ hs) ih

/-- The steps of a partial step function, one after another. -/
def exec (step : S → A → Option S) : S → List A → Option S
  | s, [] => some s
  | s, a :: as => (step s a).bind (exec step · as)

theorem exec_append (step : S → A → Option S) (s : S) (as bs : List A) :
    exec step s (as ++ bs) = (exec step s as).bind (exec step · bs) := by
  induction as generalizing s with
  | nil => rfl
  | cons a as ih =>
    rw [List.cons_append, exec, exec, Option.bind_assoc]
    exact congrArg _ (funext fun t => ih t)

theorem Run.of_exec {step : S → A → Option S} (hn : ∀ s a t, step s a = some t → next s a t)
    (h : exec step s as = some t) : Run next s as t := by
  induction as generalizing s with
  | nil => cases h; exact .refl _
  | cons a as ih =>
    obtain ⟨u, hu, hrest⟩ := Option.bind_eq_some_iff.1 h
    exact .step (hn _ _ _ hu) (ih hrest)

theorem Run.invariant {I : S → Prop} (hstep : ∀ s a t, next s a t → I s → I t) (h : Run next s as t)
    (hs : I s) : I t := by
  induction h with
  | refl => exact hs
  | step hn _ ih => exact ih (hstep _ _ _ hn hs)

variable {R : S → S → Prop}

theorem Run.rel (hrefl : ∀ s, R s s) (htrans : ∀ s t u, R s t → R t u → R s u)
    (hstep : ∀ s a t, next s a t → R s t) (h : Run next s as t) : R s t := by
  induction h with
  | refl s => exact hrefl s
  | step hn _ ih => exact htrans _ _ _ (hstep _ _ _ hn) ih

theorem foldlM_rel {f : S → A → Option S} (hrefl : ∀ s, R s s) (htrans : ∀ s t u, R s t → R t u → R s u)
    (hstep : ∀ s a t, f s a = some t → R s t) (h : as.foldlM f s = some t) : R s t := by
  induction as generalizing s with
  | nil => cases h; exact hrefl _
  | cons a as ih =>
    rw [List.foldlM_cons] at h
    obtain ⟨u, hu, hrest⟩ := Option.bind_eq_some_iff.1 h
    exact htrans _ _ _ (hstep _ _ _ hu) (ih hrest)

theorem foldl_rel {f : S → A → S} (hrefl : ∀ s, R s s) (htrans : ∀ s t u, R s t → R t u → R s u)
    (hstep : ∀ s a, R s (f s a)) : R s (as.foldl f s) := by
  induction as generalizing s with
  | nil => exact hrefl _
  | cons a as ih => exact htrans _ _ _ (hstep s a) ih

end

end SyslogNg.Lib
