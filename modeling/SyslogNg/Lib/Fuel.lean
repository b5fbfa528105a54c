import Mathlib.Tactic

/-!
# Recursion with fuel

A function that calls itself in any way is given a depth; a call that goes deeper gives `bottom`. It
comes to its end, for some depth, where there is no endless chain of calls (`Recursion.ends_iff`).
-/

namespace SyslogNg.Lib

open List

variable {ε α β S : Type} {bottom : ε}

/-- The one result is the other one, unless it is for want of depth. -/
def Approximates (bottom : ε) (x y : Except ε α) : Prop := x ≠ .error bottom → y = x

theorem Approximates.refl (x : Except ε α) : Approximates bottom x x := fun _ => rfl

theorem Approximates.trans {x y z : Except ε α} (h : Approximates bottom x y)
    (h' : Approximates bottom y z) : Approximates bottom x z := by
  intro hx
  have hy := h hx
  exact (h' (by rw [hy]; exact hx)).trans hy

theorem approximates_bottom (y : Except ε α) : Approximates bottom (.error bottom) y :=
  fun h => absurd rfl h

theorem Approximates.bind {x y : Except ε α} {f g : α → Except ε β} (h : Approximates bottom x y)
    (hfg : ∀ a, x = .ok a → Approximates bottom (f a) (g a)) :
    Approximates bottom (x.bind f) (y.bind g) := by
  intro hne
  cases x with
  | error e =>
    obtain rfl : y = .error e := h fun heq => hne (by cases heq; rfl)
    rfl
  | ok a =>
    obtain rfl : y = .ok a := h nofun
    exact hfg a rfl hne

theorem Approximates.map {x y : Except ε α} (h : Approximates bottom x y) (f : α → β) :
    Approximates bottom (x.map f) (y.map f) := by
  intro hne
  cases x with
  | error e =>
    obtain rfl : y = .error e := h fun heq => hne (by cases heq; rfl)
    rfl
  | ok a =>
    obtain rfl : y = .ok a := h nofun
    rfl

theorem bind_ends {x : Except ε α} {f : α → Except ε β} (h : x.bind f ≠ .error bottom) :
    x ≠ .error bottom := by
  rintro rfl
  exact h rfl

/-- A function with a depth, and the calls that it makes. -/
structure Recursion (bottom : ε) (run : Nat → S → Except ε α) (calls : S → S → Prop) : Prop where
  succ : ∀ n s, Approximates bottom (run n s) (run (n + 1) s)
  leaf : ∀ s t, calls s t → run 0 s = .error bottom
  call : ∀ n s t, calls s t → run (n + 1) s ≠ .error bottom → run n t ≠ .error bottom
  ends : ∀ s, (∀ t, calls s t → ∃ n, run n t ≠ .error bottom) → ∃ n, run n s ≠ .error bottom

namespace Recursion

variable {run : Nat → S → Except ε α} {calls : S → S → Prop} {s : S}

theorem mono (h : Recursion bottom run calls) {m n : Nat} (hle : m ≤ n) (s : S) :
    Approximates bottom (run m s) (run n s) := by
  induction hle with
  | refl => exact .refl _
  | step _ ih => exact ih.trans (h.succ _ s)

theorem agree (h : Recursion bottom run calls) {m n : Nat} (hm : run m s ≠ .error bottom)
    (hn : run n s ≠ .error bottom) : run m s = run n s :=
  ((h.mono (Nat.le_max_left m n) s hm).symm).trans (h.mono (Nat.le_max_right m n) s hn)

theorem acc (h : Recursion bottom run calls) {n : Nat} (hn : run n s ≠ .error bottom) :
    Acc (fun t s => calls s t) s := by
  induction n generalizing s with
  | zero => exact .intro s fun t ht => absurd (h.leaf s t ht) hn
  | succ n ih => exact .intro s fun t ht => ih (h.call n s t ht hn)

end Recursion

/-! ## Loops -/

variable {C σ : Type}

/-- A loop over a list that stops at the first error. -/
def loop (step : C → σ → Except ε σ) : List C → σ → Except ε σ
  | [], s => .ok s
  | c :: cs, s => (step c s).bind (loop step cs)

theorem loop_append (step : C → σ → Except ε σ) (a b : List C) (s : σ) :
    loop step (a ++ b) s = (loop step a s).bind (loop step b) := by
  induction a generalizing s with
  | nil => rfl
  | cons c a ih =>
    rw [cons_append, loop, loop]
    cases step c s with
    | error e => rfl
    | ok s' => exact ih s'

theorem loop_collects {step : C → σ → Except ε σ} {P : σ → Prop} {Q : C → σ → Prop} {cs : List C}
    {s s' : σ} (hstep : ∀ c s s', step c s = .ok s' → (P s' ↔ P s ∨ Q c s)) (h : loop step cs s = .ok s') :
    P s' ↔ P s ∨ ∃ before c after s1, cs = before ++ c :: after ∧ loop step before s = .ok s1 ∧ Q c s1 := by
  induction cs generalizing s with
  | nil =>
    cases h
    refine ⟨.inl, fun h => h.resolve_right ?_⟩
    rintro ⟨before, c, after, s1, heq, -⟩
    exact absurd heq.symm (append_ne_nil_of_right_ne_nil before (cons_ne_nil c after))
  | cons c cs ih =>
    rw [loop] at h
    cases hc : step c s with
    | error e =>
      rw [hc] at h
      cases h
    | ok s1 =>
      rw [hc] at h
      rw [ih h, hstep c s s1 hc, or_assoc]
      refine or_congr_right ⟨?_, ?_⟩
      · rintro (hq | ⟨before, c', after, s2, rfl, hbefore, hq⟩)
        · exact ⟨[], c, cs, s, rfl, rfl, hq⟩
        · refine ⟨c :: before, c', after, s2, rfl, ?_, hq⟩
          rw [loop, hc]
          exact hbefore
      · rintro ⟨before, c', after, s2, heq, hbefore, hq⟩
        cases before with
        | nil =>
          cases heq
          cases hbefore
          exact .inl hq
        | cons d before =>
          cases heq
          rw [loop, hc] at hbefore
          exact .inr ⟨before, c', after, s2, rfl, hbefore, hq⟩

theorem loop_approximates {step step' : C → σ → Except ε σ} {cs : List C}
    (h : ∀ c ∈ cs, ∀ s, Approximates bottom (step c s) (step' c s)) (s : σ) :
    Approximates bottom (loop step cs s) (loop step' cs s) := by
  induction cs generalizing s with
  | nil => exact .refl _
  | cons c cs ih =>
    exact (h c mem_cons_self s).bind fun s' _ => ih (fun c hc => h c (mem_cons_of_mem _ hc)) s'

/-! ### Passes with a depth -/

section

variable {step : Nat → C → σ → Except ε σ}

variable (hmono : ∀ m n, m ≤ n → ∀ c s, Approximates bottom (step m c s) (step n c s))

include hmono

theorem loop_mono {m n : Nat} (hle : m ≤ n) (cs : List C) (s : σ) :
    Approximates bottom (loop (step m) cs s) (loop (step n) cs s) :=
  loop_approximates (fun c _ => hmono m n hle c) s

theorem loop_before {m n : Nat} {before rest : List C} {s s' : σ}
    (hbefore : loop (step m) before s = .ok s') (h : loop (step n) (before ++ rest) s ≠ .error bottom) :
    loop (step n) before s = .ok s' := by
  rw [loop_append] at h
  have hm : loop (step (max m n)) before s = .ok s' :=
    (loop_mono hmono (Nat.le_max_left m n) before s (by rw [hbefore]; nofun)).trans hbefore
  exact (loop_mono hmono (Nat.le_max_right m n) before s (bind_ends h)).symm.trans hm

end

end SyslogNg.Lib
