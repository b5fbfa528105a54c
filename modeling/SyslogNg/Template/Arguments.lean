import SyslogNg.Template.Scan

/-!
# Arguments of template functions

`$(name args...)` with arguments that are quoted or escaped: which lists of arguments reach the function.
-/

namespace SyslogNg.Template

open List

variable {M F : Type}

/-! ## How a call is written -/

def isArgSpecial (c : UInt8) : Bool :=
  c == 92 || c == 34 || c == 39 || c == 32 || c == 9 || c == 40 || c == 41

/-- A text with a backslash before each special character, and what it stands for. -/
inductive EscapedArg : (arg text : List UInt8) → Prop where
  | nil : EscapedArg [] []
  | plain {c : UInt8} {arg text : List UInt8} : isArgSpecial c = false → EscapedArg arg text →
      EscapedArg (c :: arg) (c :: text)
  | backslash {c : UInt8} {arg text : List UInt8} : EscapedArg arg text →
      EscapedArg (c :: arg) (92 :: c :: text)

inductive WrittenArg (arg : List UInt8) : List UInt8 → Prop where
  | quoted (q : UInt8) : q = 34 ∨ q = 39 → q ∉ arg → WrittenArg arg (q :: (arg ++ [q]))
  | escaped (text : List UInt8) : arg ≠ [] → EscapedArg arg text → WrittenArg arg text

/-- The name and the arguments, with blanks between them. -/
inductive CallText : (argv : List (List UInt8)) → List UInt8 → Prop where
  | last {arg text : List UInt8} : WrittenArg arg text → CallText [arg] text
  | cons {arg text blanks rest : List UInt8} {argv : List (List UInt8)} : WrittenArg arg text → blanks ≠ [] →
      (∀ b ∈ blanks, b = 32 ∨ b = 9) → CallText argv rest → CallText (arg :: argv) (text ++ (blanks ++ rest))

/-! ## What is read of it -/

variable {argBuf : List UInt8} {strv : List (List UInt8)} {rest : List UInt8}

theorem scanArgs_inQuote {q : UInt8} {arg : List UInt8} (hq : q ∉ arg) (white : Bool) :
    scanArgs (some q) 1 white argBuf strv (arg ++ q :: rest) = scanArgs none 1 false (argBuf ++ arg) strv rest := by
  induction arg generalizing argBuf white with
  | nil =>
    rw [nil_append, append_nil, scanArgs, if_pos rfl, if_pos rfl]
  | cons c arg ih =>
    have hc : q ≠ c := fun h => hq (h ▸ mem_cons_self)
    rw [cons_append, scanArgs, if_neg hc, ih fun h => hq (mem_cons_of_mem c h), append_assoc]
    rfl

variable (white : Bool)

theorem scanArgs_backslash (c : UInt8) (text : List UInt8) :
    scanArgs none 1 white argBuf strv (92 :: c :: text) = scanArgs none 1 false (argBuf ++ [c]) strv text := by
  have hwhite : ¬(white = true ∧ ((92 : UInt8) = 32 ∨ (92 : UInt8) = 9)) := fun h => absurd h.2 (by decide)
  rw [scanArgs.eq_def]
  dsimp only
  rw [if_neg hwhite, if_pos rfl]

theorem scanArgs_quote {q : UInt8} (hq : q = 34 ∨ q = 39) (text : List UInt8) :
    scanArgs none 1 white argBuf strv (q :: text) = scanArgs (some q) 1 false argBuf strv text := by
  have hwhite : ¬(white = true ∧ (q = 32 ∨ q = 9)) := by
    rintro ⟨-, h⟩
    rcases hq with rfl | rfl <;> exact absurd h (by decide)
  have hback : q ≠ 92 := by rcases hq with rfl | rfl <;> decide
  rw [scanArgs.eq_def]
  dsimp only
  rw [if_neg hwhite, if_neg hback, if_pos (Or.imp id id hq), if_pos rfl]

theorem isArgSpecial_false {c : UInt8} (h : isArgSpecial c = false) :
    c ≠ 92 ∧ c ≠ 34 ∧ c ≠ 39 ∧ c ≠ 32 ∧ c ≠ 9 ∧ c ≠ 40 ∧ c ≠ 41 := by
  simpa [isArgSpecial, and_assoc] using h

theorem scanArgs_plain {c : UInt8} (hc : isArgSpecial c = false) (text : List UInt8) :
    scanArgs none 1 white argBuf strv (c :: text) = scanArgs none 1 false (argBuf ++ [c]) strv text := by
  obtain ⟨h92, h34, h39, h32, h9, h40, h41⟩ := isArgSpecial_false hc
  have hblank : ¬(c = 32 ∨ c = 9) := not_or.mpr ⟨h32, h9⟩
  rw [scanArgs.eq_def]
  dsimp only
  rw [if_neg fun h => hblank h.2, if_neg h92, if_neg (not_or.mpr ⟨h34, h39⟩), if_neg fun h => hblank h.2,
    if_neg h40, if_neg h41]

theorem scanArgs_escaped {arg text : List UInt8} (h : EscapedArg arg text) (rest : List UInt8) :
    scanArgs none 1 false argBuf strv (text ++ rest) = scanArgs none 1 false (argBuf ++ arg) strv rest := by
  induction h generalizing argBuf with
  | nil => rw [append_nil, nil_append]
  | @plain c arg text hc _ ih =>
    rw [cons_append, scanArgs_plain false hc, ih, append_assoc]
    rfl
  | @backslash c arg text _ ih =>
    rw [cons_append, cons_append, scanArgs_backslash, ih, append_assoc]
    rfl

theorem scanArgs_written {arg text : List UInt8} (h : WrittenArg arg text) (rest : List UInt8) :
    scanArgs none 1 white [] strv (text ++ rest) = scanArgs none 1 false arg strv rest := by
  cases h with
  | quoted q hq hnot =>
    rw [cons_append, append_assoc, scanArgs_quote white hq]
    exact scanArgs_inQuote hnot false
  | escaped text hne h =>
    cases h with
    | nil => exact absurd rfl hne
    | @plain c arg text hc h =>
      rw [cons_append, scanArgs_plain white hc]
      exact scanArgs_escaped h rest
    | @backslash c arg text h =>
      rw [cons_append, cons_append, scanArgs_backslash]
      exact scanArgs_escaped h rest

theorem scanArgs_blank {b : UInt8} (hb : b = 32 ∨ b = 9) (text : List UInt8) :
    scanArgs none 1 false argBuf strv (b :: text) = scanArgs none 1 true [] (strv ++ [argBuf]) text := by
  have hread : ¬(false = true ∧ (b = 32 ∨ b = 9)) := fun h => Bool.false_ne_true h.1
  have h92 : b ≠ 92 := by rcases hb with rfl | rfl <;> decide
  have hquote : ¬(b = 34 ∨ b = 39) := by rcases hb with rfl | rfl <;> decide
  rw [scanArgs.eq_def]
  dsimp only
  rw [if_neg hread, if_neg h92, if_neg hquote, if_pos ⟨rfl, hb⟩]

theorem scanArgs_blanks {blanks : List UInt8} (hblanks : ∀ b ∈ blanks, b = 32 ∨ b = 9) (text : List UInt8) :
    scanArgs none 1 true [] strv (blanks ++ text) = scanArgs none 1 true [] strv text := by
  induction blanks with
  | nil => rfl
  | cons b blanks ih =>
    have hb : true = true ∧ (b = 32 ∨ b = 9) := ⟨rfl, hblanks b mem_cons_self⟩
    rw [cons_append, scanArgs.eq_def]
    dsimp only
    rw [if_pos hb, ih fun d hd => hblanks d (mem_cons_of_mem b hd)]

theorem scanArgs_close (rest : List UInt8) :
    scanArgs none 1 false argBuf strv (41 :: rest) = (strv, argBuf, 41 :: rest) := by
  rw [scanArgs.eq_def]
  rfl

theorem scanArgs_call {argv : List (List UInt8)} {text : List UInt8} (h : CallText argv text)
    (white : Bool) (rest : List UInt8) :
    ∃ args last, argv = args ++ [last] ∧
      scanArgs none 1 white [] strv (text ++ 41 :: rest) = (strv ++ args, last, 41 :: rest) := by
  induction h generalizing strv white with
  | @last arg text hwritten =>
    refine ⟨[], arg, rfl, ?_⟩
    rw [scanArgs_written white hwritten, scanArgs_close, append_nil]
  | @cons arg text blanks restText argv hwritten hne hblanks _ ih =>
    obtain ⟨args, last, rfl, hscan⟩ := @ih (strv ++ [arg]) true
    refine ⟨arg :: args, last, rfl, ?_⟩
    cases blanks with
    | nil => exact absurd rfl hne
    | cons b blanks =>
      rw [append_assoc, scanArgs_written white hwritten, append_assoc, cons_append,
        scanArgs_blank (hblanks b mem_cons_self),
        scanArgs_blanks fun d hd => hblanks d (mem_cons_of_mem b hd), hscan, append_assoc]
      rfl

theorem CallText.dropWhile {argv : List (List UInt8)} {text : List UInt8} (h : CallText argv text)
    (rest : List UInt8) : (text ++ rest).dropWhile (· = 32) = text ++ rest := by
  have hwritten : ∀ {arg text : List UInt8}, WrittenArg arg text → ∃ c t, text = c :: t ∧ c ≠ 32 := by
    intro arg text hwritten
    cases hwritten with
    | quoted q hq _ => exact ⟨q, _, rfl, by rcases hq with rfl | rfl <;> decide⟩
    | escaped text hne hescaped =>
      cases hescaped with
      | nil => exact absurd rfl hne
      | plain hc _ => exact ⟨_, _, rfl, (isArgSpecial_false hc).2.2.2.1⟩
      | backslash _ => exact ⟨92, _, rfl, by decide⟩
  cases h with
  | last h =>
    obtain ⟨c, t, rfl, hc⟩ := hwritten h
    exact dropWhile_cons_of_neg (by simpa using hc)
  | cons h _ _ _ =>
    obtain ⟨c, t, rfl, hc⟩ := hwritten h
    exact dropWhile_cons_of_neg (by simpa using hc)

/-! ## What reaches the function -/

/-- What `log_template_add_func_elem` is given. -/
def passedArgs (args : List (List UInt8)) (last : List UInt8) : List (List UInt8) :=
  if last = [] then args else args ++ [last]

theorem compileFunc_call {env : TemplateEnv M (List (List UInt8))}
    (hprepare : ∀ argv, env.prepare argv = some argv) {template text last : List UInt8}
    {args : List (List UInt8)} (hcall : CallText (args ++ [last]) text) :
    compileFunc env template [] (text ++ [41]) =
      .ok ⟨[], if passedArgs args last = [] then none else some ⟨[], .func (passedArgs args last), 0⟩, none⟩ := by
  obtain ⟨args', last', heq, hscan⟩ := @scanArgs_call [] _ _ hcall false []
  obtain ⟨rfl, hlast⟩ := append_inj' heq rfl
  obtain rfl : last = last' := (List.cons.inj hlast).1
  unfold compileFunc
  rw [hcall.dropWhile, hscan, nil_append]
  show (if passedArgs args last = [] then Except.ok (CompileStep.mk [] none none)
    else _) = _
  by_cases hnil : passedArgs args last = []
  · rw [if_pos hnil, if_pos hnil]
  · rw [if_neg hnil, if_neg hnil]
    have hmatch := hprepare (passedArgs args last)
    unfold passedArgs at hmatch ⊢
    rw [hmatch]
    rfl

/-- Compiling a call passes its arguments to the function if and only if the last one is not empty. The
function of this environment keeps what it is given. -/
theorem func_arguments_iff (env : TemplateEnv M (List (List UInt8)))
    (hprepare : ∀ argv, env.prepare argv = some argv) {argv : List (List UInt8)} {text : List UInt8}
    (hcall : CallText argv text) :
    logTemplateCompile env (36 :: 40 :: (text ++ [41])) = ([⟨[], .func argv, 0⟩], none) ↔
      argv.getLast? ≠ some [] := by
  obtain ⟨args, last, rfl, -⟩ := @scanArgs_call [] _ _ hcall false []
  have hcompile : logTemplateCompile env (36 :: 40 :: (text ++ [41])) =
      ((if passedArgs args last = [] then none
        else some (LogTemplateElem.mk [] (.func (passedArgs args last)) 0)).toList, none) := by
    have hloop : compileLoop env (36 :: 40 :: (text ++ [41])) (36 :: 40 :: (text ++ [41])).length none
        (36 :: 40 :: (text ++ [41])) = .ok ((if passedArgs args last = [] then none
          else some (LogTemplateElem.mk [] (.func (passedArgs args last)) 0)).toList ++ []) := by
      rw [length_cons, compileLoop_cons]
      show (compileFunc env _ [] (text ++ [41])).bind _ = _
      rw [compileFunc_call hprepare hcall]
      rfl
    unfold logTemplateCompile
    rw [hloop, append_nil]
  rw [hcompile, getLast?_concat]
  unfold passedArgs
  by_cases hlast : last = []
  · -- an argument is lost
    subst hlast
    refine ⟨fun h => ?_, fun h => absurd rfl h⟩
    rw [if_pos rfl] at h
    have h := (Prod.mk.inj h).1
    by_cases hnil : args = []
    · rw [if_pos hnil] at h
      cases h
    · rw [if_neg hnil] at h
      have hargs : args = args ++ [[]] :=
        LogTemplateElemType.func.inj (LogTemplateElem.mk.inj (List.cons.inj h).1).2.1
      have hlen := congrArg List.length hargs
      rw [length_append, length_singleton] at hlen
      omega
  · rw [if_neg hlast, if_neg (append_ne_nil_of_right_ne_nil args (cons_ne_nil last []))]
    exact ⟨fun _ h => hlast (Option.some.inj h), fun _ => rfl⟩

def keepingEnv : TemplateEnv Unit (List (List UInt8)) :=
  ⟨fun _ => 0, fun _ _ => [], fun _ _ => ⟨[], 0⟩, false, some, fun _ _ => []⟩

/-- `$(f "" a)`. -/
theorem func_arguments_two : logTemplateCompile keepingEnv [36, 40, 102, 32, 34, 34, 32, 97, 41] =
    ([⟨[], .func [[102], [], [97]], 0⟩], none) := by
  have hname : WrittenArg [102] [102] := .escaped _ (cons_ne_nil _ _) (.plain (by decide +kernel) .nil)
  have hempty : WrittenArg [] [34, 34] := .quoted 34 (.inl rfl) not_mem_nil
  have hlast : WrittenArg [97] [97] := .escaped _ (cons_ne_nil _ _) (.plain (by decide +kernel) .nil)
  have hblank : ∀ b ∈ ([32] : List UInt8), b = 32 ∨ b = 9 := by decide +kernel
  exact (func_arguments_iff keepingEnv (fun _ => rfl) (.cons hname (cons_ne_nil 32 []) hblank
    (.cons hempty (cons_ne_nil 32 []) hblank (.last hlast)))).mpr (by decide +kernel)

/-- `$(f "")`. -/
theorem func_argument_lost : CallText [[102], []] [102, 32, 34, 34] ∧
    logTemplateCompile keepingEnv [36, 40, 102, 32, 34, 34, 41] = ([⟨[], .func [[102]], 0⟩], none) :=
  ⟨@CallText.cons _ [102] [32] _ _ (.escaped _ (cons_ne_nil _ _) (.plain (by decide +kernel) .nil))
    (cons_ne_nil 32 []) (by decide +kernel) (.last (.quoted 34 (.inl rfl) not_mem_nil)), by decide +kernel⟩

end SyslogNg.Template
