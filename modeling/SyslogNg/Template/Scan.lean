import SyslogNg.Template.Compile
import Mathlib.Data.List.TakeWhile
import Mathlib.Logic.Relation

/-!
# The scanner of templates

`log_template_compile` on memory: a pointer is what the memory has from it on, up to the byte behind the NUL
byte. Where it does not read that byte, it does what `logTemplateCompile` does.
-/

namespace SyslogNg.Template

open Lib List Except

inductive ScanFault where
  | outside
  | endless
  deriving DecidableEq

abbrev Scan (α : Type) := Except ScanFault α

/-- `*p`. -/
def load : List UInt8 → Scan UInt8
  | [] => .error .outside
  | c :: _ => .ok c

/-- `p - self->template`. -/
def offsetOf (template mem : List UInt8) : Nat := template.length + 1 - mem.length

/-- The loops that skip bytes. -/
def skipWhile (cond : UInt8 → Bool) : List UInt8 → Scan (List UInt8)
  | [] => .error .outside
  | c :: mem => if cond c then skipWhile cond mem else .ok (c :: mem)

/-- The loop of `parse_msg_ref`. -/
def scanDigits (msgRef : Int) : List UInt8 → Scan (Int × List UInt8)
  | [] => .error .outside
  | c :: mem =>
    if isDigit c then scanDigits (wrap32 (msgRef + (msgRef * 10 + (c.toNat - 48)))) mem
    else .ok (msgRef, c :: mem)

/-- `parse_msg_ref`. -/
def scanMsgRef (mem : List UInt8) : Scan (Int × List UInt8) := do
  if (← load mem) = 64 then
    let r ← scanDigits 0 mem.tail
    return (wrap32 (r.1 + 1), r.2)
  else return (0, mem)

def isBlank (c : UInt8) : Bool := c == 32 || c == 9

def scanFuncArgs : (rounds : Nat) → (quote : Option UInt8) → (parens : Nat) → (argBuf : List UInt8) →
    (strv : List (List UInt8)) → List UInt8 → Scan (List (List UInt8) × List UInt8 × List UInt8)
  | 0, _, _, _, _, _ => .error .endless
  | rounds + 1, quote, parens, argBuf, strv, mem => do
    let c ← load mem
    if c = 0 then return (strv, argBuf, mem)
    else
      match quote with
      | none =>
        if c = 92 then
          let d ← load mem.tail
          if d ≠ 0 then scanFuncArgs rounds none parens (argBuf ++ [d]) strv mem.tail.tail
          else scanFuncArgs rounds none parens argBuf strv mem.tail
        else if c = 34 ∨ c = 39 then
          scanFuncArgs rounds (some c) parens (if parens = 1 then argBuf else argBuf ++ [c]) strv mem.tail
        else if parens = 1 ∧ (c = 32 ∨ c = 9) then
          let mem ← skipWhile isBlank mem
          scanFuncArgs rounds none parens [] (strv ++ [argBuf]) mem
        else if c = 40 then scanFuncArgs rounds none (parens + 1) (argBuf ++ [c]) strv mem.tail
        else if c = 41 then
          if parens = 1 then return (strv, argBuf, mem)
          else scanFuncArgs rounds none (parens - 1) (argBuf ++ [c]) strv mem.tail
        else scanFuncArgs rounds none parens (argBuf ++ [c]) strv mem.tail
      | some q =>
        if q = c then
          scanFuncArgs rounds none parens (if parens = 1 then argBuf else argBuf ++ [c]) strv mem.tail
        else scanFuncArgs rounds (some q) parens (argBuf ++ [c]) strv mem.tail

section

variable {M F : Type} (env : TemplateEnv M F) (template lastText : List UInt8)

/-- What a round leaves: the pointer, the element and `last_text`; or an error. -/
abbrev ScanStep (F : Type) := Except TemplateError (CompileStep F)

/-- `${name:-default}@n`, with the pointer behind the brace. -/
def scanBraced (start : List UInt8) : Scan (ScanStep F) := do
  let p ← skipWhile (fun c => c ≠ 0 && c ≠ 125) start
  if (← load p) = 0 then
    return .error (.compile "Invalid macro, '\x7d' is missing" (offsetOf template p))
  else
    let p := p.tail
    -- what `memchr` looks at
    let body := start.take (start.length - p.length - 1)
    if 58 ∈ body then
      let name := body.takeWhile (· ≠ 58)
      let fncode := start.drop (name.length + 1)
      if (← load fncode) = 45 then
        let default := (fncode.drop 1).take (fncode.length - p.length - 2)
        let r ← scanMsgRef p
        return .ok ⟨r.2, some (nameElem env lastText name (some default) r.1), none⟩
      else return .error (.compile "Unknown substitution function" (offsetOf template fncode))
    else
      let r ← scanMsgRef p
      return .ok ⟨r.2, some (nameElem env lastText body none r.1), none⟩

/-- `$(function args)@n`, with the pointer behind the parenthesis. -/
def scanFunc (start : List UInt8) : Scan (ScanStep F) := do
  let p ← skipWhile (fun c => c ≠ 0 && c = 32) start
  let r ← scanFuncArgs start.length none 1 [] [] p
  let strv := if r.2.1 = [] then r.1 else r.1 ++ [r.2.1]
  if (← load r.2.2) ≠ 41 then
    return .error (.compile
      "Invalid template function reference, missing function name or inbalanced '('" (offsetOf template r.2.2))
  else
    let ref ← scanMsgRef r.2.2.tail
    if strv = [] then return .ok ⟨ref.2, none, none⟩
    else
      match env.prepare strv with
      | some func => return .ok ⟨ref.2, some ⟨lastText, .func func, ref.1⟩, none⟩
      | none => return .error .function

/-- Behind a `$`. -/
def scanDollar (mem : List UInt8) : Scan (ScanStep F) := do
  let c ← load mem
  if c = 123 then scanBraced env template lastText mem.tail
  else if c = 40 then scanFunc env template lastText mem.tail
  else if isNameChar c then
    let p ← skipWhile isNameChar mem.tail
    return .ok ⟨p, some (nameElem env lastText (mem.take (mem.length - p.length)) none 0), none⟩
  else if c = 36 then return .ok ⟨mem.tail, none, some (lastText ++ [36])⟩
  else return .ok ⟨mem.tail, none, some (lastText ++ [36, c])⟩

def scanRound (c : UInt8) (mem : List UInt8) : Scan (ScanStep F) := do
  if c = 92 then
    let d ← load mem
    if d ≠ 0 then return .ok ⟨mem.tail, none, some (lastText ++ [d])⟩
    else return .ok ⟨mem, none, some lastText⟩
  else if c = 36 then scanDollar env template lastText mem
  else return .ok ⟨mem, none, some (lastText ++ [c])⟩

/-- The loop of `log_template_compile`. -/
def scanLoop : (rounds : Nat) → (lastText : Option (List UInt8)) → (compiledTemplate : List (LogTemplateElem F)) →
    List UInt8 → Scan (Except TemplateError (List (LogTemplateElem F)))
  | 0, _, _, _ => .error .endless
  | rounds + 1, lastText, compiledTemplate, mem => do
    let c ← load mem
    if c = 0 then
      match lastText with
      | some lastText => return .ok (compiledTemplate ++ [⟨lastText, .macro_ 0 none, 0⟩])
      | none => return .ok compiledTemplate
    else
      match ← scanRound env template (lastText.getD []) c mem.tail with
      | .error e => return .error e
      | .ok step => scanLoop rounds step.lastText (compiledTemplate ++ step.elem.toList) step.rest

/-- `log_template_compile` on the string of a template. -/
def scanTemplate : Scan (List (LogTemplateElem F) × Option TemplateError) := do
  match ← scanLoop env template (template.length + 1) none [] (template ++ [0]) with
  | .ok elems => return (elems, none)
  | .error e => return ([⟨errorText ++ template, .macro_ 0 none, 0⟩], some e)

end

/-! ## The pieces of a template -/

section

variable {M F : Type}

/-- What is behind the first piece of a text. -/
inductive Behind (env : TemplateEnv M F) : List UInt8 → List UInt8 → Prop where
  /-- A backslash at the end. -/
  | backslash : Behind env [92] []
  | escaped (d : UInt8) (rest : List UInt8) : Behind env (92 :: d :: rest) rest
  | literal (c : UInt8) (rest : List UInt8) : c ≠ 92 → c ≠ 36 → Behind env (c :: rest) rest
  | dollar (c : UInt8) (rest : List UInt8) : c ≠ 123 → c ≠ 40 → isNameChar c = false →
      Behind env (36 :: c :: rest) rest
  | name (c : UInt8) (text : List UInt8) : isNameChar c = true →
      Behind env (36 :: c :: text) (text.dropWhile isNameChar)
  /-- The text between the braces has no colon, or `:-` at the first one. -/
  | braced (body rest : List UInt8) : 125 ∉ body →
      (58 ∈ body → (body.dropWhile (· ≠ 58)).tail.head? = some 45) →
      Behind env (36 :: 123 :: (body ++ 125 :: rest)) (parseMsgRef rest).2
  /-- The parentheses are closed, and the function accepts its arguments. -/
  | func (text rest argBuf : List UInt8) (strv : List (List UInt8)) :
      scanArgs none 1 false [] [] (text.dropWhile (· = 32)) = (strv, argBuf, 41 :: rest) →
      ((if argBuf = [] then strv else strv ++ [argBuf]) ≠ [] →
        (env.prepare (if argBuf = [] then strv else strv ++ [argBuf])).isSome = true) →
      Behind env (36 :: 40 :: text) (parseMsgRef rest).2

/-- The last piece of the template is a `$` alone, and all the pieces in front of it are right. -/
def TrailingDollar (env : TemplateEnv M F) (template : List UInt8) : Prop :=
  Relation.ReflTransGen (Behind env) template [36]

end

/-! ## The string of a text -/

theorem skipWhile_string {cond : UInt8 → Bool} (hcond : cond 0 = false) (text : List UInt8) :
    skipWhile cond (text ++ [0]) = .ok (text.dropWhile cond ++ [0]) := by
  induction text with
  | nil => exact if_neg (by rw [hcond]; exact Bool.false_ne_true)
  | cons c text ih =>
    show (if cond c = true then skipWhile cond (text ++ [0]) else _) = _
    rw [dropWhile_cons]
    by_cases hc : cond c = true
    · rw [if_pos hc, if_pos hc, ih]
    · rw [if_neg hc, if_neg hc]
      rfl

theorem scanDigits_string (msgRef : Int) (text : List UInt8) :
    scanDigits msgRef (text ++ [0]) =
      .ok (readMsgRef msgRef (text.takeWhile isDigit), text.dropWhile isDigit ++ [0]) := by
  induction text generalizing msgRef with
  | nil => rfl
  | cons c text ih =>
    show (if isDigit c = true then scanDigits _ (text ++ [0]) else _) = _
    rw [dropWhile_cons, takeWhile_cons]
    by_cases hc : isDigit c = true
    · rw [if_pos hc, if_pos hc, if_pos hc, ih]
      rfl
    · rw [if_neg hc, if_neg hc, if_neg hc]
      rfl

theorem scanMsgRef_string (text : List UInt8) :
    scanMsgRef (text ++ [0]) = .ok ((parseMsgRef text).1, (parseMsgRef text).2 ++ [0]) := by
  cases text with
  | nil => rfl
  | cons c text =>
    show (if c = 64 then _ else _) = _
    by_cases hc : c = 64
    · rw [if_pos hc, hc]
      show (scanDigits 0 (text ++ [0]) >>= _) = _
      rw [scanDigits_string]
      rfl
    · rw [if_neg hc]
      unfold parseMsgRef
      split
      · rename_i heq
        exact absurd (List.cons.inj heq).1 hc
      · rfl

theorem scanArgs_white (parens : Nat) (strv : List (List UInt8)) (text : List UInt8) :
    scanArgs none parens true [] strv text = scanArgs none parens false [] strv (text.dropWhile isBlank) := by
  induction text with
  | nil => rfl
  | cons c text ih =>
    have hblank : isBlank c = true ↔ c = 32 ∨ c = 9 := by simp [isBlank]
    rw [dropWhile_cons]
    by_cases hc : c = 32 ∨ c = 9
    · rw [if_pos (hblank.mpr hc), ← ih, scanArgs.eq_def]
      exact if_pos ⟨rfl, hc⟩
    · have hwhite : ¬(true = true ∧ (c = 32 ∨ c = 9)) := fun h => hc h.2
      have hread : ¬(false = true ∧ (c = 32 ∨ c = 9)) := fun h => hc h.2
      rw [if_neg (mt hblank.mp hc), scanArgs.eq_def none parens true, scanArgs.eq_def none parens false]
      dsimp only
      rw [if_neg hwhite, if_neg hread]

theorem scanFuncArgs_string {rounds : Nat} {text : List UInt8} (hrounds : text.length < rounds)
    (hzero : 0 ∉ text) (quote : Option UInt8) (parens : Nat) (argBuf : List UInt8) (strv : List (List UInt8)) :
    scanFuncArgs rounds quote parens argBuf strv (text ++ [0]) =
      .ok ((scanArgs quote parens false argBuf strv text).1, (scanArgs quote parens false argBuf strv text).2.1,
        (scanArgs quote parens false argBuf strv text).2.2 ++ [0]) := by
  induction rounds generalizing text quote parens argBuf strv with
  | zero => exact absurd hrounds (Nat.not_lt_zero _)
  | succ rounds ih =>
    cases text with
    | nil => cases quote <;> rfl
    | cons c text =>
      have hc : c ≠ 0 := fun h => hzero (h ▸ mem_cons_self)
      have hzero : 0 ∉ text := fun h => hzero (mem_cons_of_mem _ h)
      have hrounds : text.length < rounds := Nat.lt_of_succ_lt_succ hrounds
      cases quote with
      | some q =>
        show (if c = 0 then _ else if q = c then _ else _) = _
        rw [if_neg hc, scanArgs]
        by_cases hq : q = c
        · rw [if_pos hq, if_pos hq]
          exact ih hrounds hzero _ _ _ _
        · rw [if_neg hq, if_neg hq]
          exact ih hrounds hzero _ _ _ _
      | none =>
        rw [scanArgs.eq_def]
        dsimp only
        rw [if_neg fun h => Bool.false_ne_true h.1]
        show (if c = 0 then _ else if c = 92 then _ else if c = 34 ∨ c = 39 then _
          else if parens = 1 ∧ (c = 32 ∨ c = 9) then _ else if c = 40 then _ else if c = 41 then _ else _) = _
        rw [if_neg hc]
        by_cases h92 : c = 92
        · rw [if_pos h92, if_pos h92]
          cases text with
          | nil =>
            cases rounds with
            | zero => exact absurd hrounds (Nat.not_lt_zero _)
            | succ rounds => rfl
          | cons d text =>
            have hd : d ≠ 0 := fun h => hzero (h ▸ mem_cons_self)
            show (if d ≠ 0 then _ else _) = _
            rw [if_pos hd]
            exact ih (Nat.lt_of_succ_lt hrounds) (fun h => hzero (mem_cons_of_mem _ h)) _ _ _ _
        · rw [if_neg h92, if_neg h92]
          by_cases hquote : c = 34 ∨ c = 39
          · rw [if_pos hquote, if_pos hquote]
            exact ih hrounds hzero _ _ _ _
          · rw [if_neg hquote, if_neg hquote]
            by_cases hblank : parens = 1 ∧ (c = 32 ∨ c = 9)
            · rw [if_pos hblank, if_pos hblank]
              have hskip : skipWhile isBlank ((c :: text) ++ [0]) = .ok (text.dropWhile isBlank ++ [0]) := by
                rw [skipWhile_string (by decide), dropWhile_cons,
                  if_pos (by simpa [isBlank] using hblank.2)]
              show (skipWhile isBlank ((c :: text) ++ [0]) >>= _) = _
              rw [hskip, scanArgs_white]
              have hle := (dropWhile_sublist isBlank (l := text)).length_le
              exact ih (Nat.lt_of_le_of_lt hle hrounds)
                (fun h => hzero ((dropWhile_sublist isBlank).mem h)) _ _ _ _
            · rw [if_neg hblank, if_neg hblank]
              by_cases hopen : c = 40
              · rw [if_pos hopen, if_pos hopen]
                exact ih hrounds hzero _ _ _ _
              · rw [if_neg hopen, if_neg hopen]
                by_cases hclose : c = 41
                · rw [if_pos hclose, if_pos hclose]
                  by_cases hparens : parens = 1
                  · rw [if_pos hparens, if_pos hparens]
                    rfl
                  · rw [if_neg hparens, if_neg hparens]
                    exact ih hrounds hzero _ _ _ _
                · rw [if_neg hclose, if_neg hclose]
                  exact ih hrounds hzero _ _ _ _

variable {text : List UInt8}

theorem dropWhile_congr {p q : UInt8 → Bool} (h : ∀ c ∈ text, p c = q c) :
    text.dropWhile p = text.dropWhile q := by
  induction text with
  | nil => rfl
  | cons c text ih =>
    rw [dropWhile_cons, dropWhile_cons, h c mem_cons_self, ih fun d hd => h d (mem_cons_of_mem _ hd)]

theorem offsetOf_string (template rest : List UInt8) : offsetOf template (rest ++ [0]) = posOf template rest := by
  unfold offsetOf posOf
  rw [length_append, length_singleton]
  omega

theorem load_bind {α : Type} (c : UInt8) (mem : List UInt8) (f : UInt8 → Scan α) :
    (load (c :: mem) >>= f) = f c := rfl

theorem ok_bind {α β : Type} (a : α) (f : α → Scan β) : ((.ok a : Scan α) >>= f) = f a := rfl

section

variable {M F : Type} {env : TemplateEnv M F} {template lastText : List UInt8}

def onString (step : CompileStep F) : CompileStep F := { step with rest := step.rest ++ [0] }

theorem scanBraced_string (hzero : 0 ∉ text) :
    scanBraced env template lastText (text ++ [0]) =
      .ok ((compileBraced env template lastText text).map onString) := by
  have hskip : skipWhile (fun c => c ≠ 0 && c ≠ 125) (text ++ [0]) =
      .ok (text.dropWhile (· ≠ 125) ++ [0]) := by
    rw [skipWhile_string (by decide), dropWhile_congr]
    intro c hc
    have hne : c ≠ 0 := fun h => hzero (h ▸ hc)
    simp [hne]
  unfold scanBraced compileBraced
  rw [hskip]
  have happ := @List.takeWhile_append_dropWhile _ (fun c => decide (c ≠ 125)) text
  cases hrest : text.dropWhile (· ≠ 125) with
  | nil =>
    show (ok (error _) : Scan (ScanStep F)) = _
    have hend : offsetOf template ([] ++ [0]) = template.length := rfl
    rw [hend]
    rfl
  | cons d rest =>
    have hd : d = 125 := by
      have hhead := head?_dropWhile_not (fun c : UInt8 => decide (c ≠ 125)) text
      rw [hrest] at hhead
      simpa using hhead
    subst hd
    rw [hrest] at happ
    dsimp only
    generalize text.takeWhile (· ≠ 125) = body at happ ⊢
    subst happ
    have hbody : (body ++ 125 :: rest ++ [0]).take
        ((body ++ 125 :: rest ++ [0]).length - (rest ++ [0]).length - 1) = body := by
      rw [append_assoc]
      refine take_left' ?_
      simp only [length_append, length_cons]
      omega
    have hbrace : ¬(125 : UInt8) = 0 := by decide
    rw [ok_bind, cons_append, load_bind, if_neg hbrace, tail_cons, hbody]
    by_cases hcolon : 58 ∈ body
    · rw [if_pos hcolon]
      have hsplit := @List.takeWhile_append_dropWhile _ (fun c => decide (c ≠ 58)) body
      cases hfn : body.dropWhile (· ≠ 58) with
      | nil =>
        rw [hfn, append_nil] at hsplit
        have hmem : (58 : UInt8) ∈ body.takeWhile (· ≠ 58) := by rw [hsplit]; exact hcolon
        have hne := mem_takeWhile_imp hmem
        simp at hne
      | cons c fncode =>
        rw [hfn] at hsplit
        generalize body.takeWhile (· ≠ 58) = name at hsplit ⊢
        subst hsplit
        have hdrop : (name ++ c :: fncode ++ 125 :: rest ++ [0]).drop (name.length + 1) =
            fncode ++ 125 :: rest ++ [0] := by
          have hassoc : name ++ c :: fncode ++ 125 :: rest ++ [0] =
              (name ++ [c]) ++ (fncode ++ 125 :: rest ++ [0]) := by simp
          rw [hassoc]
          exact drop_left' (by simp)
        rw [hdrop]
        cases fncode with
        | nil =>
          have hminus : ¬(125 : UInt8) = 45 := by decide
          rw [nil_append, cons_append, load_bind, if_neg hminus, ← cons_append, offsetOf_string]
          rfl
        | cons e default =>
          show (if e = 45 then _ else _) = _
          by_cases he : e = 45
          · rw [if_pos he]
            subst he
            have htake : ((45 :: default ++ 125 :: rest ++ [0]).drop 1).take
                ((45 :: default ++ 125 :: rest ++ [0]).length - (rest ++ [0]).length - 2) = default := by
              have hlen : (45 :: default ++ 125 :: rest ++ [0]).length - (rest ++ [0]).length - 2 =
                  default.length := by
                simp only [length_append, length_cons]
                omega
              rw [hlen, drop_one, cons_append, cons_append, tail_cons, append_assoc]
              exact take_left' rfl
            show (scanMsgRef (rest ++ [0]) >>= _) = _
            rw [scanMsgRef_string, htake]
            rfl
          · rw [if_neg he, offsetOf_string]
            show (ok _ : Scan (ScanStep F)) = _
            split
            · rename_i heq
              cases heq
            · rename_i heq
              exact absurd (List.cons.inj (List.cons.inj heq).2).1 he
            · rename_i heq
              cases heq
              rfl
    · rw [if_neg hcolon]
      have hall : ∀ c ∈ body, decide (c ≠ 58) = true := fun c hc => by
        have hne : c ≠ 58 := fun h => hcolon (h ▸ hc)
        simpa using hne
      have hname : body.takeWhile (· ≠ 58) = body := takeWhile_eq_self_iff.mpr hall
      have hnil : body.dropWhile (· ≠ 58) = [] := dropWhile_eq_nil_iff.mpr hall
      show (scanMsgRef (rest ++ [0]) >>= _) = _
      rw [scanMsgRef_string, hname, hnil]
      rfl

theorem scanFunc_string (hzero : 0 ∉ text) :
    scanFunc env template lastText (text ++ [0]) =
      .ok ((compileFunc env template lastText text).map onString) := by
  have hskip : skipWhile (fun c => c ≠ 0 && c = 32) (text ++ [0]) = .ok (text.dropWhile (· = 32) ++ [0]) := by
    rw [skipWhile_string (by decide), dropWhile_congr]
    intro c hc
    have hne : c ≠ 0 := fun h => hzero (h ▸ hc)
    simp [hne]
  have hle := (dropWhile_sublist (fun c : UInt8 => decide (c = 32)) (l := text)).length_le
  have hargs := @scanFuncArgs_string (text ++ [0]).length (text.dropWhile (· = 32))
    (by rw [length_append]; exact Nat.lt_succ_of_le hle)
    (fun h => hzero ((dropWhile_sublist _).mem h)) none 1 [] []
  unfold scanFunc compileFunc
  rw [hskip]
  show (scanFuncArgs _ none 1 [] [] _ >>= _) = _
  rw [hargs]
  generalize scanArgs none 1 false [] [] (text.dropWhile (· = 32)) = r
  obtain ⟨strv, argBuf, p⟩ := r
  dsimp only
  cases p with
  | nil =>
    show (ok (error _) : Scan (ScanStep F)) = _
    rw [offsetOf_string]
    rfl
  | cons c rest =>
    show (if c ≠ 41 then _ else _) = _
    by_cases hc : c = 41
    · rw [if_neg (not_not_intro hc)]
      subst hc
      show (scanMsgRef (rest ++ [0]) >>= _) = _
      rw [scanMsgRef_string]
      show (if _ then _ else _) = Except.ok (Except.map onString (if _ then _ else _))
      by_cases hstrv : (if argBuf = [] then strv else strv ++ [argBuf]) = []
      · rw [if_pos hstrv, if_pos hstrv]
        rfl
      · rw [if_neg hstrv, if_neg hstrv]
        cases env.prepare (if argBuf = [] then strv else strv ++ [argBuf]) with
        | none => rfl
        | some func => rfl
    · rw [if_pos hc]
      show (ok (error _) : Scan (ScanStep F)) = _
      rw [offsetOf_string]
      split
      · rename_i heq
        exact absurd (List.cons.inj heq).1 hc
      · rfl

theorem scanRound_string {c : UInt8} (hzero : 0 ∉ c :: text) (hdollar : c :: text ≠ [36]) :
    scanRound env template lastText c (text ++ [0]) =
      .ok ((compileStep env template lastText c text).map onString) := by
  have hzero : 0 ∉ text := fun h => hzero (mem_cons_of_mem _ h)
  unfold scanRound compileStep
  by_cases h92 : c = 92
  · rw [if_pos h92, if_pos h92]
    cases text with
    | nil => rfl
    | cons d text =>
      have hd : d ≠ 0 := fun h => hzero (h ▸ mem_cons_self)
      rw [cons_append, load_bind, if_pos hd]
      rfl
  · rw [if_neg h92, if_neg h92]
    by_cases h36 : c = 36
    · rw [if_pos h36, if_pos h36]
      cases text with
      | nil => exact absurd (congrArg (· :: []) h36) hdollar
      | cons d text =>
        have hzero : 0 ∉ text := fun h => hzero (mem_cons_of_mem _ h)
        unfold scanDollar compileDollar
        rw [cons_append, load_bind]
        dsimp only
        by_cases h123 : d = 123
        · rw [if_pos h123, if_pos h123, tail_cons]
          exact scanBraced_string hzero
        · rw [if_neg h123, if_neg h123]
          by_cases h40 : d = 40
          · rw [if_pos h40, if_pos h40, tail_cons]
            exact scanFunc_string hzero
          · rw [if_neg h40, if_neg h40]
            by_cases hname : isNameChar d = true
            · rw [if_pos hname, if_pos hname, tail_cons, skipWhile_string (by decide), ok_bind]
              have htake : (d :: (text ++ [0])).take
                  ((d :: (text ++ [0])).length - (text.dropWhile isNameChar ++ [0]).length) =
                    d :: text.takeWhile isNameChar := by
                have happ := @List.takeWhile_append_dropWhile _ isNameChar text
                generalize text.takeWhile isNameChar = name at happ ⊢
                generalize text.dropWhile isNameChar = rest at happ ⊢
                subst happ
                rw [append_assoc, ← cons_append]
                refine take_left' ?_
                simp only [length_append, length_cons]
                omega
              rw [htake]
              rfl
            · rw [if_neg hname, if_neg hname]
              by_cases hdouble : d = 36
              · rw [if_pos hdouble, if_pos hdouble]
                rfl
              · rw [if_neg hdouble, if_neg hdouble]
                rfl
    · rw [if_neg h36, if_neg h36]
      rfl

/-! ## The loop -/

variable {step : CompileStep F}

theorem behind_braced
    (hstep : compileBraced env template lastText text = .ok step) :
    Behind env (36 :: 123 :: text) step.rest := by
  unfold compileBraced at hstep
  have happ := @List.takeWhile_append_dropWhile _ (fun c => decide (c ≠ 125)) text
  have hbody : (125 : UInt8) ∉ text.takeWhile (· ≠ 125) := by
    intro hmem
    have hne := mem_takeWhile_imp hmem
    simp at hne
  cases hrest : text.dropWhile (· ≠ 125) with
  | nil =>
    rw [hrest] at hstep
    cases hstep
  | cons d rest =>
    have hd : d = 125 := by
      have hhead := head?_dropWhile_not (fun c : UInt8 => decide (c ≠ 125)) text
      rw [hrest] at hhead
      simpa using hhead
    subst hd
    rw [hrest] at hstep happ
    dsimp only at hstep
    generalize text.takeWhile (· ≠ 125) = body at hstep happ hbody
    subst happ
    have hdrop : (body.dropWhile (· ≠ 58) = [] ∨ (body.dropWhile (· ≠ 58)).tail.head? = some 45) ∧
        step.rest = (parseMsgRef rest).2 := by
      split at hstep
      · rename_i heq
        cases hstep
        exact ⟨.inl heq, rfl⟩
      · rename_i heq
        cases hstep
        exact ⟨.inr (by rw [heq]; rfl), rfl⟩
      · cases hstep
    rw [hdrop.2]
    refine .braced body rest hbody fun hcolon => hdrop.1.resolve_left fun hnil => ?_
    have hne := dropWhile_eq_nil_iff.mp hnil 58 hcolon
    simp at hne

theorem behind_func
    (hstep : compileFunc env template lastText text = .ok step) :
    Behind env (36 :: 40 :: text) step.rest := by
  unfold compileFunc at hstep
  rcases hscan : scanArgs none 1 false [] [] (text.dropWhile (· = 32)) with ⟨strv, argBuf, p⟩
  rw [hscan] at hstep
  dsimp only at hstep
  by_cases hclosed : ∃ rest, p = 41 :: rest
  · obtain ⟨rest, rfl⟩ := hclosed
    generalize hargs : (if argBuf = [] then strv else strv ++ [argBuf]) = args at hstep
    have hstep : (if args = [] then _ else _) = ok step := hstep
    have hstep : step.rest = (parseMsgRef rest).2 ∧ (args ≠ [] → (env.prepare args).isSome = true) := by
      by_cases hnil : args = []
      · rw [if_pos hnil] at hstep
        cases hstep
        exact ⟨rfl, fun hne => absurd hnil hne⟩
      · rw [if_neg hnil] at hstep
        cases hprepare : env.prepare args with
        | none =>
          rw [hprepare] at hstep
          cases hstep
        | some func =>
          rw [hprepare] at hstep
          cases hstep
          exact ⟨rfl, fun _ => rfl⟩
    rw [hstep.1]
    exact .func text rest argBuf strv hscan (by rw [hargs]; exact hstep.2)
  · split at hstep
    · exact absurd ⟨_, rfl⟩ hclosed
    · cases hstep

theorem behind_step {c : UInt8} (hdollar : c :: text ≠ [36])
    (hstep : compileStep env template lastText c text = .ok step) : Behind env (c :: text) step.rest := by
  unfold compileStep at hstep
  by_cases h92 : c = 92
  · rw [if_pos h92] at hstep
    subst h92
    cases text with
    | nil =>
      cases hstep
      exact .backslash
    | cons d text =>
      cases hstep
      exact .escaped d text
  · rw [if_neg h92] at hstep
    by_cases h36 : c = 36
    · rw [if_pos h36] at hstep
      subst h36
      cases text with
      | nil => exact absurd rfl hdollar
      | cons d text =>
        unfold compileDollar at hstep
        dsimp only at hstep
        by_cases h123 : d = 123
        · rw [if_pos h123] at hstep
          subst h123
          exact behind_braced hstep
        · rw [if_neg h123] at hstep
          by_cases h40 : d = 40
          · rw [if_pos h40] at hstep
            subst h40
            exact behind_func hstep
          · rw [if_neg h40] at hstep
            by_cases hname : isNameChar d = true
            · rw [if_pos hname] at hstep
              cases hstep
              exact .name d text hname
            · rw [if_neg hname] at hstep
              have hrest : step.rest = text := by
                split at hstep <;> cases hstep <;> rfl
              rw [hrest]
              exact .dollar d text h123 h40 (by simpa using hname)
    · rw [if_neg h36] at hstep
      cases hstep
      exact .literal c text h92 h36

theorem step_behind {text rest : List UInt8} (h : Behind env text rest) :
    ∃ c t, text = c :: t ∧ text ≠ [36] ∧
      ∃ step, compileStep env template lastText c t = .ok step ∧ step.rest = rest := by
  cases h with
  | backslash => exact ⟨92, [], rfl, by decide, _, rfl, rfl⟩
  | escaped d rest => exact ⟨92, d :: rest, rfl, by simp, _, rfl, rfl⟩
  | literal c rest h92 h36 =>
    refine ⟨c, rest, rfl, fun h => h36 (List.cons.inj h).1, ⟨rest, none, some (lastText ++ [c])⟩, ?_, rfl⟩
    unfold compileStep
    rw [if_neg h92, if_neg h36]
  | dollar c rest h123 h40 hname =>
    by_cases hdouble : c = 36
    · subst hdouble
      exact ⟨36, 36 :: rest, rfl, by simp, _, rfl, rfl⟩
    · refine ⟨36, c :: rest, rfl, by simp, ⟨rest, none, some (lastText ++ [36, c])⟩, ?_, rfl⟩
      show compileDollar env template lastText (c :: rest) = _
      unfold compileDollar
      dsimp only
      rw [if_neg h123, if_neg h40, if_neg (by rw [hname]; exact Bool.false_ne_true), if_neg hdouble]
  | name c text hname =>
    refine ⟨36, c :: text, rfl, by simp, ⟨text.dropWhile isNameChar,
      some (nameElem env lastText (c :: text.takeWhile isNameChar) none 0), none⟩, ?_, rfl⟩
    have h123 : c ≠ 123 := by rintro rfl; exact absurd hname (by decide)
    have h40 : c ≠ 40 := by rintro rfl; exact absurd hname (by decide)
    show compileDollar env template lastText (c :: text) = _
    unfold compileDollar
    dsimp only
    rw [if_neg h123, if_neg h40, if_pos hname]
  | braced body rest hbody hcolon =>
    refine ⟨36, _, rfl, by simp, ?_⟩
    have hall : ∀ c ∈ body, decide (c ≠ 125) = true := fun c hc => by
      have hne : c ≠ 125 := fun h => hbody (h ▸ hc)
      simpa using hne
    have htake : (body ++ 125 :: rest).takeWhile (· ≠ 125) = body := by
      rw [takeWhile_append_of_pos hall, takeWhile_cons_of_neg (by decide), append_nil]
    have hdrop : (body ++ 125 :: rest).dropWhile (· ≠ 125) = 125 :: rest := by
      rw [dropWhile_append_of_pos hall, dropWhile_cons_of_neg (by decide)]
    show ∃ step, compileBraced env template lastText (body ++ 125 :: rest) = .ok step ∧ _
    unfold compileBraced
    rw [htake, hdrop]
    dsimp only
    cases hfn : body.dropWhile (· ≠ 58) with
    | nil => exact ⟨_, rfl, rfl⟩
    | cons c fncode =>
      have hmem : (58 : UInt8) ∈ body := by
        have hc : c = 58 := by
          have hhead := head?_dropWhile_not (fun c : UInt8 => decide (c ≠ 58)) body
          rw [hfn] at hhead
          simpa using hhead
        exact hc ▸ (dropWhile_sublist _).mem (hfn ▸ mem_cons_self)
      have hminus := hcolon hmem
      rw [hfn] at hminus
      cases fncode with
      | nil => cases hminus
      | cons d default =>
        cases hminus
        exact ⟨_, rfl, rfl⟩
  | func text rest argBuf strv hscan hprepare =>
    refine ⟨36, _, rfl, by simp, ?_⟩
    show ∃ step, compileFunc env template lastText text = .ok step ∧ _
    unfold compileFunc
    rw [hscan]
    dsimp only
    generalize (if argBuf = [] then strv else strv ++ [argBuf]) = args at hprepare ⊢
    by_cases hnil : args = []
    · exact ⟨_, if_pos hnil, rfl⟩
    · obtain ⟨func, hfunc⟩ := Option.isSome_iff_exists.mp (hprepare hnil)
      show ∃ step, (if args = [] then _ else _) = _ ∧ _
      rw [if_neg hnil, hfunc]
      exact ⟨_, rfl, rfl⟩

theorem parseMsgRef_suffix (text : List UInt8) : (parseMsgRef text).2 <:+ text := by
  unfold parseMsgRef
  split
  · rename_i text
    exact (dropWhile_suffix isDigit).trans (suffix_cons 64 text)
  · exact suffix_rfl

theorem scanArgs_suffix (quote : Option UInt8) (parens : Nat) (white : Bool) (argBuf : List UInt8)
    (strv : List (List UInt8)) (text : List UInt8) :
    (scanArgs quote parens white argBuf strv text).2.2 <:+ text := by
  fun_induction scanArgs quote parens white argBuf strv text
  -- a round ends the loop, or takes one byte or two
  case case1 => exact nil_suffix
  case case5 => exact nil_suffix
  case case10 => exact suffix_rfl
  case case6 ih => exact ih.trans ((suffix_cons _ _).trans (suffix_cons _ _))
  all_goals
    rename_i ih
    exact ih.trans (suffix_cons _ _)

theorem Behind.suffix {text rest : List UInt8} (h : Behind env text rest) :
    ∃ c t, text = c :: t ∧ rest <:+ t := by
  cases h with
  | backslash => exact ⟨92, [], rfl, suffix_rfl⟩
  | escaped d rest => exact ⟨92, d :: rest, rfl, suffix_cons d rest⟩
  | literal c rest _ _ => exact ⟨c, rest, rfl, suffix_rfl⟩
  | dollar c rest _ _ _ => exact ⟨36, c :: rest, rfl, suffix_cons c rest⟩
  | name c text _ => exact ⟨36, c :: text, rfl, (dropWhile_suffix _).trans (suffix_cons c text)⟩
  | braced body rest _ _ =>
    refine ⟨36, _, rfl, (parseMsgRef_suffix rest).trans ⟨123 :: (body ++ [125]), ?_⟩⟩
    rw [cons_append, append_assoc]
    rfl
  | func text rest argBuf strv hscan _ =>
    have hrest : 41 :: rest <:+ text.dropWhile (· = 32) := by
      have h := scanArgs_suffix none 1 false [] [] (text.dropWhile (· = 32))
      rwa [hscan] at h
    exact ⟨36, 40 :: text, rfl, (parseMsgRef_suffix rest).trans ((suffix_cons 41 rest).trans
      (hrest.trans ((dropWhile_suffix _).trans (suffix_cons 40 text))))⟩

theorem trailingDollar_cons {c : UInt8} (hdollar : c :: text ≠ [36])
    (hstep : compileStep env template lastText c text = .ok step) :
    TrailingDollar env (c :: text) ↔ TrailingDollar env step.rest := by
  constructor
  · intro h
    rcases h.cases_head with heq | ⟨rest, hbehind, hrest⟩
    · exact absurd heq hdollar
    · -- the round goes on in one way only
      obtain ⟨c', t, heq, -, step', hstep', hrest'⟩ :=
        @step_behind M F env template lastText _ _ hbehind
      cases heq
      rw [hstep] at hstep'
      cases hstep'
      exact hrest' ▸ hrest
  · exact fun h => h.head (behind_step hdollar hstep)

theorem compileLoop_cons (n : Nat) (lastText : Option (List UInt8)) (c : UInt8) (text : List UInt8) :
    compileLoop env template (n + 1) lastText (c :: text) =
      (compileStep env template (lastText.getD []) c text).bind fun step =>
        (compileLoop env template n step.lastText step.rest).map (step.elem.toList ++ ·) := by
  cases lastText with
  | none | some lastText =>
    conv_lhs => unfold compileLoop
    cases compileStep env template _ c text with
    | error e => rfl
    | ok step =>
      show _ = (compileLoop env template n step.lastText step.rest).map (step.elem.toList ++ ·)
      dsimp only
      cases compileLoop env template n step.lastText step.rest with
      | error e => rfl
      | ok elems => rfl

theorem scanLoop_string {rounds n : Nat} (hrounds : text.length < rounds)
    (hn : text.length ≤ n) (hzero : 0 ∉ text) (hdollar : ¬TrailingDollar env text)
    (lastText : Option (List UInt8)) (compiledTemplate : List (LogTemplateElem F)) :
    scanLoop env template rounds lastText compiledTemplate (text ++ [0]) =
      .ok ((compileLoop env template n lastText text).map (compiledTemplate ++ ·)) := by
  induction rounds generalizing n text lastText compiledTemplate with
  | zero => exact absurd hrounds (Nat.not_lt_zero _)
  | succ rounds ih =>
    cases text with
    | nil =>
      unfold scanLoop
      cases lastText with
      | none =>
        cases n <;> exact congrArg (fun elems => ok (ok elems)) (append_nil _).symm
      | some lastText => cases n <;> rfl
    | cons c text =>
      cases n with
      | zero => exact absurd hn (Nat.not_succ_le_zero _)
      | succ n =>
        have hc : c ≠ 0 := fun h => hzero (h ▸ mem_cons_self)
        have hne : c :: text ≠ [36] := fun h => hdollar (h ▸ Relation.ReflTransGen.refl)
        rw [compileLoop_cons]
        unfold scanLoop
        rw [cons_append, load_bind, if_neg hc, tail_cons, scanRound_string hzero hne]
        cases hstep : compileStep env template (lastText.getD []) c text with
        | error e => rfl
        | ok step =>
          obtain ⟨c', t, heq, hsuffix⟩ := (behind_step hne hstep).suffix
          cases heq
          have hle := hsuffix.length_le
          have hrun := ih (Nat.lt_of_le_of_lt hle (Nat.lt_of_succ_lt_succ hrounds))
            (Nat.le_trans hle (Nat.le_of_succ_le_succ hn))
            (fun h => hzero (mem_cons_of_mem _ (hsuffix.mem h)))
            (mt (trailingDollar_cons hne hstep).mpr hdollar) step.lastText
            (compiledTemplate ++ step.elem.toList)
          show scanLoop env template rounds step.lastText (compiledTemplate ++ step.elem.toList)
            (step.rest ++ [0]) = _
          rw [hrun]
          show _ = Except.ok (Except.map _ (Except.map _ _))
          cases compileLoop env template n step.lastText step.rest with
          | error e => rfl
          | ok elems =>
            exact congrArg (fun elems => ok (ok elems)) (append_assoc _ _ elems)

theorem scanLoop_outside {rounds : Nat} (hrounds : text.length < rounds)
    (hzero : 0 ∉ text) (hdollar : TrailingDollar env text) (lastText : Option (List UInt8))
    (compiledTemplate : List (LogTemplateElem F)) :
    scanLoop env template rounds lastText compiledTemplate (text ++ [0]) = .error .outside := by
  induction rounds generalizing text lastText compiledTemplate with
  | zero => exact absurd hrounds (Nat.not_lt_zero _)
  | succ rounds ih =>
    rcases hdollar.cases_head with rfl | ⟨rest, hbehind, hrest⟩
    · cases rounds with
      | zero => exact absurd hrounds (by decide)
      | succ rounds => rfl
    · obtain ⟨c, t, rfl, hne, step, hstep, rfl⟩ :=
        @step_behind M F env template (lastText.getD []) _ _ hbehind
      obtain ⟨c', t', heq, hsuffix⟩ := hbehind.suffix
      cases heq
      have hc : c ≠ 0 := fun h => hzero (h ▸ mem_cons_self)
      unfold scanLoop
      rw [cons_append, load_bind, if_neg hc, tail_cons, scanRound_string hzero hne, hstep]
      exact ih (Nat.lt_of_le_of_lt hsuffix.length_le (Nat.lt_of_succ_lt_succ hrounds))
        (fun h => hzero (mem_cons_of_mem _ (hsuffix.mem h))) hrest _ _

theorem scanTemplate_string (hzero : 0 ∉ template) (hdollar : ¬TrailingDollar env template) :
    scanTemplate env template = .ok (logTemplateCompile env template) := by
  unfold scanTemplate logTemplateCompile
  rw [scanLoop_string (Nat.lt_succ_self _) (Nat.le_refl _) hzero hdollar]
  cases compileLoop env template template.length none template with
  | error e => rfl
  | ok elems => rfl

end

variable {M F : Type}

/-- The compilation of a string ends without reading a byte behind its NUL byte, and leaves exactly one
literal element if it fails, if and only if the last piece of the string is not a `$` alone. -/
theorem scan_template_safe_iff (env : TemplateEnv M F) {template : List UInt8} (hzero : 0 ∉ template) :
    (∃ elems error, scanTemplate env template = .ok (elems, error) ∧
      (error ≠ none → ∃ text, elems = [⟨text, .macro_ 0 none, 0⟩])) ↔ ¬TrailingDollar env template := by
  constructor
  · rintro ⟨elems, error, hscan, -⟩ hdollar
    unfold scanTemplate at hscan
    rw [scanLoop_outside (Nat.lt_succ_self _) hzero hdollar] at hscan
    cases hscan
  · intro hdollar
    rw [scanTemplate_string hzero hdollar]
    refine ⟨_, _, rfl, ?_⟩
    cases compileLoop env template template.length none template with
    | error e => exact fun _ => ⟨_, rfl⟩
    | ok elems => exact fun h => absurd rfl h

def noMacros : TemplateEnv Unit Unit :=
  ⟨fun _ => 0, fun _ _ => [], fun _ _ => ⟨[], 0⟩, false, fun _ => none, fun _ _ => []⟩

/-- `a$$`. -/
theorem scan_template_safe_double : ∃ elems error, scanTemplate noMacros [97, 36, 36] = .ok (elems, error) ∧
    (error ≠ none → ∃ text, elems = [⟨text, .macro_ 0 none, 0⟩]) := by
  refine (scan_template_safe_iff noMacros (by decide)).mpr fun h => ?_
  rcases h.cases_head with heq | ⟨rest, hbehind, hrest⟩
  · cases heq
  · cases hbehind with
    | literal _ _ _ _ =>
      rcases hrest.cases_head with heq | ⟨rest, hbehind, hrest⟩
      · cases heq
      · cases hbehind with
        | literal _ _ _ h36 => exact h36 rfl
        | name _ _ hname => exact absurd hname (by decide)
        | dollar _ _ _ _ _ =>
          rcases hrest.cases_head with heq | ⟨rest, hbehind, -⟩
          · cases heq
          · obtain ⟨c, t, heq, -⟩ := hbehind.suffix
            cases heq

/-- `a$`. -/
theorem scan_behind_string : scanTemplate noMacros [97, 36] = .error .outside := by decide +kernel

end SyslogNg.Template
