import SyslogNg.Lib.CInt
import SyslogNg.Time.LogStamp

/-!
# Templates (`lib/templates.c`)

`log_template_compile` turns the text of a template into a list of elements, each with the literal
text in front of it; `log_template_append_format_with_context` expands them. The macros, the
name-value pairs of the messages and the template functions are parameters.

A text has no NUL byte. The index of a message is kept with one added to it, so that 0 is no index.
-/

namespace SyslogNg.Template

open Lib

/-- What `log_msg_get_value` returns: `value_len` bytes, and the byte behind them, which is 0 unless
the value is a part of another one. -/
structure LogValue where
  bytes : List UInt8
  behind : UInt8
  deriving DecidableEq

/-- `value[0]`. -/
def LogValue.first (value : LogValue) : UInt8 := value.bytes.headD value.behind

/-- What a template is compiled and expanded with: the table of macros, where 0 is `M_NONE`,
`log_macro_expand`, the name-value pairs of a message, `self->escape`, and the plugins. -/
structure TemplateEnv (M F : Type) where
  macroHash : List UInt8 → Nat
  macroExpand : Nat → M → List UInt8
  getValue : M → List UInt8 → LogValue
  escape : Bool
  prepare : List (List UInt8) → Option F
  call : F → List M → List UInt8

inductive LogTemplateElemType (F : Type) where
  | macro_ (id : Nat) (defaultValue : Option (List UInt8))
  | value (name : List UInt8) (defaultValue : Option (List UInt8))
  | func (func : F)
  deriving DecidableEq

structure LogTemplateElem (F : Type) where
  text : List UInt8
  type : LogTemplateElemType F
  msgRef : Int
  deriving DecidableEq

inductive TemplateError where
  | compile (errorInfo : String) (errorPos : Nat)
  | function
  deriving DecidableEq

variable {M F : Type}

/-- `A-Z`, `a-z`, `_` and `0-9`. -/
def isNameChar (c : UInt8) : Bool :=
  (65 ≤ c && c ≤ 90) || (97 ≤ c && c ≤ 122) || c == 95 || (48 ≤ c && c ≤ 57)

def isDigit (c : UInt8) : Bool := 48 ≤ c && c ≤ 57

/-! ## Compilation -/

/-- The loop of `parse_msg_ref`. -/
def readMsgRef (msgRef : Int) (digits : List UInt8) : Int :=
  digits.foldl (fun msgRef c => wrap32 (msgRef + (msgRef * 10 + (c.toNat - 48)))) msgRef

/-- `parse_msg_ref`: the reference, and the text behind it. -/
def parseMsgRef : List UInt8 → Int × List UInt8
  | 64 :: text => (wrap32 (readMsgRef 0 (text.takeWhile isDigit) + 1), text.dropWhile isDigit)
  | text => (0, text)

/-- `log_macro_lookup`: the name is copied to a buffer of 256 bytes. -/
def logMacroLookup (env : TemplateEnv M F) (name : List UInt8) : Nat := env.macroHash (name.take 255)

/-- The element of a macro, or of a value if there is no such macro. -/
def nameElem (env : TemplateEnv M F) (text name : List UInt8) (defaultValue : Option (List UInt8))
    (msgRef : Int) : LogTemplateElem F :=
  if logMacroLookup env name = 0 then ⟨text, .value name defaultValue, msgRef⟩
  else ⟨text, .macro_ (logMacroLookup env name) defaultValue, msgRef⟩

/-- The arguments of a template function, from the text behind `$(`: `argBuf` is the argument that
is being read, `white` says that white space is skipped. The result has the text from the closing
parenthesis on. -/
def scanArgs : (quote : Option UInt8) → (parens : Nat) → (white : Bool) →
    (argBuf : List UInt8) → (strv : List (List UInt8)) → List UInt8 →
    List (List UInt8) × List UInt8 × List UInt8
  | _, _, _, argBuf, strv, [] => (strv, argBuf, [])
  | some q, parens, _, argBuf, strv, c :: text =>
    if q = c then
      scanArgs none parens false (if parens = 1 then argBuf else argBuf ++ [c]) strv text
    else scanArgs (some q) parens false (argBuf ++ [c]) strv text
  | none, parens, white, argBuf, strv, c :: text =>
    if white = true ∧ (c = 32 ∨ c = 9) then scanArgs none parens true argBuf strv text
    else if c = 92 then
      match text with
      | [] => (strv, argBuf, [])
      | d :: text => scanArgs none parens false (argBuf ++ [d]) strv text
    else if c = 34 ∨ c = 39 then
      scanArgs (some c) parens false (if parens = 1 then argBuf else argBuf ++ [c]) strv text
    else if parens = 1 ∧ (c = 32 ∨ c = 9) then
      scanArgs none parens true [] (strv ++ [argBuf]) text
    else if c = 40 then scanArgs none (parens + 1) false (argBuf ++ [c]) strv text
    else if c = 41 then
      if parens = 1 then (strv, argBuf, c :: text)
      else scanArgs none (parens - 1) false (argBuf ++ [c]) strv text
    else scanArgs none parens false (argBuf ++ [c]) strv text

/-- What a round of the loop leaves: the rest of the template, the element that was added, and
`last_text`, which is `none` behind an element. -/
structure CompileStep (F : Type) where
  rest : List UInt8
  elem : Option (LogTemplateElem F)
  lastText : Option (List UInt8)

/-- The number of bytes in front of the rest. -/
def posOf (template rest : List UInt8) : Nat := template.length - rest.length

/-- `${name:-default}@n`, behind the brace. -/
def compileBraced (env : TemplateEnv M F) (template lastText text : List UInt8) :
    Except TemplateError (CompileStep F) :=
  let body := text.takeWhile (· ≠ 125)
  match text.dropWhile (· ≠ 125) with
  | [] => .error (.compile "Invalid macro, '\x7d' is missing" template.length)
  | _ :: rest =>
    let name := body.takeWhile (· ≠ 58)
    let r := parseMsgRef rest
    match body.dropWhile (· ≠ 58) with
    | [] => .ok ⟨r.2, some (nameElem env lastText name none r.1), none⟩
    | _ :: 45 :: default =>
      .ok ⟨r.2, some (nameElem env lastText name (some default) r.1), none⟩
    | _ :: fncode =>
      .error (.compile "Unknown substitution function"
        (posOf template (fncode ++ (125 :: rest))))

/-- `$(function args)@n`, behind the parenthesis. -/
def compileFunc (env : TemplateEnv M F) (template lastText text : List UInt8) :
    Except TemplateError (CompileStep F) :=
  let r := scanArgs none 1 false [] [] (text.dropWhile (· = 32))
  let strv := if r.2.1 = [] then r.1 else r.1 ++ [r.2.1]
  match r.2.2 with
  | 41 :: rest =>
    let ref := parseMsgRef rest
    if strv = [] then .ok ⟨ref.2, none, none⟩
    else
      match env.prepare strv with
      | some func => .ok ⟨ref.2, some ⟨lastText, .func func, ref.1⟩, none⟩
      | none => .error .function
  | rest => .error (.compile
      "Invalid template function reference, missing function name or inbalanced '('"
      (posOf template rest))

/-- Behind a `$`. At the end of the template the code takes the NUL byte, and goes on behind it. -/
def compileDollar (env : TemplateEnv M F) (template lastText : List UInt8) :
    List UInt8 → Except TemplateError (CompileStep F)
  | [] => .ok ⟨[], none, some (lastText ++ [36, 0])⟩
  | c :: text =>
    if c = 123 then compileBraced env template lastText text
    else if c = 40 then compileFunc env template lastText text
    else if isNameChar c then
      .ok ⟨text.dropWhile isNameChar,
        some (nameElem env lastText (c :: text.takeWhile isNameChar) none 0), none⟩
    else if c = 36 then .ok ⟨text, none, some (lastText ++ [36])⟩
    else .ok ⟨text, none, some (lastText ++ [36, c])⟩

/-- One round of the loop of `log_template_compile`. -/
def compileStep (env : TemplateEnv M F) (template lastText : List UInt8) (c : UInt8)
    (text : List UInt8) : Except TemplateError (CompileStep F) :=
  if c = 92 then
    match text with
    | [] => .ok ⟨[], none, some lastText⟩
    | d :: text => .ok ⟨text, none, some (lastText ++ [d])⟩
  else if c = 36 then compileDollar env template lastText text
  else .ok ⟨text, none, some (lastText ++ [c])⟩

/-- The loop of `log_template_compile`, with at most as many rounds as there are bytes. -/
def compileLoop (env : TemplateEnv M F) (template : List UInt8) :
    Nat → Option (List UInt8) → List UInt8 → Except TemplateError (List (LogTemplateElem F))
  | _, none, [] => .ok []
  | _, some lastText, [] => .ok [⟨lastText, .macro_ 0 none, 0⟩]
  | 0, _, _ :: _ => .ok []
  | n + 1, lastText, c :: text =>
    match compileStep env template (lastText.getD []) c text with
    | .error e => .error e
    | .ok step =>
      match compileLoop env template n step.lastText step.rest with
      | .error e => .error e
      | .ok elems => .ok (step.elem.toList ++ elems)

/-- The text of a template that was not compiled. -/
def errorText : List UInt8 := "error in template: ".toUTF8.toList

/-- `log_template_compile`: the elements, and the error if it returns `FALSE`. -/
def logTemplateCompile (env : TemplateEnv M F) (template : List UInt8) :
    List (LogTemplateElem F) × Option TemplateError :=
  match compileLoop env template template.length none template with
  | .ok elems => (elems, none)
  | .error e => ([⟨errorText ++ template, .macro_ 0 none, 0⟩], some e)

/-! ## Expansion -/

def hexadecimal (n : Nat) : List UInt8 :=
  if n = 0 then [48]
  else (Nat.digits 16 n).reverse.map fun d => if d < 10 then UInt8.ofNat (48 + d) else UInt8.ofNat (87 + d)

/-- `format_uint32_padded`; it knows two bases, and appends nothing for another one. -/
def formatPadded (fieldLen : Nat) (padChar : UInt8) (base value : Nat) : List UInt8 :=
  if base = 10 then Time.formatUint32Padded fieldLen padChar value
  else if base = 16 then
    List.replicate (fieldLen - (hexadecimal (value % 2 ^ 32)).length) padChar ++ hexadecimal (value % 2 ^ 32)
  else []

def resultAppend (escape : Bool) (str : List UInt8) : List UInt8 :=
  if escape then
    str.flatMap fun c =>
      if c = 39 ∨ c = 34 ∨ c = 92 then [92, c]
      else if c < 32 then formatPadded 3 48 8 c.toNat else [c]
  else str

/-- What an element adds besides its text; it is `none` where a message outside of the context is
used. -/
def expandElem (env : TemplateEnv M F) (messages : List M) (elem : LogTemplateElem F) :
    Option (List UInt8) :=
  if elem.msgRef > messages.length then some []
  else
    let msgNdx := messages.length - elem.msgRef - if elem.msgRef = 0 then 1 else 0
    match elem.type with
    | .macro_ id defaultValue =>
      if id = 0 then some []
      else if msgNdx < 0 then none
      else (messages[msgNdx.toNat]?).map fun msg =>
        let text := env.macroExpand id msg
        if text = [] then defaultValue.getD [] else text
    | .value name defaultValue =>
      if msgNdx < 0 then none
      else (messages[msgNdx.toNat]?).map fun msg =>
        let value := env.getValue msg name
        if value.first ≠ 0 then resultAppend env.escape value.bytes
        else resultAppend env.escape (defaultValue.getD [])
    | .func func =>
      if elem.msgRef = 0 then some (env.call func messages)
      else if msgNdx < 0 then none
      else (messages[msgNdx.toNat]?).map fun msg => env.call func [msg]

def logTemplateAppendFormatWithContext (env : TemplateEnv M F) (messages : List M) :
    List (LogTemplateElem F) → List UInt8 → Option (List UInt8)
  | [], result => some result
  | elem :: elems, result => (expandElem env messages elem).bind fun text =>
    logTemplateAppendFormatWithContext env messages elems (result ++ elem.text ++ text)

end SyslogNg.Template
