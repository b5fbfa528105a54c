import SyslogNg.Template.Compile

/-!
# What a template means

A template is written as a sequence of segments: literal text, `$NAME` and `${NAME:-default}@n`.
`log_template_means`: the text of the segments is compiled, and expanded to the concatenation of
their meanings. It has to be read as it was written (`Readable`), the index of a message has to
have one digit, and a value must not start with a NUL byte.
-/

namespace SyslogNg.Template

open Lib List Option

variable {M F : Type}

inductive Segment where
  | literal (text : List UInt8)
  | simple (name : List UInt8)
  | braced (name : List UInt8) (defaultValue : Option (List UInt8)) (ref : Option Nat)
  deriving DecidableEq

namespace Segment

/-- Literal text with `$` doubled and the backslash escaped. -/
def escapeLiteral (c : UInt8) : List UInt8 :=
  if c = 36 then [36, 36] else if c = 92 then [92, 92] else [c]

/-- `:-default`. -/
def defaultText : Option (List UInt8) → List UInt8
  | none => []
  | some default => 58 :: 45 :: default

/-- `@n`. -/
def refText : Option Nat → List UInt8
  | none => []
  | some n => 64 :: decimal n

def text : Segment → List UInt8
  | literal text => text.flatMap escapeLiteral
  | simple name => 36 :: name
  | braced name default ref => 36 :: 123 :: (name ++ defaultText default ++ 125 :: refText ref)

/-- What can be written: no NUL bytes, names of name characters, and no brace or colon that would
end a name in braces. -/
def Valid : Segment → Prop
  | literal text => 0 ∉ text
  | simple name => name ≠ [] ∧ ∀ c ∈ name, isNameChar c = true
  | braced name default _ => (∀ c ∈ name, c ≠ 125 ∧ c ≠ 58 ∧ c ≠ 0) ∧
      ∀ d, default = some d → ∀ c ∈ d, c ≠ 125 ∧ c ≠ 0

/-- The message at an index, counted backwards from the last one. -/
def messageAt (messages : List M) (n : Nat) : Option M := messages.reverse[n]?

/-- The text behind a segment does not go on with it. -/
def Ends (behind : List UInt8) : Segment → Prop
  | literal _ => True
  | simple _ => ∀ c rest, behind = c :: rest → isNameChar c = false
  | braced _ _ none => ∀ rest, behind ≠ 64 :: rest
  | braced _ _ (some _) => ∀ c rest, behind = c :: rest → isDigit c = false

end Segment

def templateText (segments : List Segment) : List UInt8 := segments.flatMap Segment.text

/-- Every segment is read as it was written. -/
def Readable : List Segment → Prop
  | [] => True
  | segment :: segments => segment.Ends (templateText segments) ∧ Readable segments

inductive Renders (env : TemplateEnv M F) (messages : List M) :
    List (LogTemplateElem F) → List UInt8 → Prop where
  | nil : Renders env messages [] []
  | cons {elem : LogTemplateElem F} {elems : List (LogTemplateElem F)} {text out : List UInt8} :
      expandElem env messages elem = some text → Renders env messages elems out →
      Renders env messages (elem :: elems) (elem.text ++ text ++ out)

section

variable {env : TemplateEnv M F} {messages : List M} {template : List UInt8}

variable {out rest : List UInt8}

theorem Renders.format {elems : List (LogTemplateElem F)} (h : Renders env messages elems out)
    (result : List UInt8) :
    logTemplateAppendFormatWithContext env messages elems result = some (result ++ out) := by
  induction h generalizing result with
  | nil => rw [logTemplateAppendFormatWithContext, append_nil]
  | cons hexp _ ih =>
    rw [logTemplateAppendFormatWithContext, hexp, bind_some, ih]
    simp only [append_assoc]

variable {name : List UInt8}

variable {default : Option (List UInt8)}

variable (env messages template) in
/-- From any text that was read before, the loop compiles a text to elements that expand to
`out`. -/
def Compiles (text out : List UInt8) : Prop :=
  ∀ fuel, text.length ≤ fuel → ∀ lastText : Option (List UInt8),
    ∃ elems, compileLoop env template fuel lastText text = .ok elems ∧
      Renders env messages elems (lastText.getD [] ++ out)

end

end SyslogNg.Template
