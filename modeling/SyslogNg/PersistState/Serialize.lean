import SyslogNg.Lib.Reader

/-!
# Archives (`lib/serialize.c`)

Archives on strings and on buffers; their sizes are those of objects in memory, so that sums of them do not
wrap. `none` stands for an access outside of the bytes of an archive.
-/

namespace SyslogNg.Serialize

open List Lib

/-- `bytes` is the text of the string, or the whole buffer. -/
structure SerializeArchive where
  isString : Bool
  bytes : List UInt8
  pos : Nat
  error : Bool
  deriving DecidableEq

/-- The unsigned integers have 1, 2, 4 or 8 bytes. -/
inductive Value where
  | uint (size n : Nat)
  | blob (bytes : List UInt8)
  | string (text : List UInt8)
  | cstring (text : List UInt8)
  deriving DecidableEq

/-- What is read; a string has room for some bytes. -/
inductive Field where
  | uint (size : Nat)
  | blob (len : Nat)
  | string (allocatedLen : Nat)
  | cstring

/-- A value, or the answer `FALSE`, and the archive. -/
abbrev Result (α : Type) := Option (Option α × SerializeArchive)

section

variable {α β : Type}

def mapValue (f : α → β) (r : Result α) : Result β := r.map fun (a, self) => (a.map f, self)

def andThen (r : Result α) (f : α → SerializeArchive → Result β) : Result β :=
  r.bind fun
    | (none, self) => some (none, self)
    | (some a, self) => f a self

end

namespace SerializeArchive

end SerializeArchive

open SerializeArchive

section

variable {α β : Type} {granted : Prop} {self self' : SerializeArchive} {r : Result α}

/-- A buffer stays in its place, an error stays, and what fails leaves an error. -/
def Sound (granted : Prop) (self : SerializeArchive) (r : Result α) : Prop :=
  ∃ a self', r = some (a, self') ∧
    (self.isString = false → self'.isString = false ∧ self'.bytes.length = self.bytes.length) ∧
    (self.error = true → a = none) ∧ (granted → a = none → self'.error = true)

theorem Sound.map (h : Sound granted self r) (f : α → β) : Sound granted self (mapValue f r) := by
  obtain ⟨a, self', rfl, hbuffer, herror, hfail⟩ := h
  refine ⟨a.map f, self', rfl, hbuffer, fun he => by rw [herror he]; rfl, fun hg hnone => hfail hg ?_⟩
  exact Option.map_eq_none_iff.mp hnone

theorem Sound.andThen {f : α → SerializeArchive → Result β} (h : Sound granted self r)
    (hf : ∀ a self', r = some (some a, self') → Sound granted self' (f a self')) :
    Sound granted self (andThen r f) := by
  obtain ⟨a, self', rfl, hbuffer, herror, hfail⟩ := h
  cases a with
  | none => exact ⟨none, self', rfl, hbuffer, fun _ => rfl, fun hg _ => hfail hg rfl⟩
  | some a =>
    obtain ⟨b, self'', hb, hbuffer', -, hfail'⟩ := hf a self' rfl
    refine ⟨b, self'', hb, fun hs => ?_, fun he => absurd (herror he) nofun, hfail'⟩
    obtain ⟨hs', hlen⟩ := hbuffer hs
    exact ⟨(hbuffer' hs').1, (hbuffer' hs').2.trans hlen⟩

end

/-! ## Round trips -/

/-- A value that is written and read, and the room of the string it is read to. -/
def Value.field (allocatedLen : Nat) : Value → Field
  | .uint size _ => .uint size
  | .blob bytes => .blob bytes.length
  | .string _ => .string allocatedLen
  | .cstring _ => .cstring

def textBytes (text : List UInt8) : List UInt8 := beBytes 4 text.length ++ text

def Value.bytes : Value → List UInt8
  | .uint size n => beBytes size n
  | .blob bytes => bytes
  | .string text => textBytes text
  | .cstring text => textBytes text

def Value.Fits : Value → Prop
  | .uint size n => n < 256 ^ size
  | .string text => text.length < 2 ^ 32 - 1
  | .cstring text => text.length < 2 ^ 32 - 1
  | _ => True

/-- An archive with some text, that was read or is to be read. -/
def readAt (isString : Bool) (text rest : List UInt8) : SerializeArchive :=
  ⟨isString, text ++ rest, text.length, false⟩

section

variable {isString : Bool} {text free : List UInt8}

end

end SyslogNg.Serialize
