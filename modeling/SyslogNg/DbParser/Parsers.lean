import SyslogNg.DbParser.Radix
import SyslogNg.Lib.CInt
import SyslogNg.Lib.Sentinel

/-!
# The parsers of the radix tree (`modules/dbparser/radix.c`)

An `r_parser_*` function gets the message from some byte on. What it may read is the bytes that
are left and the NUL behind them, `memOf str`; a read anywhere else gives `none`, as does the use
of a `NULL` structure. `some none` is `FALSE`. `*len` is a `gint`: the strings are shorter than
2^31 bytes, as `r_find_node` counts the bytes of a message in a `gint`.

The match structure is zero before the call, so that a parser that leaves it alone captures all
it takes. `state` is what `r_new_pnode` computes from `param`.
-/

namespace SyslogNg.DbParser

open Lib

/-! ## Bytes and strings -/

def asciiIsdigit (c : UInt8) : Bool := 48 ≤ c && c ≤ 57

def asciiIsxdigit (c : UInt8) : Bool :=
  asciiIsdigit c || (65 ≤ c && c ≤ 70) || (97 ≤ c && c ≤ 102)

def asciiIsalnum (c : UInt8) : Bool :=
  asciiIsdigit c || (65 ≤ c && c ≤ 90) || (97 ≤ c && c ≤ 122)

/-- `g_ascii_digit_value` of a digit. -/
def asciiDigitValue (c : UInt8) : Nat := c.toNat - 48

/-- `g_ascii_xdigit_value` of a hexadecimal digit. -/
def asciiXdigitValue (c : UInt8) : Nat :=
  if asciiIsdigit c then c.toNat - 48 else if c ≤ 70 then c.toNat - 55 else c.toNat - 87

/-- `strchr (s, c) != NULL`: the NUL at the end of `s` is one of its bytes. -/
def strchr (s : List UInt8) (c : UInt8) : Bool := c = 0 || s.contains c

/-- `strchr (s, c) - s`. -/
def strchrOfs (s : List UInt8) (c : UInt8) : Option Nat := (s ++ [0]).findIdx? (· = c)

/-- `strstr (s, needle) - s`. -/
def strstrOfs (needle : List UInt8) : List UInt8 → Option Nat
  | [] => if needle = [] then some 0 else none
  | c :: s => if needle.isPrefixOf (c :: s) then some 0 else (strstrOfs needle s).map (· + 1)

/-- What a parser may read from `str` on. -/
def memOf (str : List UInt8) : List UInt8 := str ++ [0]

/-- `str[i]`. -/
def readAt (str : List UInt8) (i : Int) : Option UInt8 :=
  if 0 ≤ i then (memOf str)[i.toNat]? else none

/-- What a parser does: a read outside the string, `FALSE`, or what it takes and captures. -/
abbrev ParseOutcome := Option (Option RParse)

/-- A parser that leaves the match structure alone. -/
def RParse.whole (len : Nat) : RParse := ⟨len, 0, 0⟩

/-! ## Strings of some alphabet -/

def rParserString (str : List UInt8) (param : Option (List UInt8)) : ParseOutcome :=
  (skipWhile (fun c => asciiIsalnum c || param.any (strchr · c)) (memOf str)).map fun len =>
    if 0 < len then some (.whole len) else none

/-- `state` is its first byte. -/
def rParserQstring (str : List UInt8) (state : UInt8) : ParseOutcome :=
  match str with
  | [] => none
  | _ :: rest =>
    -- skip starting and ending quote
    some ((strchrOfs rest state).map fun i => ⟨i + 1 + 1, 1, -2⟩)

def rParserEstringC (str : List UInt8) (param : Option (List UInt8)) : ParseOutcome :=
  match param with
  | none => some none
  | some param => some ((strchrOfs str (param.headD 0)).map fun i => ⟨i + 1, 0, -1⟩)

/-- `state` is the length of `param`. -/
def rParserEstring (str : List UInt8) (param : Option (List UInt8)) (state : Nat) : ParseOutcome :=
  match param with
  | none => some none
  | some param => some ((strstrOfs param str).map fun i => ⟨i + state, 0, -state⟩)

/-- The library behind `r_parser_pcre`: `exec` gives `matches` where `pcre_exec` is positive. -/
structure Pcre where
  Regex : Type
  compile : List UInt8 → Option Regex
  exec : Regex → List UInt8 → Option (Nat × Nat)

/-- `state` is `NULL` where the expression could not be compiled. -/
def rParserPcre (pcre : Pcre) (str : List UInt8) (state : Option pcre.Regex) : ParseOutcome :=
  state.map fun re => (pcre.exec re str).map fun matched => .whole (matched.2 - matched.1)

def rParserAnystring (str : List UInt8) : ParseOutcome := some (some (.whole str.length))

def rParserSet (str : List UInt8) (param : Option (List UInt8)) : ParseOutcome :=
  match param with
  | none => some none
  | some param =>
    (skipWhile (strchr param) (memOf str)).map fun len =>
      if 0 < len then some (.whole len) else none

/-! ## Names of hosts and mailboxes -/

/-- `g_ascii_isalnum (c) || c == '-'`. -/
def hostChar (c : UInt8) : Bool := asciiIsalnum c || c = 45

/-- The two loops over a host name, with the `count` of the labels so far: the inner one runs
inside a label, and the dot behind a label leads back to the outer one. -/
def hostTurn (state : Bool × Nat) (c : UInt8) : Turn (Bool × Nat) :=
  if hostChar c then .goOn (true, if state.1 then state.2 else state.2 + 1)
  else if state.1 ∧ c = 46 then .goOn (false, state.2)
  else .stop state

def rParserHostname (str : List UInt8) : ParseOutcome :=
  (scan hostTurn (false, 0) (memOf str)).map fun e =>
    e.bind fun ((_, count), len) => if count < 2 then none else some (.whole len)

/-- The special characters of `email`. -/
def emailBytes : List UInt8 :=
  [33, 35, 36, 37, 38, 39, 42, 43, 45, 47, 61, 63, 94, 95, 96, 123, 124, 125, 126, 46]

def emailChar (c : UInt8) : Bool := asciiIsalnum c || strchr emailBytes c

/-- The loop over the bytes of `param`, which is left out where there is none. -/
def skipParam (param : Option (List UInt8)) (mem : List UInt8) : Option Nat :=
  match param with
  | some param => skipWhile (strchr param) mem
  | none => some 0

/-- From the host name on: the loop over its labels, and the bytes of `param` behind it. -/
def emailHost (str : List UInt8) (param : Option (List UInt8)) (ofs len : Nat) : ParseOutcome :=
  (scan hostTurn (false, 0) ((memOf str).drop len)).bind fun e =>
    match e with
    | none => some none
    | some ((_, count), n) =>
      if count < 2 then some none
      else
        (skipParam param ((memOf str).drop (len + n))).map fun k =>
          some ⟨len + n + k, ofs % 2 ^ 16, (len + n : Int) - (len + n + k : Int) - (ofs % 2 ^ 16 : Int)⟩

def rParserEmail (str : List UInt8) (param : Option (List UInt8)) (hasMatch : Bool) :
    ParseOutcome :=
  (skipParam param (memOf str)).bind fun ofs =>
    -- match->ofs is set without a look at match
    if !hasMatch then none
    else
      (readAt str ofs).bind fun first =>
        -- first character of e-mail can not be a period
        if first = 46 then some none
        else
          (skipWhile emailChar ((memOf str).drop ofs)).bind fun n =>
            (readAt str ((ofs + n : Nat) - 1 : Int)).bind fun last =>
              -- last character of e-mail can not be a period
              if last = 46 then some none
              else
                (readAt str (ofs + n : Nat)).bind fun c =>
                  if c = 64 then emailHost str param ofs (ofs + n + 1) else some none

/-! ## Addresses -/

/-- The loop of `_r_parser_lladdr` in round `i`, with the bytes from `str + *len` on. -/
def lladdrLoop (parts : Int) : (i : Int) → (len : Nat) → List UInt8 → Option (Option Nat)
  | i, len, mem =>
    if parts < i then some (some len)
    else match mem with
    | [] => none
    | a :: mem =>
      if !asciiIsxdigit a then some (if 1 < i then some (len - 1) else none)
      else match mem with
      | [] => none
      | b :: mem =>
        if !asciiIsxdigit b then some (if 1 < i then some (len - 1) else none)
        else if i = parts then some (some (len + 2))
        else match mem with
        | [] => none
        | c :: mem => if c ≠ 58 then some (some (len + 2)) else lladdrLoop parts (i + 1) (len + 3) mem
termination_by _ _ mem => mem.length

/-- `_r_parser_lladdr`. -/
def lladdr (str : List UInt8) (count parts : Int) : ParseOutcome :=
  (lladdrLoop parts 1 0 (memOf str)).map fun e =>
    e.bind fun len => if (len : Int) > count then none else some (.whole len)

def lladdrParts (param : Option (List UInt8)) : Int :=
  match param with
  | some param =>
    (param.takeWhile asciiIsdigit).foldl (fun parts c => wrap32 (parts * 10 + asciiDigitValue c)) 0
  | none => 20

def rParserLladdr (str : List UInt8) (param : Option (List UInt8)) : ParseOutcome :=
  lladdr str (wrap32 (lladdrParts param * 3 - 1)) (lladdrParts param)

def rParserMacaddr (str : List UInt8) : ParseOutcome := lladdr str 17 6

structure Ipv4State where
  dots : Int
  octet : Int
  deriving DecidableEq, Repr

/-- One round of the loop of `r_parser_ipv4`. -/
def ipv4Turn (s : Ipv4State) (c : UInt8) : Turn Ipv4State :=
  if c = 46 then
    if s.octet > 255 ∨ s.octet = -1 then .reject
    else if s.dots = 3 then .stop s
    else .goOn ⟨s.dots + 1, -1⟩
  else if asciiIsdigit c then
    .goOn ⟨s.dots, wrap32 ((if s.octet = -1 then 0 else s.octet * 10) + asciiDigitValue c)⟩
  else .stop s

def rParserIpv4 (str : List UInt8) : ParseOutcome :=
  (scan ipv4Turn ⟨0, -1⟩ (memOf str)).map fun e =>
    e.bind fun (s, len) =>
      if s.dots ≠ 3 ∨ s.octet > 255 ∨ s.octet = -1 then none else some (.whole len)

structure Ipv6State where
  colons : Int
  dots : Int
  octet : Int
  digit : Int
  shortened : Bool
  deriving DecidableEq, Repr

/-- One round of the loop of `r_parser_ipv6`. -/
def ipv6Turn (s : Ipv6State) (c : UInt8) : Turn Ipv6State :=
  if c = 58 then
    if s.octet > 0xffff ∨ s.octet = -1 ∧ s.shortened ∨ s.digit = 10 then .reject
    else if s.colons = 7 then .stop { s with shortened := s.octet = -1 || s.shortened }
    else .goOn { s with
      colons := s.colons + 1, octet := -1, shortened := s.octet = -1 || s.shortened }
  else if asciiIsxdigit c then
    .goOn { s with
      octet := wrap32 ((if s.octet = -1 then 0 else s.octet * s.digit) + asciiXdigitValue c) }
  else if c = 46 then
    if s.digit = 10 ∧ s.octet > 255 then .reject
    else if s.digit = 16 ∧ s.octet > 597 ∨ s.octet = -1 ∨ s.colons = 7 ∨ s.dots = 3 then .stop s
    else .goOn { s with dots := s.dots + 1, octet := -1, digit := 10 }
  else .stop s

/-- The checks behind the loop of `r_parser_ipv6`. -/
def ipv6Check (s : Ipv6State) (len : Nat) : Option RParse :=
  if s.colons < 2 ∨ s.colons > 7 ∨ s.digit = 10 ∧ s.octet > 255 ∨ s.digit = 16 ∧ s.octet > 0xffff ∨
      ¬(s.dots = 0 ∨ s.dots = 3) ∨ s.shortened = false ∧ s.colons < 7 ∧ s.dots = 0 then none
  else some (.whole len)

/-- From the end of the loop of `r_parser_ipv6` on: a separator at the end is given back. -/
def ipv6End (str : List UInt8) (s : Ipv6State) (len : Nat) : ParseOutcome :=
  (readAt str (len - 1 : Int)).bind fun last =>
    if last = 46 then some (ipv6Check { s with dots := s.dots - 1 } (len - 1))
    else if last = 58 then
      (readAt str (len - 2 : Int)).map fun c =>
        if c ≠ 58 then ipv6Check { s with colons := s.colons - 1 } (len - 1) else ipv6Check s len
    else some (ipv6Check s len)

def ipv6Start : Ipv6State := ⟨0, 0, 0, 16, false⟩

def rParserIpv6 (str : List UInt8) : ParseOutcome :=
  (scan ipv6Turn ipv6Start (memOf str)).bind fun e =>
    match e with
    | none => some none
    | some (s, len) => ipv6End str s len

def rParserIp (str : List UInt8) : ParseOutcome :=
  (rParserIpv4 str).bind fun r =>
    match r with
    | some r => some (some r)
    | none => rParserIpv6 str

/-! ## Numbers -/

/-- The loop over the digits and the first dot; the state is `dot`. -/
def floatTurn (dot : Bool) (c : UInt8) : Turn Bool :=
  if asciiIsdigit c then .goOn dot else if !dot ∧ c = 46 then .goOn true else .stop dot

/-- The exponent behind the first `len` bytes. -/
def floatExponent (str : List UInt8) (len : Nat) : Option Nat :=
  (readAt str len).bind fun c =>
    if 0 < len ∧ (c = 101 ∨ c = 69) then
      (readAt str (len + 1 : Nat)).bind fun sign =>
        (skipWhile asciiIsdigit ((memOf str).drop (len + 1 + if sign = 45 then 1 else 0))).map
          fun n => len + 1 + (if sign = 45 then 1 else 0) + n
    else some len

def rParserFloat (str : List UInt8) : ParseOutcome :=
  (readAt str 0).bind fun first =>
    (scan floatTurn false ((memOf str).drop (if first = 45 then 1 else 0))).bind fun e =>
      match e with
      | none => some none
      | some (_, n) =>
        (floatExponent str ((if first = 45 then 1 else 0) + n)).map fun len =>
          if len ≠ 0 then some (.whole len) else none

/-- A number whose digits follow the first `start` bytes. -/
def numberDigits (p : UInt8 → Bool) (str : List UInt8) (start minLen : Nat) : ParseOutcome :=
  (skipWhile p ((memOf str).drop start)).map fun n =>
    if start + n ≥ minLen then some (.whole (start + n)) else none

def rParserNumber (str : List UInt8) : ParseOutcome :=
  if ([48, 120] : List UInt8).isPrefixOf str ∨ ([48, 88] : List UInt8).isPrefixOf str then
    numberDigits asciiIsxdigit str 2 3
  else
    (readAt str 0).bind fun first =>
      if first = 45 then numberDigits asciiIsdigit str 1 2
      else numberDigits asciiIsdigit str 0 1

/-! ## The parser of a node -/

/-- The `state` of a `QSTRING`: the closing quote. -/
def qstringState (param : Option (List UInt8)) : UInt8 :=
  let param := param.getD []
  if param.length = 2 then param.getD 1 0 else param.headD 0

/-- `parser_node->parse (str, &len, parser_node->param, parser_node->state, match)`. -/
def RParserNode.run (pcre : Pcre) (node : RParserNode) (str : List UInt8) (hasMatch : Bool) :
    ParseOutcome :=
  match node.parse with
  | .ipv4 => rParserIpv4 str
  | .ipv6 => rParserIpv6 str
  | .ip => rParserIp str
  | .macaddr => rParserMacaddr str
  | .number => rParserNumber str
  | .float => rParserFloat str
  | .string => rParserString str node.param
  | .estringC => rParserEstringC str node.param
  | .estring => rParserEstring str node.param (node.param.getD []).length
  | .pcre => rParserPcre pcre str (node.param.bind pcre.compile)
  | .anystring => rParserAnystring str
  | .set => rParserSet str node.param
  | .email => rParserEmail str node.param hasMatch
  | .hostname => rParserHostname str
  | .lladdr => rParserLladdr str node.param
  | .qstring => rParserQstring str (qstringState node.param)

end SyslogNg.DbParser
