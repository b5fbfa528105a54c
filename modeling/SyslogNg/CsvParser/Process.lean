import Mathlib.Data.List.DropRight
import Mathlib.Data.List.TakeWhile

/-!
# The CSV parser (`modules/csvparser/csvparser.c`)

A string is the list of its bytes before the terminating zero, so that `*src` is zero where nothing is
left. `log_csv_parser_process` splits its input at the delimiters if there is no escaping, and goes over it
byte by byte otherwise. What it does to the message is the list of the values that it sets.
-/

namespace SyslogNg.CsvParser

/-- The bytes of a string that a buffer starts with. -/
def cstr (input : List UInt8) : List UInt8 := input.takeWhile (· ≠ 0)

/-- The flags that an option can set. -/
structure CsvFlags where
  escapeNone : Bool := false
  escapeBackslash : Bool := false
  escapeDoubleChar : Bool := false
  stripWhitespace : Bool := false
  greedy : Bool := false
  dropInvalid : Bool := false
  deriving DecidableEq

/-- `flags & LOG_CSV_PARSER_ESCAPE_MASK`. -/
def CsvFlags.escapes (f : CsvFlags) : Bool := f.escapeNone || f.escapeBackslash || f.escapeDoubleChar

abbrev Column := List UInt8

structure LogCSVParser where
  columns : List Column
  delimiters : List UInt8
  quotesStart : List UInt8
  quotesEnd : List UInt8
  nullValue : Option (List UInt8)
  flags : CsvFlags
  /-- `LOG_CSV_PARSER_SINGLE_CHAR_DELIM`. -/
  singleCharDelim : Bool
  single : singleCharDelim = true → delimiters.length = 1

namespace LogCSVParser

def setFlags (p : LogCSVParser) (flags : CsvFlags) : LogCSVParser :=
  { p with flags, singleCharDelim := false, single := nofun }

def setDelimiters (p : LogCSVParser) (delimiters : List UInt8) : LogCSVParser :=
  { p with delimiters, singleCharDelim := delimiters.length == 1, single := by simp }

def setQuotes (p : LogCSVParser) (quotes : List UInt8) : LogCSVParser :=
  { p with quotesStart := quotes, quotesEnd := quotes }

/-- The pairs of a string; a last character that is left alone is ignored. -/
def pairs : List UInt8 → List (UInt8 × UInt8)
  | a :: b :: rest => (a, b) :: pairs rest
  | _ => []

def setQuotePairs (p : LogCSVParser) (quotePairs : List UInt8) : LogCSVParser :=
  { p with quotesStart := (pairs quotePairs).map Prod.fst, quotesEnd := (pairs quotePairs).map Prod.snd }

def setNullValue (p : LogCSVParser) (nullValue : List UInt8) : LogCSVParser :=
  { p with nullValue := some nullValue }

/-- `log_csv_parser_new`, with the columns that are set afterwards. -/
def new (columns : List Column) : LogCSVParser where
  columns
  delimiters := [32]
  quotesStart := [34, 39]
  quotesEnd := [34, 39]
  nullValue := none
  flags := { escapeNone := true, stripWhitespace := true }
  singleCharDelim := true
  single := fun _ => rfl

/-- The end quote of a column that starts with a character: `strchr(quotes_start, *src)`. -/
def quoteOf (p : LogCSVParser) (b : UInt8) : Option UInt8 :=
  (p.quotesStart.idxOf? b).bind (p.quotesEnd[·]?)

end LogCSVParser

/-- A blank of `strip-whitespace`. -/
def isBlank (b : UInt8) : Bool := b == 32 || b == 9

/-- The values that were set, the columns that are left, and the rest of the input: `NULL` after the last
column of the greedy mode. -/
structure CsvOutcome where
  assigned : List (Column × List UInt8)
  columns : List Column
  src : Option (List UInt8)
  deriving DecidableEq

/-- A value was set before. -/
def CsvOutcome.after (column : Column) (value : List UInt8) (o : CsvOutcome) : CsvOutcome :=
  { o with assigned := (column, value) :: o.assigned }

inductive CsvState where
  | columnStart
  | whitespace
  | value
  | delimiter
  deriving DecidableEq

/-- `state`, `current_quote` and `current_value`. -/
structure CsvScan where
  state : CsvState
  currentQuote : Option UInt8
  currentValue : List UInt8
  deriving DecidableEq

def CsvScan.append (s : CsvScan) (b : UInt8) : CsvScan :=
  { s with currentValue := s.currentValue ++ [b] }

structure CsvTurn where
  scan : CsvScan
  src : List UInt8
  storeValue : Bool
  deriving DecidableEq

/-- `PS_DELIMITER`. -/
def delimiterTurn (s : CsvScan) (src : List UInt8) : CsvTurn := ⟨s, src, true⟩

namespace LogCSVParser

variable (p : LogCSVParser)

/-- `len` without the blanks at the end. -/
def stripEnd (text : List UInt8) : List UInt8 :=
  if p.flags.stripWhitespace then text.rdropWhile isBlank else text

/-- The column that gets the rest of the input. -/
def greedyLast : List Column → Option Column
  | [last] => if p.flags.greedy then some last else none
  | _ => none

/-- A column has its value: the next one starts, or the last one gets the rest. -/
def endColumn (column : Column) (value : List UInt8) (columns : List Column) (src : List UInt8)
    (next : CsvOutcome) : CsvOutcome :=
  match p.greedyLast columns with
  | some last => ⟨[(column, value), (last, src)], [], none⟩
  | none => next.after column value

/-! ## Without escaping -/

/-- `src` behind the quote character and the blanks before the value. -/
def valueStart (src : List UInt8) : List UInt8 :=
  let src := if src.head?.any (· ∈ p.quotesStart) then src.tail else src
  if p.flags.stripWhitespace then src.dropWhile isBlank else src

/-- `*delim` is a delimiter, or the end of the string, which `strchr` finds too. -/
def endsColumn : List UInt8 → Bool
  | [] => true
  | b :: _ => (p.singleCharDelim && p.delimiters.head? == some b) || p.delimiters.contains b

/-- `delim - src`. -/
def delimAt (quote : Option UInt8) (src : List UInt8) : Nat :=
  match quote with
  | some q =>
    let n := (src.takeWhile (· ≠ q)).length
    if n < src.length ∧ p.endsColumn (src.drop (n + 1)) then n + 1 else n
  | none =>
    if p.singleCharDelim then (src.takeWhile (p.delimiters.head? ≠ some ·)).length
    else (src.takeWhile (· ∉ p.delimiters)).length

/-- `src[len - 1] == current_quote`, which compares a `gchar` to a `guchar`. -/
def endsInQuote (quote : Option UInt8) (text : List UInt8) : Bool :=
  quote.any fun q => q < 128 && text.getLast? == some q

/-- A column: its value, and the input behind its delimiter. -/
def splitColumn (src : List UInt8) : List UInt8 × List UInt8 :=
  let quote := src.head?.bind p.quoteOf
  let start := p.valueStart src
  let n := p.delimAt quote start
  let text := start.take n
  let text := if endsInQuote quote text then text.dropLast else text
  let text := p.stripEnd text
  -- `strncmp(src, null_value, len) == 0`
  let value := if p.nullValue.any text.isPrefixOf then [] else text
  (value, (start.drop n).tail)

/-- The loop without escaping. -/
def splitLoop : List Column → List UInt8 → CsvOutcome
  | [], src => ⟨[], [], some src⟩
  | column :: columns, src =>
    if src = [] then ⟨[], column :: columns, some []⟩
    else
      let (value, rest) := p.splitColumn src
      p.endColumn column value columns rest (splitLoop columns rest)

/-! ## With escaping -/

/-- `PS_VALUE`, on `*src` and what is behind it. -/
def valueTurn (s : CsvScan) (b : UInt8) (src : List UInt8) : CsvTurn :=
  match s.currentQuote with
  | some q =>
    if p.flags.escapeBackslash && b == 92 && src ≠ [] then
      ⟨s.append (src.headD 0), src.tail, false⟩
    else if p.flags.escapeDoubleChar && b == q && src.head? == some q then
      ⟨s.append (src.headD 0), src.tail, false⟩
    else if b = q then ⟨{ s with state := .delimiter, currentQuote := none }, src, false⟩
    else ⟨s.append b, src, false⟩
  | none =>
    -- the delimiter is looked at again
    if b ∈ p.delimiters then delimiterTurn { s with state := .delimiter } src
    else ⟨s.append b, src, false⟩

/-- `PS_WHITESPACE`. -/
def whitespaceTurn (s : CsvScan) (b : UInt8) (src : List UInt8) : CsvTurn :=
  if p.flags.stripWhitespace && isBlank b then ⟨s, src, false⟩
  else p.valueTurn { s with state := .value } b src

/-- `PS_COLUMN_START`: a character that is no quote is looked at again. -/
def columnStartTurn (s : CsvScan) (b : UInt8) (src : List UInt8) : CsvTurn :=
  if b ∈ p.quotesStart then
    ⟨{ s with state := .whitespace, currentQuote := p.quoteOf b }, src, false⟩
  else p.whitespaceTurn { s with state := .whitespace, currentQuote := none } b src

def turn (s : CsvScan) (b : UInt8) (src : List UInt8) : CsvTurn :=
  match s.state with
  | .columnStart => p.columnStartTurn s b src
  | .whitespace => p.whitespaceTurn s b src
  | .value => p.valueTurn s b src
  | .delimiter => delimiterTurn s src

theorem valueTurn_src (s : CsvScan) (b : UInt8) (src : List UInt8) :
    (p.valueTurn s b src).src.length ≤ src.length := by
  unfold valueTurn delimiterTurn
  split
  · split
    · simp
    · split
      · simp
      · split
        · simp
        · simp
  · split
    · simp
    · simp

theorem whitespaceTurn_src (s : CsvScan) (b : UInt8) (src : List UInt8) :
    (p.whitespaceTurn s b src).src.length ≤ src.length := by
  unfold whitespaceTurn
  split
  · exact le_refl _
  · exact p.valueTurn_src _ b src

theorem turn_src (s : CsvScan) (b : UInt8) (src : List UInt8) :
    (p.turn s b src).src.length ≤ src.length := by
  unfold turn columnStartTurn delimiterTurn
  split
  · split
    · exact le_refl _
    · exact p.whitespaceTurn_src _ b src
  · exact p.whitespaceTurn_src s b src
  · exact p.valueTurn_src s b src
  · exact le_refl _

/-- The value that is set at the end of a column. -/
def storedValue (currentValue : List UInt8) : List UInt8 :=
  if p.nullValue = some currentValue then [] else p.stripEnd currentValue

/-- The loop with escaping. -/
def statefulLoop (s : CsvScan) : List Column → List UInt8 → CsvOutcome
  | [], src => ⟨[], [], some src⟩
  | column :: columns, [] => ⟨[], column :: columns, some []⟩
  | column :: columns, b :: src =>
    let t := p.turn s b src
    if t.src = [] ∨ t.storeValue then
      p.endColumn column (p.storedValue t.scan.currentValue) columns t.src
        (statefulLoop ⟨.columnStart, t.scan.currentQuote, []⟩ columns t.src)
    else statefulLoop t.scan (column :: columns) t.src
  termination_by _ src => src.length
  decreasing_by
    all_goals
      have := p.turn_src s b src
      rw [List.length_cons]
      exact Nat.lt_succ_of_le this

/-! ## `log_csv_parser_process` -/

/-- The loop that the flags ask for. -/
def outcome (src : List UInt8) : CsvOutcome :=
  if p.flags.escapeNone || !p.flags.escapes then p.splitLoop p.columns src
  else p.statefulLoop ⟨.columnStart, none, []⟩ p.columns src

/-- The values that are set, and the result: columns that are not filled and input that is left only
matter with `drop-invalid`. -/
def result (o : CsvOutcome) : List (Column × List UInt8) × Bool :=
  (o.assigned, !((o.columns ≠ [] || o.src.any (· ≠ [])) && p.flags.dropInvalid))

def process (input : List UInt8) : List (Column × List UInt8) × Bool :=
  p.result (p.outcome (cstr input))

end LogCSVParser

end SyslogNg.CsvParser
