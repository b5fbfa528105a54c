import SyslogNg.CsvParser.Process

/-!
# The dialects of the CSV parser

Without quotes all of the dialects split the input in the same way. They differ in the null value: the
splitter takes every prefix of it for the value, and the stateful parser compares the text before the
blanks behind it are stripped.
-/

namespace SyslogNg.CsvParser

open List

namespace LogCSVParser

variable (p : LogCSVParser)

/-! ## Splitting at the delimiters -/

def skipBlanks (src : List UInt8) : List UInt8 :=
  if p.flags.stripWhitespace then src.dropWhile isBlank else src

/-- The text of a column, with the blanks behind it. -/
def columnText (src : List UInt8) : List UInt8 := (p.skipBlanks src).takeWhile (· ∉ p.delimiters)

def columnRest (src : List UInt8) : List UInt8 := ((p.skipBlanks src).dropWhile (· ∉ p.delimiters)).tail

def splitWith (value : List UInt8 → List UInt8) : List Column → List UInt8 → CsvOutcome
  | [], src => ⟨[], [], some src⟩
  | column :: columns, src =>
    if src = [] then ⟨[], column :: columns, some []⟩
    else p.endColumn column (value (p.columnText src)) columns (p.columnRest src)
      (splitWith value columns (p.columnRest src))

/-- The input at the start of each of the columns. -/
def columnStarts : List Column → List UInt8 → List (List UInt8)
  | [], _ => []
  | _ :: columns, src =>
    if src = [] then []
    else if (p.greedyLast columns).isSome then [src]
    else src :: columnStarts columns (p.columnRest src)

/-- No column of the input starts with a quote character. -/
def Unquoted (input : List UInt8) : Prop :=
  ∀ src ∈ p.columnStarts p.columns (cstr input), ∀ b ∈ src.head?, b ∉ p.quotesStart

def exactValue (text : List UInt8) : List UInt8 :=
  if p.nullValue = some (p.stripEnd text) then [] else p.stripEnd text

/-- What any of the dialects should do to an input without quotes. -/
def plainProcess (input : List UInt8) : List (Column × List UInt8) × Bool :=
  p.result (p.splitWith p.exactValue p.columns (cstr input))

def withEscapes (none backslash doubleChar : Bool) : LogCSVParser :=
  { p with flags := { p.flags with
      escapeNone := none, escapeBackslash := backslash, escapeDoubleChar := doubleChar } }

/-- All of the dialects do the same to an input, and a column is replaced if it is the null value. -/
structure DialectsAgree (input : List UInt8) : Prop where
  splitter : ∀ none backslash doubleChar, (none || !(backslash || doubleChar)) = true →
    (p.withEscapes none backslash doubleChar).process input = p.plainProcess input
  stateful : ∀ backslash doubleChar, (backslash || doubleChar) = true →
    (p.withEscapes false backslash doubleChar).process input = p.plainProcess input

/-! ## The two loops -/

def prefixValue (text : List UInt8) : List UInt8 :=
  if p.nullValue.any (p.stripEnd text).isPrefixOf then [] else p.stripEnd text

variable {p}

theorem quoteOf_none {b : UInt8} (h : b ∉ p.quotesStart) : p.quoteOf b = none := by
  rw [quoteOf, idxOf?_eq_none_iff.mpr h]
  rfl

theorem delimAt_none (src : List UInt8) :
    p.delimAt none src = (src.takeWhile (· ∉ p.delimiters)).length := by
  rw [delimAt]
  cases hsingle : p.singleCharDelim with
  | false => rfl
  | true =>
    obtain ⟨d, hd⟩ := length_eq_one_iff.mp (p.single hsingle)
    rw [if_pos rfl, hd]
    congr 2
    funext b
    simp [eq_comm]

theorem take_takeWhile_length (f : UInt8 → Bool) (src : List UInt8) :
    src.take (src.takeWhile f).length = src.takeWhile f :=
  (prefix_iff_eq_take.mp ( takeWhile_prefix f)).symm

theorem drop_takeWhile_length (f : UInt8 → Bool) (src : List UInt8) :
    src.drop (src.takeWhile f).length = src.dropWhile f :=
  calc src.drop (src.takeWhile f).length
      = (src.takeWhile f ++ src.dropWhile f).drop (src.takeWhile f).length := by
        rw [takeWhile_append_dropWhile]
    _ = src.dropWhile f := drop_left' rfl

variable {src : List UInt8} {columns : List Column} {f g : List UInt8 → List UInt8}

theorem splitColumn_plain {b : UInt8} (h : b ∉ p.quotesStart) :
    p.splitColumn (b :: src) = (p.prefixValue (p.columnText (b :: src)), p.columnRest (b :: src)) := by
  have hstart : p.valueStart (b :: src) = p.skipBlanks (b :: src) := by
    simp only [valueStart, skipBlanks, head?_cons, Option.any_some, decide_eq_false h,
      Bool.false_eq_true, if_false]
  rw [splitColumn, head?_cons, Option.bind_some, quoteOf_none h, hstart, delimAt_none]
  simp only [take_takeWhile_length, drop_takeWhile_length]
  rfl

theorem endColumn_some {last : Column} (h : p.greedyLast columns = some last) (column : Column)
    (value src : List UInt8) (next : CsvOutcome) :
    p.endColumn column value columns src next = ⟨[(column, value), (last, src)], [], none⟩ := by
  simp only [endColumn, h]

theorem endColumn_none (h : p.greedyLast columns = none) (column : Column) (value src : List UInt8)
    (next : CsvOutcome) : p.endColumn column value columns src next = next.after column value := by
  simp only [endColumn, h]

theorem splitLoop_plain (h : ∀ start ∈ p.columnStarts columns src, ∀ b ∈ start.head?, b ∉ p.quotesStart) :
    p.splitLoop columns src = p.splitWith p.prefixValue columns src := by
  induction columns generalizing src with
  | nil => rfl
  | cons column columns ih =>
    rw [splitLoop, splitWith]
    cases src with
    | nil => rfl
    | cons b src =>
      rw [columnStarts, if_neg (cons_ne_nil b src)] at h
      rw [if_neg (cons_ne_nil b src), if_neg (cons_ne_nil b src)]
      have hb : b ∉ p.quotesStart := by
        refine h (b :: src) ?_ b rfl
        split
        · exact mem_cons_self
        · exact mem_cons_self
      simp only [splitColumn_plain hb]
      cases hlast : p.greedyLast columns with
      | some last => rw [endColumn_some hlast, endColumn_some hlast]
      | none =>
        rw [hlast, if_neg (by decide)] at h
        rw [endColumn_none hlast, endColumn_none hlast,
          ih fun start hstart => h start (mem_cons_of_mem _ hstart)]

/-! ## The stateful parser -/

theorem valueTurn_plain {s : CsvScan} (hquote : s.currentQuote = none) (b : UInt8) (src : List UInt8) :
    p.valueTurn s b src = if b ∈ p.delimiters then ⟨{ s with state := .delimiter }, src, true⟩
      else ⟨s.append b, src, false⟩ := by
  rw [valueTurn, hquote]
  rfl

theorem loop_valueEnd {value : List UInt8} (hne : src ≠ []) (column : Column) (columns : List Column) :
    p.statefulLoop ⟨.value, none, value⟩ (column :: columns) src =
      p.endColumn column (p.storedValue (value ++ src.takeWhile (· ∉ p.delimiters))) columns
        (src.dropWhile (· ∉ p.delimiters)).tail
        (p.statefulLoop ⟨.columnStart, none, []⟩ columns (src.dropWhile (· ∉ p.delimiters)).tail) := by
  induction src generalizing value with
  | nil => exact absurd rfl hne
  | cons b src ih =>
    have hturn : p.turn ⟨.value, none, value⟩ b src =
        if b ∈ p.delimiters then ⟨⟨.delimiter, none, value⟩, src, true⟩
        else ⟨⟨.value, none, value ++ [b]⟩, src, false⟩ :=
      @valueTurn_plain p ⟨.value, none, value⟩ rfl b src
    rw [statefulLoop, hturn]
    by_cases hb : b ∈ p.delimiters
    · rw [if_pos hb, takeWhile_cons_of_neg (by simpa using hb),
        dropWhile_cons_of_neg (by simpa using hb), append_nil]
      simp only [or_true, if_true, tail_cons]
    · rw [if_neg hb, takeWhile_cons_of_pos (by simpa using hb),
        dropWhile_cons_of_pos (by simpa using hb)]
      cases src with
      | nil => simp only [true_or, if_true, takeWhile_nil, dropWhile_nil, tail_nil]
      | cons c src =>
        simp only [reduceCtorEq, Bool.false_eq_true, or_self, if_false]
        rw [ih (cons_ne_nil c src), append_assoc, singleton_append]

theorem loop_congr {s s' : CsvScan} {b : UInt8} (h : p.turn s b src = p.turn s' b src) (column : Column)
    (columns : List Column) :
    p.statefulLoop s (column :: columns) (b :: src) = p.statefulLoop s' (column :: columns) (b :: src) := by
  rw [statefulLoop, h, statefulLoop]

theorem loop_whitespace (hne : src ≠ []) (column : Column) (columns : List Column) :
    p.statefulLoop ⟨.whitespace, none, []⟩ (column :: columns) src =
      p.endColumn column (p.storedValue (p.columnText src)) columns (p.columnRest src)
        (p.statefulLoop ⟨.columnStart, none, []⟩ columns (p.columnRest src)) := by
  unfold columnText columnRest
  induction src with
  | nil => exact absurd rfl hne
  | cons b src ih =>
    by_cases hb : p.flags.stripWhitespace && isBlank b
    · have hturn : p.turn ⟨.whitespace, none, []⟩ b src = ⟨⟨.whitespace, none, []⟩, src, false⟩ := by
        rw [turn, whitespaceTurn, if_pos hb]
      rw [Bool.and_eq_true] at hb
      have hskip : p.skipBlanks (b :: src) = p.skipBlanks src := by
        unfold skipBlanks
        rw [if_pos hb.1, if_pos hb.1, dropWhile_cons_of_pos hb.2]
      rw [statefulLoop, hturn, hskip]
      cases src with
      | nil =>
        have hnil : p.skipBlanks [] = [] := by
          unfold skipBlanks
          rw [if_pos hb.1]
          rfl
        simp only [hnil, true_or, if_true, takeWhile_nil, dropWhile_nil, tail_nil]
      | cons c src =>
        simp only [reduceCtorEq, Bool.false_eq_true, or_self, if_false]
        exact ih (cons_ne_nil c src)
    · have hskip : p.skipBlanks (b :: src) = b :: src := by
        unfold skipBlanks
        split
        case isTrue hstrip => 
          rw [dropWhile_cons_of_neg]
          simpa [hstrip] using hb
        case isFalse => rfl
      have hturn : p.turn ⟨.whitespace, none, []⟩ b src = p.turn ⟨.value, none, []⟩ b src := by
        rw [turn, whitespaceTurn, if_neg hb]
        rfl
      rw [loop_congr hturn, loop_valueEnd (cons_ne_nil b src), hskip, nil_append]

theorem statefulLoop_plain
    (h : ∀ start ∈ p.columnStarts columns src, ∀ b ∈ start.head?, b ∉ p.quotesStart) :
    p.statefulLoop ⟨.columnStart, none, []⟩ columns src = p.splitWith p.storedValue columns src := by
  induction columns generalizing src with
  | nil =>
    rw [statefulLoop]
    rfl
  | cons column columns ih =>
    cases src with
    | nil =>
      rw [statefulLoop]
      rfl
    | cons b src =>
      rw [columnStarts, if_neg (cons_ne_nil b src)] at h
      have hb : b ∉ p.quotesStart := by
        refine h (b :: src) ?_ b rfl
        split
        · exact mem_cons_self
        · exact mem_cons_self
      have hturn : p.turn ⟨.columnStart, none, []⟩ b src = p.turn ⟨.whitespace, none, []⟩ b src := by
        rw [turn, columnStartTurn, if_neg hb]
        rfl
      rw [loop_congr hturn, loop_whitespace (cons_ne_nil b src), splitWith, if_neg (cons_ne_nil b src)]
      cases hlast : p.greedyLast columns with
      | some last => rw [endColumn_some hlast, endColumn_some hlast]
      | none =>
        rw [hlast, if_neg (by decide)] at h
        rw [endColumn_none hlast, endColumn_none hlast,
          ih fun start hstart => h start (mem_cons_of_mem _ hstart)]

/-! ## The null value -/

theorem splitWith_congr
    (h : ∀ start ∈ p.columnStarts columns src, f (p.columnText start) = g (p.columnText start)) :
    p.splitWith f columns src = p.splitWith g columns src := by
  induction columns generalizing src with
  | nil => rfl
  | cons column columns ih =>
    rw [splitWith, splitWith]
    by_cases hsrc : src = []
    · rw [if_pos hsrc, if_pos hsrc]
    · rw [if_neg hsrc, if_neg hsrc]
      rw [columnStarts, if_neg hsrc] at h
      cases hlast : p.greedyLast columns with
      | some last =>
        rw [hlast, if_pos (by rfl)] at h
        rw [endColumn_some hlast, endColumn_some hlast, h src mem_cons_self]
      | none =>
        rw [hlast, if_neg (by decide)] at h
        rw [endColumn_none hlast, endColumn_none hlast, h src mem_cons_self,
          ih fun start hstart => h start (mem_cons_of_mem _ hstart)]

theorem splitWith_assigned
    (h : (p.splitWith f columns src).assigned = (p.splitWith g columns src).assigned) :
    ∀ start ∈ p.columnStarts columns src, f (p.columnText start) = g (p.columnText start) := by
  induction columns generalizing src with
  | nil => exact nofun
  | cons column columns ih =>
    rw [splitWith, splitWith] at h
    rw [columnStarts]
    by_cases hsrc : src = []
    · rw [if_pos hsrc]
      exact nofun
    · rw [if_neg hsrc, if_neg hsrc] at h
      rw [if_neg hsrc]
      cases hlast : p.greedyLast columns with
      | some last =>
        rw [endColumn_some hlast, endColumn_some hlast] at h
        rw [if_pos (by rfl)]
        intro start hstart
        obtain rfl := mem_singleton.mp hstart
        exact (Prod.mk.inj (List.cons.inj h).1).2
      | none =>
        rw [endColumn_none hlast, endColumn_none hlast] at h
        rw [if_neg (by decide)]
        rintro start (_ | ⟨_, hstart⟩)
        · exact (Prod.mk.inj (List.cons.inj h).1).2
        · exact ih (List.cons.inj h).2 start hstart

theorem result_splitWith :
    p.result (p.splitWith f columns src) = p.result (p.splitWith g columns src) ↔
      ∀ start ∈ p.columnStarts columns src, f (p.columnText start) = g (p.columnText start) :=
  ⟨fun h => splitWith_assigned (Prod.mk.inj h).1, fun h => by rw [splitWith_congr h]⟩

theorem splitWith_withEscapes (none backslash doubleChar : Bool) (f : List UInt8 → List UInt8)
    (columns : List Column) (src : List UInt8) :
    (p.withEscapes none backslash doubleChar).splitWith f columns src = p.splitWith f columns src := by
  induction columns generalizing src with
  | nil => rfl
  | cons column columns ih =>
    rw [splitWith, splitWith, ih]
    rfl

theorem columnStarts_withEscapes (none backslash doubleChar : Bool) (columns : List Column)
    (src : List UInt8) :
    (p.withEscapes none backslash doubleChar).columnStarts columns src = p.columnStarts columns src := by
  induction columns generalizing src with
  | nil => rfl
  | cons column columns ih =>
    rw [columnStarts, columnStarts, ih]
    rfl

variable (p) in
/-- The null value is neither a longer text nor one that differs in the blanks at its end. -/
def NullClear (text : List UInt8) : Prop :=
  ∀ null, p.nullValue = some null → p.stripEnd text = [] ∨
    ((p.stripEnd text <+: null → p.stripEnd text = null) ∧ (text = null ↔ p.stripEnd text = null))

theorem prefixValue_iff {text : List UInt8} (h : p.stripEnd text ≠ []) {null : List UInt8}
    (hnull : p.nullValue = some null) :
    p.prefixValue text = p.exactValue text ↔ (p.stripEnd text <+: null → p.stripEnd text = null) := by
  simp only [prefixValue, exactValue, hnull, Option.any_some, isPrefixOf_iff_prefix, Option.some.injEq]
  by_cases hexact : null = p.stripEnd text
  · rw [if_pos (hexact ▸ prefix_rfl), if_pos hexact]
    exact iff_of_true rfl fun _ => hexact.symm
  · rw [if_neg hexact]
    by_cases hprefix : p.stripEnd text <+: null
    · rw [if_pos hprefix]
      exact iff_of_false (fun heq => h heq.symm) fun himp => hexact (himp hprefix).symm
    · rw [if_neg hprefix]
      exact iff_of_true rfl fun hp => absurd hp hprefix

theorem storedValue_iff {text : List UInt8} (h : p.stripEnd text ≠ []) {null : List UInt8}
    (hnull : p.nullValue = some null) :
    p.storedValue text = p.exactValue text ↔ (text = null ↔ p.stripEnd text = null) := by
  simp only [storedValue, exactValue, hnull, Option.some.injEq, @eq_comm _ null]
  by_cases htext : text = null
  · rw [if_pos htext]
    by_cases hexact : p.stripEnd text = null
    · rw [if_pos hexact]
      exact iff_of_true rfl (iff_of_true htext hexact)
    · rw [if_neg hexact]
      exact iff_of_false (fun heq => h heq.symm) fun hiff => hexact (hiff.mp htext)
  · rw [if_neg htext]
    by_cases hexact : p.stripEnd text = null
    · rw [if_pos hexact]
      exact iff_of_false h fun hiff => htext (hiff.mpr hexact)
    · rw [if_neg hexact]
      exact iff_of_true rfl (iff_of_false htext hexact)

theorem nullClear_iff (text : List UInt8) :
    (p.prefixValue text = p.exactValue text ∧ p.storedValue text = p.exactValue text) ↔ p.NullClear text := by
  cases hnull : p.nullValue with
  | none =>
    refine iff_of_true ⟨?_, ?_⟩ fun null h => by rw [hnull] at h; cases h
    · simp [prefixValue, exactValue, hnull]
    · simp [storedValue, exactValue, hnull]
  | some null =>
    by_cases h : p.stripEnd text = []
    · refine iff_of_true ⟨?_, ?_⟩ fun _ _ => .inl h
      · simp [prefixValue, exactValue, h]
      · simp [storedValue, exactValue, h]
    · rw [prefixValue_iff h hnull, storedValue_iff h hnull]
      constructor
      · intro hboth other hother
        obtain rfl : null = other := Option.some.inj (hnull.symm.trans hother)
        exact .inr hboth
      · intro hclear
        exact (hclear null hnull).resolve_left h

/-- **The dialects agree where the null value is clear**: no column is a part of its beginning, or differs
from it in the blanks at its end only. -/
theorem dialectsAgree_iff (p : LogCSVParser) (input : List UInt8) (h : p.Unquoted input) :
    p.DialectsAgree input ↔
      ∀ start ∈ p.columnStarts p.columns (cstr input), p.NullClear (p.columnText start) := by
  have hplain : ∀ none backslash doubleChar, ∀ start ∈
      (p.withEscapes none backslash doubleChar).columnStarts p.columns (cstr input),
      ∀ b ∈ start.head?, b ∉ p.quotesStart := by
    intro none backslash doubleChar start hstart
    rw [columnStarts_withEscapes] at hstart
    exact h start hstart
  have hsplitter : ∀ none backslash doubleChar, (none || !(backslash || doubleChar)) = true →
      (p.withEscapes none backslash doubleChar).process input =
        p.result (p.splitWith p.prefixValue p.columns (cstr input)) := by
    intro none backslash doubleChar hflags
    have hescapes : ((p.withEscapes none backslash doubleChar).flags.escapeNone ||
        !(p.withEscapes none backslash doubleChar).flags.escapes) = true := by
      cases none <;> cases backslash <;> cases doubleChar <;> first | rfl | cases hflags
    rw [process, outcome, if_pos hescapes]
    have hloop := splitLoop_plain (hplain none backslash doubleChar)
    rw [splitWith_withEscapes] at hloop
    exact congrArg _ hloop
  have hstateful : ∀ backslash doubleChar, (backslash || doubleChar) = true →
      (p.withEscapes false backslash doubleChar).process input =
        p.result (p.splitWith p.storedValue p.columns (cstr input)) := by
    intro backslash doubleChar hflags
    have hescapes : ((p.withEscapes false backslash doubleChar).flags.escapeNone ||
        !(p.withEscapes false backslash doubleChar).flags.escapes) = false := by
      cases backslash <;> cases doubleChar <;> first | rfl | cases hflags
    rw [process, outcome, if_neg (by rw [hescapes]; decide)]
    have hloop := statefulLoop_plain (hplain false backslash doubleChar)
    rw [splitWith_withEscapes] at hloop
    exact congrArg _ hloop
  constructor
  · intro hagree start hstart
    rw [← nullClear_iff]
    have h1 := hagree.splitter true false false rfl
    have h2 := hagree.stateful true false rfl
    rw [hsplitter true false false rfl] at h1
    rw [hstateful true false rfl] at h2
    exact ⟨result_splitWith.mp h1 start hstart, result_splitWith.mp h2 start hstart⟩
  · intro hclear
    refine ⟨fun none backslash doubleChar hflags => ?_, fun backslash doubleChar hflags => ?_⟩
    · rw [hsplitter none backslash doubleChar hflags]
      exact result_splitWith.mpr fun start hstart => ((nullClear_iff _).mpr (hclear start hstart)).1
    · rw [hstateful backslash doubleChar hflags]
      exact result_splitWith.mpr fun start hstart => ((nullClear_iff _).mpr (hclear start hstart)).2

end LogCSVParser

/-- One column, `null("NULL")`. -/
def nullParser : LogCSVParser :=
  ((LogCSVParser.new [[49]]).setDelimiters [44]).setNullValue [78, 85, 76, 76]

/-- The input `abc`. -/
theorem dialectsAgree_abc :
    nullParser.DialectsAgree [97, 98, 99] ↔
      ∀ start ∈ nullParser.columnStarts nullParser.columns (cstr [97, 98, 99]),
        nullParser.NullClear (nullParser.columnText start) :=
  nullParser.dialectsAgree_iff [97, 98, 99] (by unfold LogCSVParser.Unquoted; decide +kernel)

/-- **The column `N` is taken for the null value `NULL`** by the splitter. -/
theorem null_beginning_replaced :
    nullParser.Unquoted [78] ∧
      nullParser.process [78] = ([([49], [])], true) ∧
      nullParser.plainProcess [78] = ([([49], [78])], true) ∧
      ¬nullParser.DialectsAgree [78] := by
  have hsplitter : nullParser.process [78] = ([([49], [])], true) := by decide +kernel
  have hplain : nullParser.plainProcess [78] = ([([49], [78])], true) := by decide +kernel
  refine ⟨by unfold LogCSVParser.Unquoted; decide +kernel, hsplitter, hplain, fun hagree => ?_⟩
  have hsame := hagree.splitter true false false rfl
  rw [show (nullParser.withEscapes true false false).process [78] = nullParser.process [78] from rfl,
    hsplitter, hplain] at hsame
  cases hsame

end SyslogNg.CsvParser
