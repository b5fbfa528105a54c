import SyslogNg.CsvParser.Process

/-!
# Quoted columns

Values between quotes, joined by the delimiter, are parsed to themselves: the escapes of a value are taken
back one by one, and the quote behind it ends the column wherever the delimiter or the end of the input
follows.
-/

namespace SyslogNg.CsvParser

open List

/-- How a character is kept from ending its value. -/
inductive Escape where
  | doubleChar
  | backslash
  deriving DecidableEq

namespace Escape

/-- A character of a value. -/
def byte (e : Escape) (quoteEnd b : UInt8) : List UInt8 :=
  match e with
  | doubleChar => if b = quoteEnd then [b, b] else [b]
  | backslash => if b = quoteEnd ∨ b = 92 then [92, b] else [b]

/-- A value between its quotes. -/
def encode (e : Escape) (quoteStart quoteEnd : UInt8) (value : List UInt8) : List UInt8 :=
  quoteStart :: (value.flatMap (e.byte quoteEnd) ++ [quoteEnd])

/-- The flags of a parser that takes the escapes back. -/
def flags (e : Escape) (dropInvalid : Bool) : CsvFlags :=
  { escapeDoubleChar := e = doubleChar, escapeBackslash := e = backslash, dropInvalid }

end Escape

/-- Columns that are joined by the delimiter. -/
def joinColumns (delimiter : UInt8) (texts : List (List UInt8)) : List UInt8 :=
  List.intercalate [delimiter] texts

/-- A parser of columns between a pair of quotes. -/
def quotedParser (e : Escape) (dropInvalid : Bool) (columns : List Column)
    (delimiter quoteStart quoteEnd : UInt8) : LogCSVParser :=
  (((LogCSVParser.new columns).setFlags (e.flags dropInvalid)).setDelimiters [delimiter]).setQuotePairs
    [quoteStart, quoteEnd]

section

variable {e : Escape} {dropInvalid : Bool} {columns : List Column} {d qs qe : UInt8}

def CsvScan.InValue (qe : UInt8) (s : CsvScan) : Prop :=
  (s.state = .whitespace ∨ s.state = .value) ∧ s.currentQuote = some qe

variable {p : LogCSVParser} {s : CsvScan}

theorem turn_inValue (hstrip : p.flags.stripWhitespace = false) (h : s.InValue qe) (b : UInt8)
    (src : List UInt8) : p.turn s b src = p.valueTurn { s with state := .value } b src := by
  obtain ⟨state, quote, value⟩ := s
  rcases h.1 with hstate | hstate
  · obtain rfl : state = .whitespace := hstate
    rw [LogCSVParser.turn, LogCSVParser.whitespaceTurn, hstrip, if_neg (by simp)]
  · obtain rfl : state = .value := hstate
    rfl

theorem valueTurn_quoted {b : UInt8} {src : List UInt8} (hquote : s.currentQuote = some qe)
    (hbackslash : ¬(p.flags.escapeBackslash = true ∧ b = 92))
    (hdouble : ¬(p.flags.escapeDoubleChar = true ∧ b = qe ∧ src.head? = some qe)) :
    p.valueTurn s b src =
      if b = qe then ⟨{ s with state := .delimiter, currentQuote := none }, src, false⟩
      else ⟨s.append b, src, false⟩ := by
  rw [LogCSVParser.valueTurn, hquote]
  have h1 : ¬(p.flags.escapeBackslash && b == 92 && decide (src ≠ [])) = true := by
    simp only [Bool.and_eq_true, beq_iff_eq, not_and]
    exact fun h => absurd h hbackslash
  have h2 : ¬(p.flags.escapeDoubleChar && b == qe && src.head? == some qe) = true := by
    simp only [Bool.and_eq_true, beq_iff_eq, and_assoc]
    exact hdouble
  simp only [if_neg h1, if_neg h2]

theorem turn_byte {s : CsvScan} (h : s.InValue qe) (b : UInt8) (rest : List UInt8) :
    ∃ first more, e.byte qe b ++ rest = first :: more ∧
      (quotedParser e dropInvalid columns d qs qe).turn s first more =
        ⟨{ s with state := .value }.append b, rest, false⟩ := by
  have hquote : ({ s with state := .value } : CsvScan).currentQuote = some qe := h.2
  cases e with
  | doubleChar =>
    by_cases hb : b = qe
    · refine ⟨b, b :: rest, by rw [Escape.byte, if_pos hb]; rfl, ?_⟩
      subst hb
      rw [turn_inValue rfl h, LogCSVParser.valueTurn, h.2]
      simp [quotedParser, Escape.flags, LogCSVParser.setQuotePairs, LogCSVParser.setDelimiters,
        LogCSVParser.setFlags, LogCSVParser.new]
    · refine ⟨b, rest, by rw [Escape.byte, if_neg hb]; rfl, ?_⟩
      have hflag : (quotedParser .doubleChar dropInvalid columns d qs qe).flags.escapeBackslash = false :=
        rfl
      rw [turn_inValue rfl h, valueTurn_quoted hquote (by simp [hflag]) (fun h => hb h.2.1), if_neg hb]
  | backslash =>
    by_cases hb : b = qe ∨ b = 92
    · refine ⟨92, b :: rest, by rw [Escape.byte, if_pos hb]; rfl, ?_⟩
      rw [turn_inValue rfl h, LogCSVParser.valueTurn, h.2]
      rfl
    · refine ⟨b, rest, by rw [Escape.byte, if_neg hb]; rfl, ?_⟩
      rw [not_or] at hb
      rw [turn_inValue rfl h, valueTurn_quoted hquote (fun h => hb.2 h.2) (fun h => hb.1 h.2.1),
        if_neg hb.1]

theorem loop_cons {column : Column} {more : List Column} {b : UInt8} {src : List UInt8}
    (hsrc : (p.turn s b src).src ≠ []) (hstore : (p.turn s b src).storeValue = false) :
    p.statefulLoop s (column :: more) (b :: src) =
      p.statefulLoop (p.turn s b src).scan (column :: more) (p.turn s b src).src := by
  rw [LogCSVParser.statefulLoop]
  simp only [hsrc, hstore, Bool.false_eq_true, or_self, if_false]

theorem loop_value {s : CsvScan} (h : s.InValue qe) (v : List UInt8) {rest : List UInt8} (hne : rest ≠ [])
    (column : Column) (more : List Column) :
    ∃ s' : CsvScan, s'.InValue qe ∧ s'.currentValue = s.currentValue ++ v ∧
      (quotedParser e dropInvalid columns d qs qe).statefulLoop s (column :: more)
          (v.flatMap (e.byte qe) ++ rest) =
        (quotedParser e dropInvalid columns d qs qe).statefulLoop s' (column :: more) rest := by
  induction v generalizing s with
  | nil => exact ⟨s, h, (append_nil _).symm, rfl⟩
  | cons b v ih =>
    rw [flatMap_cons, append_assoc]
    obtain ⟨first, behind, hfirst, hturn⟩ := @turn_byte e dropInvalid columns d qs qe s h b
      (v.flatMap (e.byte qe) ++ rest)
    have hnext : ({ s with state := .value }.append b).InValue qe := ⟨.inr rfl, h.2⟩
    obtain ⟨s', hs', hvalue, hloop⟩ := ih hnext
    refine ⟨s', hs', ?_, ?_⟩
    · rw [hvalue]
      exact append_assoc _ _ _
    · rw [hfirst, loop_cons, hturn]
      · exact hloop
      · rw [hturn]
        exact fun hnil => hne (append_eq_nil_iff.mp hnil).2
      · rw [hturn]

theorem loop_store {column : Column} {more : List Column} {b : UInt8} {src : List UInt8}
    (hgreedy : p.flags.greedy = false)
    (hend : (p.turn s b src).src = [] ∨ (p.turn s b src).storeValue = true) :
    p.statefulLoop s (column :: more) (b :: src) =
      (p.statefulLoop ⟨.columnStart, (p.turn s b src).scan.currentQuote, []⟩ more
        (p.turn s b src).src).after column (p.storedValue (p.turn s b src).scan.currentValue) := by
  have hlast : p.greedyLast more = none := by
    unfold LogCSVParser.greedyLast
    rw [hgreedy]
    split
    · rfl
    · rfl
  rw [LogCSVParser.statefulLoop]
  simp only [hend, if_true, LogCSVParser.endColumn, hlast]

theorem storedValue_eq (v : List UInt8) :
    (quotedParser e dropInvalid columns d qs qe).storedValue v = v := by
  rw [LogCSVParser.storedValue, if_neg (by exact nofun)]
  rfl

theorem loop_column (hbackslash : qe ≠ 92) (quote : Option UInt8) (column : Column) (more : List Column)
    (v rest : List UInt8) (hrest : rest = [] ∨ ∃ behind, rest = d :: behind) (hdelimiter : qe ≠ d) :
    (quotedParser e dropInvalid columns d qs qe).statefulLoop ⟨.columnStart, quote, []⟩
        (column :: more) (e.encode qs qe v ++ rest) =
      ((quotedParser e dropInvalid columns d qs qe).statefulLoop ⟨.columnStart, none, []⟩ more
        rest.tail).after column v := by
  -- the start quote
  have hstart : (quotedParser e dropInvalid columns d qs qe).turn ⟨.columnStart, quote, []⟩ qs
      (v.flatMap (e.byte qe) ++ [qe] ++ rest) =
        ⟨⟨.whitespace, some qe, []⟩, v.flatMap (e.byte qe) ++ [qe] ++ rest, false⟩ := by
    have hmem : qs ∈ (quotedParser e dropInvalid columns d qs qe).quotesStart := mem_cons_self
    have hquote : (quotedParser e dropInvalid columns d qs qe).quoteOf qs = some qe := by
      simp [LogCSVParser.quoteOf, quotedParser, LogCSVParser.setQuotePairs, LogCSVParser.pairs]
    rw [LogCSVParser.turn, LogCSVParser.columnStartTurn, if_pos hmem, hquote]
  rw [Escape.encode, cons_append, loop_cons (by rw [hstart]; simp) (by rw [hstart]), hstart]
  dsimp only
  -- the value
  have hin : (⟨.whitespace, some qe, []⟩ : CsvScan).InValue qe := ⟨.inl rfl, rfl⟩
  have hne : qe :: rest ≠ [] := cons_ne_nil _ _
  obtain ⟨s, hs, hvalue, hloop⟩ :=
    @loop_value e dropInvalid columns d qs qe _ hin v (qe :: rest) hne column more
  rw [append_assoc, singleton_append, hloop]
  rw [nil_append] at hvalue
  -- the end quote
  have hend : (quotedParser e dropInvalid columns d qs qe).turn s qe rest =
      ⟨⟨.delimiter, none, v⟩, rest, false⟩ := by
    have hquote : ({ s with state := .value } : CsvScan).currentQuote = some qe := hs.2
    rw [turn_inValue rfl hs, valueTurn_quoted hquote (fun h => hbackslash h.2), if_pos rfl, hvalue]
    rintro ⟨-, -, hhead⟩
    rcases hrest with rfl | ⟨behind, rfl⟩
    · cases hhead
    · exact hdelimiter (Option.some.inj hhead).symm
  rcases hrest with rfl | ⟨behind, rfl⟩
  · rw [loop_store rfl (.inl (by rw [hend])), hend, storedValue_eq]
    rfl
  · rw [loop_cons (by rw [hend]; simp) (by rw [hend]), hend]
    have hdelim : (quotedParser e dropInvalid columns d qs qe).turn ⟨.delimiter, none, v⟩ d behind =
        ⟨⟨.delimiter, none, v⟩, behind, true⟩ := rfl
    dsimp only
    rw [loop_store rfl (.inr (by rw [hdelim])), hdelim, storedValue_eq]
    rfl

theorem loop_columns (hbackslash : qe ≠ 92) (hdelimiter : qe ≠ d) (more : List Column)
    (values : List (List UInt8)) (hlen : more.length = values.length) :
    (quotedParser e dropInvalid columns d qs qe).statefulLoop ⟨.columnStart, none, []⟩ more
        (joinColumns d (values.map (e.encode qs qe))) = ⟨more.zip values, [], some []⟩ := by
  induction values generalizing more with
  | nil =>
    obtain rfl := length_eq_zero_iff.mp hlen
    rw [LogCSVParser.statefulLoop]
    rfl
  | cons v values ih =>
    cases more with
    | nil => cases hlen
    | cons column more =>
      have ih := ih more (Nat.succ.inj hlen)
      cases values with
      | nil =>
        have hjoin : joinColumns d ([v].map (e.encode qs qe)) = e.encode qs qe v ++ [] := by
          simp [joinColumns]
        rw [hjoin, loop_column hbackslash none column more v [] (.inl rfl) hdelimiter]
        rw [show ([] : List UInt8).tail = joinColumns d (([] : List (List UInt8)).map (e.encode qs qe))
          from rfl, ih]
        rfl
      | cons w values =>
        have hjoin : joinColumns d ((v :: w :: values).map (e.encode qs qe)) =
            e.encode qs qe v ++ d :: joinColumns d ((w :: values).map (e.encode qs qe)) := by
          rw [joinColumns, map_cons, map_cons, intercalate_cons_cons, append_assoc,
            singleton_append, joinColumns]
        rw [hjoin, loop_column hbackslash none column more v _ (.inr ⟨_, rfl⟩) hdelimiter, tail_cons, ih]
        rfl

theorem byte_ne_zero (hqe : qe ≠ 0) {b c : UInt8} (hb : b ≠ 0) (hc : c ∈ e.byte qe b) : c ≠ 0 := by
  cases e with
  | doubleChar =>
    rw [Escape.byte] at hc
    split at hc
    · simp only [mem_cons, not_mem_nil, or_false, or_self] at hc
      exact hc ▸ hb
    · exact mem_singleton.mp hc ▸ hb
  | backslash =>
    rw [Escape.byte] at hc
    split at hc
    · simp only [mem_cons, not_mem_nil, or_false] at hc
      rcases hc with rfl | rfl
      · decide
      · exact hb
    · exact mem_singleton.mp hc ▸ hb

theorem cstr_joinColumns (hd : d ≠ 0) (hqs : qs ≠ 0) (hqe : qe ≠ 0) (values : List (List UInt8))
    (hvalues : ∀ v ∈ values, ∀ b ∈ v, b ≠ 0) :
    cstr (joinColumns d (values.map (e.encode qs qe))) = joinColumns d (values.map (e.encode qs qe)) := by
  rw [cstr, takeWhile_eq_self_iff]
  intro c hc
  rw [decide_eq_true_iff]
  induction values with
  | nil => cases hc
  | cons v values ih =>
    have hencode : ∀ c ∈ e.encode qs qe v, c ≠ 0 := by
      intro c hc
      simp only [Escape.encode, mem_cons, mem_append, mem_flatMap, not_mem_nil, or_false] at hc
      rcases hc with rfl | ⟨b, hb, hc⟩ | rfl
      · exact hqs
      · exact byte_ne_zero hqe (hvalues v mem_cons_self b hb) hc
      · exact hqe
    have ih := ih fun w hw => hvalues w (mem_cons_of_mem _ hw)
    cases values with
    | nil =>
      refine hencode c ?_
      simpa [joinColumns] using hc
    | cons w values =>
      rw [joinColumns, map_cons, map_cons, intercalate_cons_cons, mem_append,
        mem_append, mem_singleton] at hc
      rcases hc with (hc | rfl) | hc
      · exact hencode c hc
      · exact hd
      · exact ih hc

end

/-- **Quoted columns are parsed to themselves**, whatever is in the values. -/
theorem quoted_round_trip (e : Escape) (dropInvalid : Bool) {d qs qe : UInt8} (hd : d ≠ 0)
    (hqs : qs ≠ 0) (hqe : qe ≠ 0) (hdelimiter : qe ≠ d) (hbackslash : qe ≠ 92)
    (columns : List Column) (values : List (List UInt8)) (hlen : columns.length = values.length)
    (hvalues : ∀ v ∈ values, ∀ b ∈ v, b ≠ 0) :
    (quotedParser e dropInvalid columns d qs qe).process
        (joinColumns d (values.map (e.encode qs qe))) = (columns.zip values, true) := by
  have hescapes : ((quotedParser e dropInvalid columns d qs qe).flags.escapeNone ||
      !(quotedParser e dropInvalid columns d qs qe).flags.escapes) = false := by
    cases e <;> rfl
  have houtcome : (quotedParser e dropInvalid columns d qs qe).outcome
      (joinColumns d (values.map (e.encode qs qe))) = ⟨columns.zip values, [], some []⟩ := by
    rw [LogCSVParser.outcome, hescapes, if_neg (by decide)]
    exact loop_columns hbackslash hdelimiter columns values hlen
  rw [LogCSVParser.process, cstr_joinColumns hd hqs hqe values hvalues, houtcome]
  rfl

/-- The values `a"b` and the empty one. -/
theorem quoted_round_trip_two :
    (quotedParser .doubleChar true [[49], [50]] 44 34 34).process
        (joinColumns 44 ([[97, 34, 98], []].map (Escape.doubleChar.encode 34 34))) =
      ([[49], [50]].zip [[97, 34, 98], []], true) :=
  quoted_round_trip .doubleChar true (by decide) (by decide) (by decide) (by decide) (by decide)
    [[49], [50]] [[97, 34, 98], []] rfl (by decide +kernel)

end SyslogNg.CsvParser
