import SyslogNg.Template.Macros

/-!
# Escaped templates

With `template_escape` a reference puts a backslash before quotes and backslashes of its value, and writes
control characters as numbers. Here is which values can be read back from that, and which texts come
without it.
-/

namespace SyslogNg.Template

open Lib Time SyslogFormat List

/-! ## Escaped text -/

def isControl (c : UInt8) : Bool := c < 32 || c == 127

/-- Quote, double quote and backslash. -/
def isSpecial (c : UInt8) : Bool := c == 39 || c == 34 || c == 92

/-- There is no control character, and each special character has its escaping backslash. -/
inductive Escaped : List UInt8 → Prop where
  | nil : Escaped []
  | plain {c : UInt8} {text : List UInt8} : isSpecial c = false → isControl c = false → Escaped text →
      Escaped (c :: text)
  | escape {c : UInt8} {text : List UInt8} : isSpecial c = true → Escaped text → Escaped (92 :: c :: text)

def unescape : List UInt8 → List UInt8
  | [] => []
  | [c] => [c]
  | c :: d :: text => if c = 92 then d :: unescape text else c :: unescape (d :: text)

/-- A value can be seen in the text that is escaped. -/
def Recovers (text value : List UInt8) : Prop := Escaped text ∧ unescape text = value

/-- The value without the bytes below the space. -/
def withoutControl (value : List UInt8) : List UInt8 := value.filter fun c => 32 ≤ c

def Plain (text : List UInt8) : Prop := ∀ c ∈ text, isSpecial c = false ∧ isControl c = false

variable {c : UInt8}

theorem unescape_plain (hc : c ≠ 92) (text : List UInt8) : unescape (c :: text) = c :: unescape text := by
  cases text with
  | nil => rfl
  | cons d text => rw [unescape, if_neg hc]

theorem ne_backslash (h : isSpecial c = false) : c ≠ 92 := by
  rintro rfl
  exact absurd h (by decide)

theorem isSpecial_iff : isSpecial c = true ↔ c = 39 ∨ c = 34 ∨ c = 92 := by
  simp only [isSpecial, Bool.or_eq_true, beq_iff_eq, or_assoc]

theorem isControl_of_special (h : isSpecial c = true) : isControl c = false := by
  rcases isSpecial_iff.mp h with rfl | rfl | rfl <;> decide

theorem le_of_not_control (h : isControl c = false) : 32 ≤ c := by
  simp only [isControl, Bool.or_eq_false_iff, decide_eq_false_iff_not] at h
  exact UInt8.not_lt.mp h.1

variable {text : List UInt8}

theorem Escaped.unescape_not_control (h : Escaped text) :
    ∀ c ∈ unescape text, isControl c = false := by
  induction h with
  | nil => exact fun c hc => absurd hc not_mem_nil
  | plain hs hc _ ih =>
    rw [unescape_plain (ne_backslash hs)]
    intro c hmem
    rcases mem_cons.mp hmem with rfl | hmem
    · exact hc
    · exact ih c hmem
  | escape hs _ ih =>
    rw [unescape, if_pos rfl]
    intro c hmem
    rcases mem_cons.mp hmem with rfl | hmem
    · exact isControl_of_special hs
    · exact ih c hmem

theorem Plain.escaped (h : Plain text) : Escaped text ∧ unescape text = text := by
  induction text with
  | nil => exact ⟨.nil, rfl⟩
  | cons c text ih =>
    obtain ⟨hs, hc⟩ := h c mem_cons_self
    obtain ⟨hescaped, heq⟩ := ih fun d hd => h d (mem_cons_of_mem _ hd)
    exact ⟨.plain hs hc hescaped, by rw [unescape_plain (ne_backslash hs), heq]⟩

theorem Escaped.length_unescape (h : Escaped text) :
    (unescape text).length ≤ text.length := by
  induction h with
  | nil => exact Nat.le_refl 0
  | plain hs _ _ ih =>
    rw [unescape_plain (ne_backslash hs)]
    exact Nat.succ_le_succ ih
  | escape _ _ ih =>
    rw [unescape, if_pos rfl]
    exact Nat.le_succ_of_le (Nat.succ_le_succ ih)

theorem recovers_self : Recovers text text ↔ Plain text := by
  constructor
  · rintro ⟨hescaped, heq⟩
    induction hescaped with
    | nil => exact fun c hc => absurd hc not_mem_nil
    | plain hs hc _ ih =>
      rw [unescape_plain (ne_backslash hs)] at heq
      intro c hmem
      rcases mem_cons.mp hmem with rfl | hmem
      · exact ⟨hs, hc⟩
      · exact ih (List.cons.inj heq).2 c hmem
    | escape hs h _ =>
      -- a backslash less than there is
      rw [unescape, if_pos rfl] at heq
      have hlen := congrArg List.length heq
      have hle := h.length_unescape
      simp only [length_cons] at hlen
      omega
  · exact fun h => h.escaped

/-! ## `result_append` -/

theorem resultAppend_append (escape : Bool) (value rest : List UInt8) :
    resultAppend escape (value ++ rest) = resultAppend escape value ++ resultAppend escape rest := by
  cases escape with
  | false => rfl
  | true => exact flatMap_append

theorem resultAppend_cons (c : UInt8) (value : List UInt8) :
    resultAppend true (c :: value) =
      (if isSpecial c then [92, c] else if c < 32 then [] else [c]) ++ resultAppend true value := by
  rw [if_congr isSpecial_iff rfl rfl]
  rfl

theorem unescape_resultAppend (value : List UInt8) :
    unescape (resultAppend true value) = withoutControl value := by
  induction value with
  | nil => rfl
  | cons c value ih =>
    rw [resultAppend_cons]
    by_cases hs : isSpecial c = true
    · have hge : 32 ≤ c := le_of_not_control (isControl_of_special hs)
      rw [if_pos hs]
      show unescape (92 :: c :: resultAppend true value) = _
      rw [unescape, if_pos rfl, ih, withoutControl, withoutControl, filter_cons_of_pos (by simpa using hge)]
    · rw [if_neg hs]
      by_cases hc : c < 32
      · rw [if_pos hc, nil_append, ih, withoutControl, withoutControl,
          filter_cons_of_neg (by simpa using hc)]
      · rw [if_neg hc]
        show unescape (c :: resultAppend true value) = _
        rw [unescape_plain (ne_backslash (by simpa using hs)), ih, withoutControl, withoutControl,
          filter_cons_of_pos (by simpa using hc)]

variable {value : List UInt8}

theorem resultAppend_escaped (h : ∀ c ∈ value, isControl c = false) :
    Escaped (resultAppend true value) := by
  induction value with
  | nil => exact .nil
  | cons c value ih =>
    rw [resultAppend_cons]
    have hrest := ih fun d hd => h d (mem_cons_of_mem _ hd)
    have hc := h c mem_cons_self
    by_cases hs : isSpecial c = true
    · rw [if_pos hs]
      exact .escape hs hrest
    · rw [if_neg hs, if_neg (UInt8.not_lt.mpr (le_of_not_control hc))]
      exact .plain (by simpa using hs) hc hrest

theorem withoutControl_eq (h : ∀ c ∈ value, isControl c = false) :
    withoutControl value = value := by
  exact filter_eq_self.mpr fun c hc => decide_eq_true (le_of_not_control (h c hc))

theorem recovers_resultAppend (h : ∀ c ∈ value, isControl c = false) :
    Recovers (resultAppend true value) value :=
  ⟨resultAppend_escaped h, by rw [unescape_resultAppend, withoutControl_eq h]⟩

theorem Recovers.not_control {text value : List UInt8} (h : Recovers text value) :
    ∀ c ∈ value, isControl c = false := by
  rw [← h.2]
  exact h.1.unescape_not_control

theorem decodes_iff (values : Set (List UInt8)) :
    (∃ decode : List UInt8 → List UInt8, ∀ value ∈ values, decode (resultAppend true value) = value) ↔
      Set.InjOn withoutControl values := by
  constructor
  · rintro ⟨decode, hdecode⟩ v hv w hw heq
    -- the text of a value is that of the value without its control characters
    have hsame : ∀ value, resultAppend true value = resultAppend true (withoutControl value) := by
      intro value
      induction value with
      | nil => rfl
      | cons c value ih =>
        by_cases hc : c < 32
        · have hs : ¬isSpecial c = true := by
            intro hs
            have hcontrol : isControl c = true := by simp [isControl, hc]
            exact absurd (isControl_of_special hs) (by simp [hcontrol])
          rw [resultAppend_cons, if_neg hs, if_pos hc, nil_append, ih, withoutControl, withoutControl,
            filter_cons_of_neg (by simpa using hc)]
        · rw [withoutControl, filter_cons_of_pos (by simpa using hc), resultAppend_cons,
            resultAppend_cons, ih]
          rfl
    calc v = decode (resultAppend true v) := (hdecode v hv).symm
      _ = decode (resultAppend true w) := by rw [hsame v, hsame w, heq]
      _ = w := hdecode w hw
  · intro hinj
    refine ⟨fun text => Function.invFunOn withoutControl values (unescape text), fun value hvalue => ?_⟩
    show Function.invFunOn withoutControl values (unescape (resultAppend true value)) = value
    rw [unescape_resultAppend]
    exact hinj.leftInvOn_invFunOn hvalue

/-! ## Macros -/

/-- The macros that pass their value to `result_append`. -/
def Macro.escapes : Macro → Bool
  | .host | .sdata | .msghdr | .message | .sourceIp | .contextId | .loghost => true
  | .facility | .facilityNum | .level | .levelNum | .tag | .tags | .bsdtag | .pri | .seqnum | .sysuptime
  | .time _ _ => false

section

variable {opts : MacroOptions} {msg : MacroMessage}

theorem logMacroExpand_direct {macro_ : Macro} (h : macro_.escapes = false) :
    logMacroExpand opts msg true macro_ = logMacroExpand opts msg false macro_ := by
  cases macro_ with
  | host | sdata | msghdr | message | sourceIp | contextId | loghost => cases h
  | facility | facilityNum | level | levelNum | tag | tags | bsdtag | pri | seqnum | sysuptime => rfl
  | time of macro_ => rfl

theorem resultAppend_nil_iff (h : ∀ c ∈ value, isControl c = false) :
    resultAppend true value = [] ↔ value = [] := by
  constructor
  · intro heq
    have hvalue := unescape_resultAppend value
    rw [heq, withoutControl_eq h] at hvalue
    exact hvalue.symm
  · rintro rfl
    rfl

theorem expandMsghdr_escapes (h : ∀ c ∈ expandMsghdr msg false, isControl c = false) :
    expandMsghdr msg true = resultAppend true (expandMsghdr msg false) := by
  unfold expandMsghdr at h ⊢
  by_cases hlegacy : msg.hasLegacyMsghdr = true
  · rw [if_pos hlegacy, if_pos hlegacy]
    rfl
  · rw [if_neg hlegacy] at h
    rw [if_neg hlegacy, if_neg hlegacy]
    have hfalse : ∀ value, resultAppend false value = value := fun value => rfl
    simp only [hfalse] at h ⊢
    by_cases hprogram : msg.getValue .program = []
    · rw [hprogram]
      rfl
    · rw [if_neg hprogram] at h
      have hplain : ∀ c ∈ msg.getValue .program, isControl c = false := fun c hc =>
        h c (mem_append_left _ (mem_append_left _ hc))
      rw [if_neg (mt (resultAppend_nil_iff hplain).mp hprogram), if_neg hprogram, resultAppend_append,
        resultAppend_append]
      by_cases hpid : (msg.getValue .pid).length > 0
      · rw [if_pos hpid, if_pos hpid, resultAppend_append, resultAppend_append]
        rfl
      · rw [if_neg hpid, if_neg hpid]
        rfl

theorem logMacroExpand_escapes {macro_ : Macro} (hescapes : macro_.escapes = true)
    (h : ∀ c ∈ logMacroExpand opts msg false macro_, isControl c = false) :
    logMacroExpand opts msg true macro_ = resultAppend true (logMacroExpand opts msg false macro_) := by
  cases macro_ with
  | facility | facilityNum | level | levelNum | tag | tags | bsdtag | pri | seqnum | sysuptime =>
    cases hescapes
  | time of macro_ => cases hescapes
  | host | sdata | sourceIp | contextId | loghost => rfl
  | msghdr => exact expandMsghdr_escapes h
  | message =>
    unfold logMacroExpand at h ⊢
    dsimp only at h ⊢
    rw [resultAppend_append]
    by_cases hold : opts.old = true
    · rw [if_pos hold] at h
      rw [if_pos hold, if_pos hold, expandMsghdr_escapes fun c hc => h c (mem_append_left _ hc)]
      rfl
    · rw [if_neg hold, if_neg hold]
      rfl

end

/-! ## Numbers and names -/

theorem plain_append {text rest : List UInt8} (h : Plain text) (h' : Plain rest) : Plain (text ++ rest) :=
  fun c hc => (mem_append.mp hc).elim (h c) (h' c)

theorem plain_cons (hs : isSpecial c = false) (hc : isControl c = false)
    (h : Plain text) : Plain (c :: text) :=
  fun d hd => (mem_cons.mp hd).elim (fun heq => heq ▸ ⟨hs, hc⟩) (h d)

theorem plain_nil : Plain [] := fun _ h => absurd h not_mem_nil

theorem plain_of_range (h : 43 ≤ c.toNat ∧ c.toNat ≤ 90 ∨ 97 ≤ c.toNat ∧ c.toNat ≤ 122) :
    isSpecial c = false ∧ isControl c = false := by
  have hall : ∀ n < 256, (43 ≤ n ∧ n ≤ 90 ∨ 97 ≤ n ∧ n ≤ 122) →
      isSpecial (UInt8.ofNat n) = false ∧ isControl (UInt8.ofNat n) = false := by decide +kernel
  have h := hall c.toNat c.toNat_lt h
  rwa [UInt8.ofNat_toNat] at h

theorem plain_decimal (n : Nat) : Plain (decimal n) := by
  intro c hc
  have hdigit := decimal_digit hc
  exact plain_of_range (by omega)

theorem plain_hexadecimal (n : Nat) : Plain (hexadecimal n) := by
  unfold hexadecimal
  split
  · exact plain_cons (by decide) (by decide) plain_nil
  · intro c hc
    obtain ⟨d, hd, rfl⟩ := mem_map.mp hc
    have hlt : d < 16 := Nat.digits_lt_base (by decide) (mem_reverse.mp hd)
    have hall : ∀ d < 16, isSpecial (if d < 10 then UInt8.ofNat (48 + d) else UInt8.ofNat (87 + d)) = false ∧
        isControl (if d < 10 then UInt8.ofNat (48 + d) else UInt8.ofNat (87 + d)) = false := by decide
    exact hall d hlt

theorem plain_replicate (n : Nat) (hs : isSpecial c = false) (hc : isControl c = false) :
    Plain (List.replicate n c) := by
  intro d hd
  rw [eq_of_mem_replicate hd]
  exact ⟨hs, hc⟩

theorem plain_number {fieldLen : Nat} {padChar : UInt8} (value : Int)
    (h : fieldLen = 0 ∨ isSpecial padChar = false ∧ isControl padChar = false) :
    Plain (formatUint32Padded fieldLen padChar value) := by
  refine plain_append ?_ (plain_decimal _)
  rcases h with rfl | ⟨hs, hc⟩
  · rw [Nat.zero_sub]
    exact plain_nil
  · exact plain_replicate _ hs hc

theorem plain_formatPadded {fieldLen : Nat} {padChar : UInt8} (base value : Nat)
    (h : fieldLen = 0 ∨ isSpecial padChar = false ∧ isControl padChar = false) :
    Plain (formatPadded fieldLen padChar base value) := by
  unfold formatPadded
  split
  · exact plain_number value h
  · split
    · refine plain_append ?_ (plain_hexadecimal _)
      rcases h with rfl | ⟨hs, hc⟩
      · rw [Nat.zero_sub]
        exact plain_nil
      · exact plain_replicate _ hs hc
    · exact plain_nil

instance (text : List UInt8) : Decidable (Plain text) :=
  inferInstanceAs (Decidable (∀ c ∈ text, _ ∧ _))

theorem getD_of_forall {α : Type} {p : α → Prop} {xs : List α} {d : α} (h : ∀ x ∈ xs, p x) (hd : p d)
    (i : Nat) : p (xs.getD i d) := by
  rw [getD_eq_getElem?_getD]
  cases hget : xs[i]? with
  | none => exact hd
  | some x => exact h x (mem_of_getElem? hget)

theorem plain_nameAt {names : List String} (h : ∀ name ∈ names, Plain (bytes name)) (i : Int) :
    Plain (nameAt names i) :=
  getD_of_forall (p := fun name => Plain (bytes name)) h (by decide +kernel) i.toNat

theorem plain_month (i : Nat) : Plain (monthNamesAbbrev.getD i []) :=
  getD_of_forall (by decide +kernel) plain_nil i

theorem plain_lookup {names : List (String × Nat)} (h : ∀ entry ∈ names, Plain (bytes entry.1))
    {value : Nat} (htext : Plain text) :
    Plain ((syslogNameLookupNameByValue value names).getD text) := by
  unfold syslogNameLookupNameByValue
  cases hfind : names.find? (·.2 = value) with
  | none => exact htext
  | some entry => exact h entry (mem_of_find?_eq_some hfind)

theorem plain_digit {d : Nat} (h : d < 10) :
    isSpecial (UInt8.ofNat (d + 48)) = false ∧ isControl (UInt8.ofNat (d + 48)) = false := by
  have hdigit : (UInt8.ofNat (d + 48)).toNat = d + 48 := by
    rw [UInt8.toNat_ofNat']
    omega
  exact plain_of_range (by omega)

theorem plain_fracDigits (fracDigits : Nat) {k usecs : Nat} (h : usecs < 10 ^ k) :
    Plain (fracDigitsLoop fracDigits (10 ^ k / 10) usecs) := by
  induction fracDigits generalizing k usecs with
  | zero => exact plain_nil
  | succ fracDigits ih =>
    unfold fracDigitsLoop
    cases k with
    | zero => exact plain_nil
    | succ k =>
      have hx : 10 ^ (k + 1) / 10 = 10 ^ k := by rw [Nat.pow_succ, Nat.mul_div_cancel _ (by decide)]
      have hpos : 0 < 10 ^ k := Nat.pow_pos (by decide)
      rw [hx, if_neg (Nat.ne_of_gt hpos)]
      obtain ⟨hs, hc⟩ := plain_digit (Nat.div_lt_of_lt_mul (Nat.pow_succ .. ▸ h))
      exact plain_cons hs hc (ih (Nat.mod_lt usecs hpos))

theorem plain_frac (stamp : LogStamp) (fracDigits : Nat) :
    Plain (logStampAppendFracDigits stamp fracDigits) := by
  unfold logStampAppendFracDigits
  split
  · have hlt : stamp.tvUsec % 1000000 < 10 ^ 6 := Nat.mod_lt _ (by decide)
    exact plain_cons (by decide) (by decide) (plain_fracDigits _ hlt)
  · exact plain_nil

theorem plain_take (h : Plain text) (n : Nat) : Plain (text.take n) :=
  fun c hc => h c (mem_of_mem_take hc)

theorem plain_sign (gmtoff : Int) : isSpecial (if gmtoff < 0 then 45 else 43) = false ∧
    isControl (if gmtoff < 0 then 45 else 43) = false := by
  split <;> decide

theorem plain_two (n : Int) : Plain (formatUint32Padded 2 48 n) := plain_number n (.inr (by decide))

theorem plain_clock (tm : Tm) : Plain (formatClock tm) :=
  plain_append (plain_two _) (plain_cons (by decide) (by decide)
    (plain_append (plain_two _) (plain_cons (by decide) (by decide) (plain_two _))))

theorem plain_zone (gmtoff : Int) : Plain (formatZoneInfo gmtoff) :=
  plain_take (plain_cons (plain_sign gmtoff).1 (plain_sign gmtoff).2
    (plain_append (plain_two _) (plain_cons (by decide) (by decide) (plain_two _)))) 7

theorem plain_stamp (stamp : LogStamp) (tsFormat : TsFormat) (zoneOffset : Int) (fracDigits : Nat)
    (caches : TimeCaches) : Plain (logStampAppendFormat stamp tsFormat zoneOffset fracDigits caches).1 := by
  have hsp : isSpecial 32 = false ∧ isControl 32 = false := by decide
  have hfrac := plain_frac stamp fracDigits
  have hnum : ∀ n, Plain (formatUint32Padded 0 0 n) := fun n => plain_number n (.inl rfl)
  have hday : ∀ n, Plain (formatUint32Padded 2 32 n) := fun n => plain_number n (.inr (by decide))
  unfold logStampAppendFormat
  cases tsFormat with
  | bsd =>
    exact plain_append (plain_month _) (plain_cons hsp.1 hsp.2 (plain_append (hday _)
      (plain_cons hsp.1 hsp.2 (plain_append (plain_clock _) hfrac))))
  | iso =>
    exact plain_append (hnum _) (plain_cons (by decide) (by decide) (plain_append (plain_two _)
      (plain_cons (by decide) (by decide) (plain_append (plain_two _) (plain_cons (by decide) (by decide)
        (plain_append (plain_append (plain_clock _) hfrac) (plain_zone _)))))))
  | full =>
    exact plain_append (hnum _) (plain_cons hsp.1 hsp.2 (plain_append (plain_month _)
      (plain_cons hsp.1 hsp.2 (plain_append (hday _) (plain_cons hsp.1 hsp.2
        (plain_append (plain_clock _) hfrac))))))
  | unix => exact plain_append (hnum _) hfrac

theorem plain_time (opts : MacroOptions) (stamp : LogStamp) (macro_ : TimeMacro) :
    Plain (expandTime opts stamp macro_) := by
  have hnum : ∀ n, Plain (formatUint32Padded 0 0 n) := fun n => plain_number n (.inl rfl)
  have hzero : ∀ k n, Plain (formatUint32Padded k 48 n) := fun k n => plain_number n (.inr (by decide))
  have hpad : ∀ n, Plain (expandTime.padTwo n) := fun n =>
    plain_append (plain_replicate _ (by decide) (by decide)) (plain_decimal n)
  have hzone : ∀ gmtoff, Plain (expandTime.formatZone gmtoff) := fun gmtoff =>
    plain_take (plain_cons (plain_sign gmtoff).1 (plain_sign gmtoff).2
      (plain_append (hpad _) (plain_cons (by decide) (by decide) (hpad _)))) 63
  cases macro_ with
  | date | fulldate | isodate | stamp | unixtime => exact plain_stamp _ _ _ _ _
  | year | yearDay | month | day | hour | hour12 | min | sec | usec | msec | week => exact hzero _ _
  | monthWeek | weekDay => exact hnum _
  | monthAbbrev => exact plain_month _
  | monthName => exact plain_nameAt (by decide +kernel) _
  | weekDayAbbrev => exact plain_nameAt (by decide +kernel) _
  | weekDayName => exact plain_nameAt (by decide +kernel) _
  | tzoffset | tz => exact hzone _
  | ampm =>
    show Plain (if _ then _ else _)
    split <;> decide +kernel

theorem plain_macro (opts : MacroOptions) (msg : MacroMessage) {macro_ : Macro}
    (hescapes : macro_.escapes = false) (htags : macro_ ≠ .tags) (hbsdtag : macro_ ≠ .bsdtag) :
    Plain (logMacroExpand opts msg true macro_) := by
  cases macro_ with
  | host | sdata | msghdr | message | sourceIp | contextId | loghost => cases hescapes
  | tags => exact absurd rfl htags
  | bsdtag => exact absurd rfl hbsdtag
  | facility => exact plain_lookup (by decide +kernel) (plain_formatPadded _ _ (.inl rfl))
  | level => exact plain_lookup (by decide +kernel) (plain_formatPadded _ _ (.inl rfl))
  | facilityNum | levelNum | pri => exact plain_formatPadded _ _ (.inl rfl)
  | tag => exact plain_formatPadded _ _ (.inr (by decide))
  | sysuptime => exact plain_decimal _
  | seqnum =>
    show Plain (if _ then _ else _)
    split
    · exact plain_formatPadded _ _ (.inl rfl)
    · exact plain_nil
  | time of macro_ => exact plain_time _ _ _

/-! ## References -/

variable {F : Type}

/-- The environment of a template, with the macros of the message. -/
def macroEnv (env : TemplateEnv MacroMessage F) (opts : MacroOptions) (escape : Bool) :
    TemplateEnv MacroMessage F :=
  { env with
    escape
    macroExpand := fun id msg => ((macroOf id).map (logMacroExpand opts msg escape)).getD [] }

/-- The message that a reference is about. -/
def usedMessage (messages : List MacroMessage) (msgRef : Int) : Option MacroMessage :=
  if msgRef = 0 then messages.getLast?
  else if msgRef < 0 ∨ msgRef > messages.length then none
  else messages[messages.length - msgRef.toNat]?

/-- A macro or a value. -/
def IsReference : LogTemplateElemType F → Prop
  | .macro_ id _ => id ≠ 0
  | .value _ _ => True
  | .func _ => False

section

variable (env : TemplateEnv MacroMessage F) (opts : MacroOptions) (msg : MacroMessage)

def macroValue (id : Nat) : List UInt8 := ((macroOf id).map (logMacroExpand opts msg false)).getD []

/-- What a reference stands for: the value, or the default value in place of an empty one. -/
def originalValue : LogTemplateElemType F → List UInt8
  | .macro_ id defaultValue => if macroValue opts msg id = [] then defaultValue.getD [] else macroValue opts msg id
  | .value name defaultValue =>
    let value := env.getValue msg name
    if value.bytes ≠ [] then value.bytes else if value.first ≠ 0 then [] else defaultValue.getD []
  | .func _ => []

/-- The value goes around `result_append`: it is that of a macro that appends it, or the default value of a
macro. -/
def AppendedAsIs : LogTemplateElemType F → Prop
  | .macro_ id _ => macroValue opts msg id = [] ∨ ∀ macro_, macroOf id = some macro_ → macro_.escapes = false
  | .value _ _ => False
  | .func _ => False

end

/-- What a reference adds to the result. -/
def referenceText (env : TemplateEnv MacroMessage F) (msg : MacroMessage) : LogTemplateElemType F → List UInt8
  | .macro_ id defaultValue =>
    if env.macroExpand id msg = [] then defaultValue.getD [] else env.macroExpand id msg
  | .value name defaultValue =>
    let value := env.getValue msg name
    if value.first ≠ 0 then resultAppend env.escape value.bytes else resultAppend env.escape (defaultValue.getD [])
  | .func _ => []

section

variable {env : TemplateEnv MacroMessage F} {opts : MacroOptions} {msg : MacroMessage}
  {messages : List MacroMessage}

theorem expandElem_used {elem : LogTemplateElem F} (hused : usedMessage messages elem.msgRef = some msg)
    (href : IsReference elem.type) :
    expandElem env messages elem = some (referenceText env msg elem.type) := by
  obtain ⟨text, type, msgRef⟩ := elem
  dsimp only at hused href ⊢
  -- the index is the one of `usedMessage`
  have hndx : ¬msgRef > messages.length ∧
      ¬(messages.length : Int) - msgRef - (if msgRef = 0 then 1 else 0) < 0 ∧
      messages[((messages.length : Int) - msgRef - (if msgRef = 0 then 1 else 0)).toNat]? = some msg := by
    unfold usedMessage at hused
    by_cases hzero : msgRef = 0
    · rw [if_pos hzero] at hused
      have hne : messages ≠ [] := fun hnil => by simp [hnil] at hused
      have hpos := length_pos_iff.mpr hne
      have hindex : ((messages.length : Int) - msgRef - 1).toNat = messages.length - 1 := by omega
      rw [if_pos hzero, hindex, ← getLast?_eq_getElem?]
      exact ⟨by omega, by omega, hused⟩
    · rw [if_neg hzero] at hused
      by_cases hout : msgRef < 0 ∨ msgRef > messages.length
      · rw [if_pos hout] at hused
        cases hused
      · rw [if_neg hout] at hused
        have hindex : ((messages.length : Int) - msgRef - 0).toNat = messages.length - msgRef.toNat := by omega
        rw [if_neg hzero, hindex]
        exact ⟨by omega, by omega, hused⟩
  obtain ⟨hin, hnonneg, hget⟩ := hndx
  unfold expandElem
  cases type with
  | macro_ id defaultValue =>
    have hid : id ≠ 0 := href
    simp only [if_neg hin, if_neg hid, if_neg hnonneg, hget]
    rfl
  | value name defaultValue =>
    simp only [if_neg hin, if_neg hnonneg, hget]
    rfl
  | func func => exact href.elim

theorem recovers_escaped {text value : List UInt8}
    (h : (∀ c ∈ value, isControl c = false) → text = resultAppend true value) :
    Recovers text value ↔ ∀ c ∈ value, isControl c = false :=
  ⟨fun hrecovers => hrecovers.not_control, fun hplain => h hplain ▸ recovers_resultAppend hplain⟩

theorem recovers_value (name : List UInt8) (defaultValue : Option (List UInt8)) :
    Recovers (referenceText (macroEnv env opts true) msg (.value name defaultValue))
        (originalValue env opts msg (.value name defaultValue)) ↔
      ∀ c ∈ originalValue env opts msg (.value name defaultValue), isControl c = false := by
  refine recovers_escaped fun hplain => ?_
  unfold originalValue at hplain ⊢
  show (if (env.getValue msg name).first ≠ 0 then resultAppend true (env.getValue msg name).bytes
    else resultAppend true (defaultValue.getD [])) = _
  dsimp only at hplain ⊢
  generalize env.getValue msg name = value at hplain ⊢
  obtain ⟨bytes, behind⟩ := value
  cases bytes with
  | nil =>
    have hnil : ¬([] : List UInt8) ≠ [] := fun hne => hne rfl
    rw [if_neg hnil]
    split <;> rfl
  | cons c bytes =>
    rw [if_pos (cons_ne_nil c bytes)] at hplain ⊢
    -- a value that starts with a NUL byte has a control character
    have hfirst : LogValue.first ⟨c :: bytes, behind⟩ ≠ 0 := by
      intro hzero
      have hc := hplain c mem_cons_self
      have hzero : c = 0 := hzero
      rw [hzero] at hc
      exact absurd hc (by decide)
    rw [if_pos hfirst]

theorem plain_iff :
    Plain text ↔ (∀ c ∈ text, isControl c = false) ∧ ∀ c ∈ text, isSpecial c = false :=
  ⟨fun h => ⟨fun c hc => (h c hc).2, fun c hc => (h c hc).1⟩, fun h c hc => ⟨h.2 c hc, h.1 c hc⟩⟩

theorem recovers_macro (id : Nat) (defaultValue : Option (List UInt8)) :
    Recovers (referenceText (macroEnv env opts true) msg (.macro_ id defaultValue))
        (originalValue env opts msg (.macro_ id defaultValue)) ↔
      (∀ c ∈ originalValue env opts msg (.macro_ id defaultValue), isControl c = false) ∧
        (AppendedAsIs opts msg (.macro_ id defaultValue : LogTemplateElemType F) →
          ∀ c ∈ originalValue env opts msg (.macro_ id defaultValue), isSpecial c = false) := by
  have happend : AppendedAsIs opts msg (.macro_ id defaultValue : LogTemplateElemType F) ↔
      macroValue opts msg id = [] ∨ ∀ macro_, macroOf id = some macro_ → macro_.escapes = false := Iff.rfl
  have horiginal : originalValue env opts msg (.macro_ id defaultValue) =
      if macroValue opts msg id = [] then defaultValue.getD [] else macroValue opts msg id := rfl
  have htext : referenceText (macroEnv env opts true) msg (.macro_ id defaultValue) =
      if ((macroOf id).map (logMacroExpand opts msg true)).getD [] = [] then defaultValue.getD []
      else ((macroOf id).map (logMacroExpand opts msg true)).getD [] := rfl
  by_cases hasis : AppendedAsIs opts msg (.macro_ id defaultValue : LogTemplateElemType F)
  · -- the text is the value
    have hsame : ((macroOf id).map (logMacroExpand opts msg true)).getD [] = macroValue opts msg id := by
      unfold macroValue
      cases hmacro : macroOf id with
      | none => rfl
      | some macro_ =>
        show logMacroExpand opts msg true macro_ = logMacroExpand opts msg false macro_
        cases hescapes : macro_.escapes with
        | false => exact logMacroExpand_direct hescapes
        | true =>
          have hnil : logMacroExpand opts msg false macro_ = [] := by
            rcases hasis with hnil | hall
            · unfold macroValue at hnil
              rwa [ hmacro] at hnil
            · rw [hall macro_ hmacro] at hescapes
              cases hescapes
          rw [logMacroExpand_escapes hescapes (by rw [hnil]; exact fun c hc => absurd hc not_mem_nil), hnil]
          rfl
    rw [htext, hsame, ← horiginal, recovers_self, plain_iff]
    exact and_congr_right fun _ => ⟨fun h _ => h, fun h => h hasis⟩
  · rw [happend, not_or] at hasis
    obtain ⟨hne, hescapes⟩ := hasis
    obtain ⟨macro_, hmacro, hescapes⟩ : ∃ macro_, macroOf id = some macro_ ∧ macro_.escapes = true := by
      by_contra hno
      refine hescapes fun macro_ hmacro => ?_
      by_contra htrue
      exact hno ⟨macro_, hmacro, by simpa using htrue⟩
    rw [horiginal, if_neg hne, happend]
    have hvalue : macroValue opts msg id = logMacroExpand opts msg false macro_ := by
      unfold macroValue
      rw [ hmacro]
      rfl
    have htext : (∀ c ∈ macroValue opts msg id, isControl c = false) →
        referenceText (macroEnv env opts true) msg (.macro_ id defaultValue) =
          resultAppend true (macroValue opts msg id) := by
      intro hplain
      have hexpand : ((macroOf id).map (logMacroExpand opts msg true)).getD [] =
          resultAppend true (macroValue opts msg id) := by
        rw [ hmacro, hvalue]
        exact logMacroExpand_escapes hescapes (hvalue ▸ hplain)
      rw [htext, hexpand, if_neg (mt (resultAppend_nil_iff hplain).mp hne)]
    rw [recovers_escaped htext]
    refine ⟨fun h => ⟨h, fun hasis => ?_⟩, fun h => h.1⟩
    rcases hasis with hnil | hall
    · exact absurd hnil hne
    · rw [hall macro_ hmacro] at hescapes
      cases hescapes

end

/-- A reference adds an escaped text from which its value can be read back if and only if the value has no
control character, and no quote, double quote or backslash where it goes around `result_append`; of the
macros that do, all but two never have one. Values can be told apart by their texts if and only if they
differ in more than control characters. -/
theorem escaped_reference_iff :
    (∀ (env : TemplateEnv MacroMessage F) (opts : MacroOptions) (messages : List MacroMessage)
      (elem : LogTemplateElem F) (msg : MacroMessage), usedMessage messages elem.msgRef = some msg →
      IsReference elem.type →
      ∃ text, expandElem (macroEnv env opts true) messages elem = some text ∧
        (Recovers text (originalValue env opts msg elem.type) ↔
          (∀ c ∈ originalValue env opts msg elem.type, isControl c = false) ∧
            (AppendedAsIs opts msg elem.type →
              ∀ c ∈ originalValue env opts msg elem.type, isSpecial c = false))) ∧
    (∀ (opts : MacroOptions) (msg : MacroMessage) (macro_ : Macro), macro_.escapes = false →
      macro_ ≠ .tags → macro_ ≠ .bsdtag → Plain (logMacroExpand opts msg true macro_)) ∧
    ∀ values : Set (List UInt8),
      (∃ decode : List UInt8 → List UInt8, ∀ value ∈ values, decode (resultAppend true value) = value) ↔
        Set.InjOn withoutControl values := by
  refine ⟨fun env opts messages elem msg hused href => ⟨_, expandElem_used hused href, ?_⟩,
    fun opts msg macro_ => plain_macro opts msg, decodes_iff⟩
  obtain ⟨text, type, msgRef⟩ := elem
  cases type with
  | macro_ id defaultValue => exact recovers_macro id defaultValue
  | value name defaultValue =>
    rw [recovers_value]
    exact ⟨fun h => ⟨h, fun hasis => hasis.elim⟩, fun h => h.1⟩
  | func func => exact href.elim

/-- A message with a priority and a program. -/
def programMessage (pri : Nat) (program : List UInt8) : MacroMessage where
  pri := pri
  utf8 := false
  isLocal := false
  internal := false
  hasLegacyMsghdr := false
  initialParse := false
  stamp := ⟨0, 0, 0⟩
  recvd := ⟨0, 0, 0⟩
  values handle := if handle = .program then some program else none
  sdata := []
  chainedHostname := false
  tags := []
  saddr := none

def programEnv : TemplateEnv MacroMessage Unit :=
  ⟨fun _ => 0, fun _ _ => [], fun msg _ => ⟨msg.getValue .program, 0⟩, true, fun _ => none, fun _ _ => []⟩

def bsdOptions : MacroOptions :=
  ⟨false, .bsd, 0, none, 0, none, [], 0, ⟨0, 0, 0⟩, fun _ => .zero, .init⟩

/-- `it's` is written `it\'s`. -/
theorem escaped_reference_quote : ∃ text,
    expandElem (macroEnv programEnv bsdOptions true) [programMessage 13 [105, 116, 39, 115]]
      ⟨[], .value [80] none, 0⟩ = some text ∧ Recovers text [105, 116, 39, 115] := by
  obtain ⟨text, htext, hiff⟩ := (@escaped_reference_iff Unit).1 programEnv bsdOptions
    [programMessage 13 [105, 116, 39, 115]] ⟨[], .value [80] none, 0⟩ _ rfl trivial
  exact ⟨text, htext, hiff.mpr ⟨by decide +kernel, fun hasis => hasis.elim⟩⟩

/-- Two programs that differ in a control character have the same text; `$BSDTAG` of the priority 223 and
the default value of a macro are not escaped. -/
theorem escaping_loses :
    expandElem (macroEnv programEnv bsdOptions true) [programMessage 13 [97]] ⟨[], .value [80] none, 0⟩ =
      expandElem (macroEnv programEnv bsdOptions true) [programMessage 13 [97, 1]] ⟨[], .value [80] none, 0⟩ ∧
    originalValue programEnv bsdOptions (programMessage 13 [97]) (.value [80] none) ≠
      originalValue programEnv bsdOptions (programMessage 13 [97, 1]) (.value [80] none) ∧
    ¬Escaped (logMacroExpand bsdOptions (programMessage 223 []) true .bsdtag) ∧
    ¬Escaped (referenceText (macroEnv programEnv bsdOptions true) (programMessage 13 [])
      (.macro_ 9 (some [39]))) := by
  refine ⟨by decide +kernel, by decide +kernel, fun h => ?_, fun h => ?_⟩
  · have htext : logMacroExpand bsdOptions (programMessage 223 []) true .bsdtag = [55, 92] := by decide +kernel
    rw [htext] at h
    cases h with
    | plain _ _ h => cases h with
      | plain hs _ _ => exact absurd hs (by decide)
  · have htext : referenceText (macroEnv programEnv bsdOptions true) (programMessage 13 [])
        (.macro_ 9 (some [39])) = [39] := by decide +kernel
    rw [htext] at h
    cases h with
    | plain hs _ _ => exact absurd hs (by decide)

end SyslogNg.Template
