import SyslogNg.LogWriter.FormatLog
import SyslogNg.SyslogFormat.IsoRoundTrip

/-!
# The header of a message that is relayed

The priority, the version, the time stamp and the columns of the header are read by the parser of the
syslog protocol as `log_writer_format_log` has written them.
-/

namespace SyslogNg.LogWriter

open Lib Time SyslogFormat
open List (cons_append drop_zero length_cons)

/-! ## Reading the header -/

theorem scanUntil_append {stop good : UInt8 → Bool} {text src : List UInt8} {b : UInt8} {left : Int}
    (htext : ∀ c ∈ text, stop c = false ∧ good c = true) (hb : stop b = true) (hleft : text.length < left) :
    scanUntil stop good (text ++ b :: src) left = .ok (text, ⟨b :: src, left - text.length⟩) := by
  induction text generalizing left with
  | nil =>
    rw [List.nil_append, scanUntil, if_pos (.inr hb), List.length_nil, Nat.cast_zero, Int.sub_zero]
  | cons c text ih =>
    obtain ⟨hnot, hgood⟩ := htext c List.mem_cons_self
    rw [length_cons] at hleft
    have hne : left ≠ 0 := by omega
    rw [cons_append, scanUntil, if_neg (by simp [hne, hnot]), if_pos hgood,
      ih (fun d hd => htext d (List.mem_cons_of_mem _ hd)) (by push_cast at hleft; omega)]
    simp only [Res.ok_bind, Res.pure_eq, Res.ok.injEq, Prod.mk.injEq, Cursor.mk.injEq, true_and,
      length_cons]
    push_cast
    omega

theorem not_isDigit_of_eq {c b : UInt8} (hc : isDigit c = true) (hb : isDigit b = false) :
    (c == b) = false := by
  rw [beq_eq_false_iff_ne]
  rintro rfl
  rw [hc] at hb
  cases hb

section

variable {options : MsgFormatOptions} {msg : LogMessage} {src : List UInt8} {left : Int}

theorem parsePri_text {pri : Nat} (hpri : pri < 65536) (hleft : 0 < left) :
    logMsgParsePri options msg ⟨60 :: (decimal pri ++ 62 :: src), (decimal pri).length + 2 + left⟩ =
      .ok ({ msg with pri := pri }, ⟨src, left⟩) := by
  have hhas : leftAnd (· == 60) ⟨60 :: (decimal pri ++ 62 :: src), (decimal pri).length + 2 + left⟩ =
      .ok true := by
    rw [leftAnd, if_neg (by dsimp only; omega)]
    rfl
  have hscan := @scanUntil_append (· == 62) isDigit (decimal pri) src 62
    ((decimal pri).length + 2 + left - 1)
    (fun c hc => ⟨not_isDigit_of_eq (isDigit_of_mem_decimal hc) rfl, isDigit_of_mem_decimal hc⟩) rfl
    (by omega)
  have hread : readDecimal 0 (decimal pri) % 2 ^ 16 = pri := by
    rw [readDecimal_decimal]
    omega
  rw [logMsgParsePri, hhas, Res.ok_bind, if_pos rfl]
  simp only [List.drop_succ_cons, drop_zero]
  rw [hscan, Res.ok_bind]
  simp only [hread]
  rw [if_neg (by omega)]
  simp only [Cursor.advance, Res.pure_eq, Res.ok.injEq, Prod.mk.injEq, Cursor.mk.injEq, true_and,
    List.drop_succ_cons, drop_zero]
  omega

theorem parseVersion_text (hleft : 0 < left) :
    logMsgParseVersion ⟨49 :: 32 :: src, 1 + left⟩ = .ok ⟨32 :: src, left⟩ := by
  have hscan := @scanUntil_append (· == 32) isDigit [49] src 32 (1 + left)
    (by simp [isDigit]) rfl (by simpa using hleft)
  rw [logMsgParseVersion]
  show (scanUntil (· == 32) isDigit ([49] ++ 32 :: src) (1 + left) >>= _) = _
  rw [hscan, Res.ok_bind]
  simp only
  rw [if_neg (by decide)]
  simp only [List.length_singleton, Nat.cast_one, Res.pure_eq, Res.ok.injEq, Cursor.mk.injEq, true_and]
  omega

theorem skipSpace_text (hleft : 0 ≤ left) :
    logMsgParseSkipSpace ⟨32 :: src, 1 + left⟩ = .ok ⟨src, left⟩ := by
  rw [logMsgParseSkipSpace, if_pos (by dsimp only; omega)]
  simp [peek, Cursor.advance]

/-! ## Columns -/

def fieldText (value : List UInt8) : List UInt8 := if value = [] then [45] else value

/-- A field of the header: printable characters, but not only a hyphen. -/
structure FieldOk (value : List UInt8) : Prop where
  hyphen : value ≠ [45]
  chars : ∀ b ∈ value, 33 ≤ b ∧ b ≤ 126

theorem FieldOk.no_space {value : List UInt8} (h : FieldOk value) : 32 ∉ value := fun hmem =>
  absurd (h.chars 32 hmem).1 (by decide)

theorem FieldOk.no_space_text {value : List UInt8} (h : FieldOk value) : 32 ∉ fieldText value := by
  unfold fieldText
  split
  · decide
  · exact h.no_space

theorem appendValue_eq {handle : NVHandle} (h : FieldOk (msg.getValue handle)) :
    logWriterAppendValue msg handle true true = fieldText (msg.getValue handle) ++ [32] := by
  have hspace : 32 ∉ (msg.getValue handle).takeWhile (· ≠ 0) := fun hmem =>
    h.no_space (List.takeWhile_subset _ hmem)
  have hall : upToSpace (msg.getValue handle) = msg.getValue handle := if_neg hspace
  simp [logWriterAppendValue, fieldText, hall]

/-- What the parser makes of a column. -/
def storeColumn (msg : LogMessage) (handle : NVHandle) (value : List UInt8) : LogMessage :=
  if value = [] then msg else msg.setValue handle value

theorem parseColumn_text {handle : NVHandle} {value : List UInt8} {maxLength : Nat}
    (hvalue : FieldOk value) (hlen : value.length ≤ maxLength) (hleft : 0 < left) :
    logMsgParseColumn handle maxLength msg
        ⟨fieldText value ++ 32 :: src, (fieldText value).length + left⟩ =
      .ok (storeColumn msg handle value, ⟨32 :: src, left⟩) := by
  have hscan := @scanUntil_append (· == 32) (fun _ => true) (fieldText value) src 32
    ((fieldText value).length + left)
    (fun c hc => ⟨by
      rw [beq_eq_false_iff_ne]
      rintro rfl
      exact hvalue.no_space_text hc, rfl⟩) rfl (by omega)
  rw [logMsgParseColumn, skipUntil, hscan, Res.ok_bind]
  have hrest : ((fieldText value).length : Int) + left - (fieldText value).length = left := by omega
  simp only [hrest]
  unfold storeColumn
  by_cases hnil : value = []
  · rw [if_pos (.inr (by simp [fieldText, hnil])), if_pos hnil]
    rfl
  · have htext : fieldText value = value := if_neg hnil
    have hne : ¬ (left = 0 ∨ fieldText value = [45]) := by
      rw [htext]
      rintro (h | h)
      · omega
      · exact hvalue.hyphen h
    rw [if_neg hne, if_neg hnil, htext, List.take_of_length_le hlen]
    rfl

/-! ## The host name -/

/-- A host name that the parser finds. -/
structure HostOk (host : List UInt8) : Prop where
  colon : 58 ∉ host
  bracket : 91 ∉ host
  length : host.length ≤ 255

theorem hostnameLoop_text {host : List UInt8} {room : Nat} (hspace : 32 ∉ host) (hcolon : 58 ∉ host)
    (hbracket : 91 ∉ host) (hroom : host.length ≤ room) (hleft : host.length < left) :
    hostnameLoop false room (host ++ 32 :: src) left = .ok (host, ⟨32 :: src, left - host.length⟩) := by
  induction host generalizing room left with
  | nil =>
    rw [List.nil_append, List.length_nil, Nat.cast_zero, Int.sub_zero]
    cases room with
    | zero => rfl
    | succ room => rw [hostnameLoop, if_pos (.inr (.inl rfl))]
  | cons b host ih =>
    rw [length_cons] at hroom hleft
    obtain ⟨room, rfl⟩ : ∃ n, room = n + 1 := ⟨room - 1, by omega⟩
    rw [List.mem_cons, not_or] at hspace hcolon hbracket
    have hne : left ≠ 0 := by omega
    have hgo : ¬ (left = 0 ∨ b = 32 ∨ b = 58 ∨ b = 91 ∨ (false = true ∧ isInvalidChar b = true)) := by
      rintro (h | h | h | h | ⟨h, -⟩)
      · exact hne h
      · exact hspace.1 h.symm
      · exact hcolon.1 h.symm
      · exact hbracket.1 h.symm
      · cases h
    rw [cons_append, hostnameLoop, if_neg hgo,
      ih hspace.2 hcolon.2 hbracket.2 (by omega) (by push_cast at hleft; omega)]
    simp only [Res.ok_bind, Res.pure_eq, Res.ok.injEq, Prod.mk.injEq, Cursor.mk.injEq, true_and,
      length_cons]
    push_cast
    omega

theorem parseHostname_text {host : List UInt8} (hcheck : options.checkHostname = false)
    (hspace : 32 ∉ host) (hok : HostOk host) (hleft : 0 < left) :
    logMsgParseHostname options none ⟨host ++ 32 :: src, host.length + left⟩ =
      .ok (some host, ⟨32 :: src, left⟩) := by
  have hrest : (host.length : Int) + left - host.length = left := by omega
  have hspace' : leftAnd (· == 32) ⟨32 :: src, left⟩ = .ok true := by
    rw [leftAnd, if_neg (by dsimp only; omega)]
    rfl
  rw [logMsgParseHostname, hcheck, hostnameLoop_text hspace hok.colon hok.bracket hok.length (by
    dsimp only; omega), Res.ok_bind]
  simp only [hrest, hspace']
  rfl

end

/-! ## The time stamp -/

theorem fracDigitsLoop_digits (k j : Nat) {usecs : Nat} (h : usecs < 10 ^ (j + 1)) :
    (∀ c ∈ fracDigitsLoop k (10 ^ j) usecs, isDigit c = true) ∧
      (fracDigitsLoop k (10 ^ j) usecs).length ≤ j + 1 := by
  induction k generalizing j usecs with
  | zero => simp [fracDigitsLoop]
  | succ k ih =>
    have hpos : 0 < 10 ^ j := Nat.pow_pos (by decide)
    have hdigit : isDigit (UInt8.ofNat (usecs / 10 ^ j + 48)) = true := by
      rw [Nat.add_comm]
      exact isDigit_digit (Nat.div_lt_of_lt_mul (by rwa [Nat.pow_succ] at h))
    rw [fracDigitsLoop, if_neg (by omega)]
    cases j with
    | zero =>
      -- behind the last digit, `x` is 0
      have hstop : fracDigitsLoop k (10 ^ 0 / 10) (usecs % 10 ^ 0) = [] := by
        cases k with
        | zero => rfl
        | succ k => rw [fracDigitsLoop, if_pos (by decide)]
      rw [hstop]
      exact ⟨by simpa using hdigit, by simp⟩
    | succ j =>
      have hdiv : 10 ^ (j + 1) / 10 = 10 ^ j := by
        rw [Nat.pow_succ, Nat.mul_div_cancel _ (by decide)]
      rw [hdiv]
      obtain ⟨hall, hlen⟩ := ih j (Nat.mod_lt usecs hpos)
      refine ⟨fun c hc => ?_, by simpa using hlen⟩
      rcases List.mem_cons.1 hc with rfl | hc
      · exact hdigit
      · exact hall c hc

theorem fracLoop_digits {digits src : List UInt8} {b : UInt8} {room frac div : Nat} {left : Int}
    (hdigits : ∀ c ∈ digits, isDigit c = true) (hb : isDigit b = false) (hroom : digits.length ≤ room)
    (hleft : digits.length < left) :
    ∃ frac' div', fracLoop room frac div ⟨digits ++ b :: src, left⟩ =
      .ok (frac', div', ⟨b :: src, left - digits.length⟩) := by
  induction digits generalizing room frac div left with
  | nil =>
    refine ⟨frac, div, ?_⟩
    cases room with
    | zero => simp [fracLoop]
    | succ room =>
      rw [fracLoop, if_pos (by simpa using hleft)]
      simp [peek, hb]
  | cons c digits ih =>
    rw [length_cons] at hroom hleft
    obtain ⟨room, rfl⟩ : ∃ n, room = n + 1 := ⟨room - 1, by omega⟩
    obtain ⟨frac', div', h⟩ := @ih room (10 * frac + (c.toNat - 48)) (div * 10) (left - 1)
      (fun d hd => hdigits d (List.mem_cons_of_mem _ hd)) (by omega) (by push_cast at hleft; omega)
    refine ⟨frac', div', ?_⟩
    rw [fracLoop, if_pos (by dsimp only; omega)]
    simp only [cons_append, peek, Res.ok_bind, hdigits c List.mem_cons_self, if_true,
      Cursor.advance, List.drop_succ_cons, drop_zero, Nat.cast_one]
    rw [h]
    simp only [Res.ok.injEq, Prod.mk.injEq, Cursor.mk.injEq, true_and, length_cons]
    push_cast
    omega

theorem isoFrac_any {stamp : LogStamp} {fracDigits : Nat} {b : UInt8} {src : List UInt8} {left : Int}
    (hb : isDigit b = false) (hdot : b ≠ 46)
    (hleft : (logStampAppendFracDigits stamp fracDigits).length < left) :
    ∃ usec, isoFrac ⟨logStampAppendFracDigits stamp fracDigits ++ b :: src, left⟩ =
      .ok (usec, ⟨b :: src, left - (logStampAppendFracDigits stamp fracDigits).length⟩) := by
  unfold logStampAppendFracDigits at hleft ⊢
  split
  case isFalse hnone =>
    refine ⟨0, ?_⟩
    have hnext : nextIs 46 ⟨b :: src, left⟩ = .ok false := by
      rw [nextIs]
      split
      · simp [testAt, hdot]
      · rfl
    rw [List.nil_append, isoFrac, hnext]
    simp
  case isTrue hsome =>
    rw [if_pos hsome, length_cons] at hleft
    obtain ⟨hdigits, hlen⟩ := @fracDigitsLoop_digits fracDigits 5 (stamp.tvUsec % 1000000)
      (Nat.mod_lt _ (by decide))
    obtain ⟨frac, div, hloop⟩ := @fracLoop_digits (fracDigitsLoop fracDigits 100000
      (stamp.tvUsec % 1000000)) src b 6 0 1 (left - 1) hdigits hb hlen (by push_cast at hleft; omega)
    have hnext : nextIs 46 ⟨46 :: fracDigitsLoop fracDigits 100000 (stamp.tvUsec % 1000000) ++ b :: src,
        left⟩ = .ok true := by
      rw [nextIs, if_pos (by dsimp only; omega)]
      rfl
    refine ⟨frac * (1000000 / div), ?_⟩
    rw [isoFrac, hnext, Res.ok_bind, if_pos rfl]
    simp only [Cursor.advance, cons_append, List.drop_succ_cons, drop_zero, Nat.cast_one]
    rw [hloop, Res.ok_bind]
    simp only [skipDigits, hb, Bool.false_eq_true, if_false, Res.ok_bind, Res.pure_eq, Res.ok.injEq,
      Prod.mk.injEq, Cursor.mk.injEq, true_and, length_cons]
    push_cast
    omega

theorem Tm.zero_fields : TmFields .zero 1900 1 0 0 0 0 := by
  constructor <;> decide

theorem zoneSign_cases (ofs : Int) : zoneSign ofs = 43 ∨ zoneSign ofs = 45 := by
  unfold zoneSign
  split
  · exact .inr rfl
  · exact .inl rfl

def targetOffset (stamp : LogStamp) (zoneOffset : Int) : Int :=
  if zoneOffset ≠ -1 then zoneOffset else stamp.zoneOffset

/-- A stamp that is written with a year of four digits, and with an offset below 100 hours. -/
structure StampOk (stamp : LogStamp) (zoneOffset : Int) : Prop where
  lower : 1000 ≤ (gmtime (stamp.tvSec + targetOffset stamp zoneOffset)).year + 1900
  upper : (gmtime (stamp.tvSec + targetOffset stamp zoneOffset)).year + 1900 < 10000
  offset : (targetOffset stamp zoneOffset).natAbs < 360000

section

variable {zone : TimeZone} {stamp : LogStamp} {zoneOffset : Int} {caches : TimeCaches}

theorem formatIso_text (hok : CachesOk zone caches) (hstamp : StampOk stamp zoneOffset) (fracDigits : Nat) :
    ∃ year mon mday hour min sec tm, TmFields tm year mon mday hour min sec ∧ year < 10000 ∧
      (logStampAppendFormat stamp .iso zoneOffset fracDigits caches).1 =
        isoClock year mon mday hour min sec ++ (logStampAppendFracDigits stamp fracDigits ++
          isoOffset (zoneSign (targetOffset stamp zoneOffset))
            ((targetOffset stamp zoneOffset).natAbs / 3600)
            ((targetOffset stamp zoneOffset).natAbs % 3600 / 60)) := by
  have hlower := hstamp.lower
  have hupper := hstamp.upper
  -- the first entry of a new cache gives year 1900 for the time 0
  obtain ⟨year, mon, mday, hour, min, sec, hf, hfrom, hto⟩ : ∃ year mon mday hour min sec,
      TmFields (cachedGmtime (stamp.tvSec + targetOffset stamp zoneOffset) caches).1
        year mon mday hour min sec ∧ 1000 ≤ year ∧ year < 10000 := by
    rcases cachedGmtime_cases hok (stamp.tvSec + targetOffset stamp zoneOffset) with h | h
    · rw [h]
      obtain ⟨year, mon, mday, hour, min, sec, hf⟩ :=
        @gmtime_fields (stamp.tvSec + targetOffset stamp zoneOffset) (by omega)
      have := hf.yearEq
      exact ⟨year, mon, mday, hour, min, sec, hf, by omega, by omega⟩
    · rw [h]
      exact ⟨_, _, _, _, _, _, Tm.zero_fields, by decide, by decide⟩
  refine ⟨year, mon, mday, hour, min, sec, _, hf, hto, ?_⟩
  have htarget : (if zoneOffset ≠ -1 then zoneOffset else stamp.zoneOffset) =
      targetOffset stamp zoneOffset := rfl
  simp only [logStampAppendFormat, htarget, formatZoneInfo_eq hstamp.offset, formatClock, hf.yearEq,
    hf.monEq, hf.mdayEq, hf.hourEq, hf.minEq, hf.secEq, formatUint32Padded_two hf.monLt,
    formatUint32Padded_two hf.mdayLt, formatUint32Padded_two hf.hourLt,
    formatUint32Padded_two hf.minLt, formatUint32Padded_two hf.secLt]
  rw [formatUint32Padded_year hfrom hto]
  simp [isoClock, two]

theorem parseDate_text (hok : CachesOk zone caches) (hstamp : StampOk stamp zoneOffset) (fracDigits : Nat)
    (env : ParseEnv) (assume : Int) (st : DateState) {src : List UInt8} {left : Int} (hleft : 0 < left) :
    ∃ stamp' caches', logMsgParseDate env true assume st
        ⟨(logStampAppendFormat stamp .iso zoneOffset fracDigits caches).1 ++ 32 :: src,
          (logStampAppendFormat stamp .iso zoneOffset fracDigits caches).1.length + left⟩ =
      .ok (true, ⟨{ st.msg with stamp := stamp' }, caches'⟩, ⟨32 :: src, left⟩) := by
  obtain ⟨year, mon, mday, hour, min, sec, tm, hf, hyear, htext⟩ :=
    formatIso_text hok hstamp fracDigits
  generalize hofs : targetOffset stamp zoneOffset = ofs at htext
  have hoffset := hstamp.offset
  rw [hofs] at hoffset
  generalize hfrac : logStampAppendFracDigits stamp fracDigits = frac at htext
  have hnodigit : isDigit (zoneSign ofs) = false ∧ zoneSign ofs ≠ 46 := by
    rcases zoneSign_cases ofs with h | h
    · rw [h]
      decide
    · rw [h]
      decide
  have hclock : (isoClock year mon mday hour min sec).length = 19 := rfl
  have hzone : (isoOffset (zoneSign ofs) (ofs.natAbs / 3600) (ofs.natAbs % 3600 / 60)).length = 6 := rfl
  rw [htext, List.append_assoc, List.append_assoc, List.length_append, List.length_append, hclock, hzone]
  have hscan := @scanIsoTimestamp_clock year mon mday hour min sec
    (cachedLocaltime env.zone env.now st.caches).1
    (frac ++ (isoOffset (zoneSign ofs) (ofs.natAbs / 3600) (ofs.natAbs % 3600 / 60) ++ 32 :: src))
    ((19 + (frac.length + 6) : Nat) + left) hyear hf.monLt hf.mdayLt hf.hourLt hf.minLt hf.secLt
    (by omega)
  obtain ⟨usec, husec⟩ := @isoFrac_any stamp fracDigits (zoneSign ofs)
    (two (ofs.natAbs / 3600) ++ [58] ++ two (ofs.natAbs % 3600 / 60) ++ 32 :: src)
    ((19 + (frac.length + 6) : Nat) + left - 19) hnodigit.1 hnodigit.2 (by rw [hfrac]; push_cast; omega)
  have hzone' := @isoZone_offset (zoneSign ofs) 32 (ofs.natAbs / 3600) (ofs.natAbs % 3600 / 60) src
    ((19 + (frac.length + 6) : Nat) + left - 19 - frac.length) (zoneSign_cases ofs) (by omega) (by omega)
    rfl (by push_cast; omega)
  have hiso := @looksIso_clock year mon mday hour min sec
    (frac ++ (isoOffset (zoneSign ofs) (ofs.natAbs / 3600) (ofs.natAbs % 3600 / 60) ++ 32 :: src))
    ((19 + (frac.length + 6) : Nat) + left) (by push_cast; omega)
  rw [hfrac] at husec
  have hrest : ((19 + (frac.length + 6) : Nat) : Int) + left - 19 - frac.length - 6 = left := by
    push_cast
    omega
  rw [hrest] at hzone'
  obtain ⟨tm', zone', hdate⟩ : ∃ tm' zone', scanIso (cachedLocaltime env.zone env.now st.caches).1
      ⟨isoClock year mon mday hour min sec ++ (frac ++ (isoOffset (zoneSign ofs) (ofs.natAbs / 3600)
        (ofs.natAbs % 3600 / 60) ++ 32 :: src)), (19 + (frac.length + 6) : Nat) + left⟩ =
      .ok ⟨tm', usec, zone', ⟨32 :: src, left⟩⟩ := by
    rw [scanIso, hscan, Res.ok_bind]
    simp only
    rw [show isoOffset (zoneSign ofs) (ofs.natAbs / 3600) (ofs.natAbs % 3600 / 60) ++ 32 :: src =
      zoneSign ofs :: (two (ofs.natAbs / 3600) ++ [58] ++ two (ofs.natAbs % 3600 / 60) ++ 32 :: src)
      from rfl, husec, Res.ok_bind]
    simp only
    rw [show zoneSign ofs :: (two (ofs.natAbs / 3600) ++ [58] ++ two (ofs.natAbs % 3600 / 60) ++
      32 :: src) = isoOffset (zoneSign ofs) (ofs.natAbs / 3600) (ofs.natAbs % 3600 / 60) ++ 32 :: src
      from rfl, hzone', Res.ok_bind]
    exact ⟨_, _, rfl⟩
  simp only [logMsgParseDate, skipSynced, if_true, Res.ok_bind, dateFormat, hiso, Res.pure_eq, scanDate,
    hdate, finishDate]
  exact ⟨_, _, rfl⟩

end

end SyslogNg.LogWriter
