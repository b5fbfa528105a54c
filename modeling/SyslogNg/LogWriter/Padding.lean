import SyslogNg.Lib.GString
import SyslogNg.LogProto.RecordServer
import SyslogNg.LogWriter.FormatLog

/-!
# Padded records

`log_writer_do_padding` fills a record with NUL bytes from the line end on, one byte less than
it should: the last byte of the record keeps what the memory of the string held before. Reading
the record does not look that far.
-/

namespace SyslogNg.LogWriter

open Lib LogProto List

variable {padding : Nat} {fresh : Nat → UInt8} {result : GString} {line : List UInt8}

/-- `log_writer_do_padding`; `none` where it would write outside of the result. -/
def doPadding (padding : Nat) (fresh : Nat → UInt8) (result : GString) : Option GString :=
  if padding = 0 then some result
  else if padding < result.len then some (result.setSize fresh padding)
  else if result.len = 0 then none
  else
    -- the size is counted from behind the line end, the offset from the line end
    (result.setSize fresh padding).fill (result.len - 1) 0 (padding - result.len)

/-- What the memory of the string holds in the place of the last byte of the record. -/
def lastByte (padding : Nat) (fresh : Nat → UInt8) (result : GString) : UInt8 :=
  result.str[padding - 1]?.getD (fresh (padding - 1))

theorem len_line (hline : result.text = line ++ [10]) : result.len = line.length + 1 := by
  rw [← result.text_length, hline, length_append, length_singleton]

theorem lastByte_full (hline : result.text = line ++ [10]) (h : padding = result.len) :
    lastByte padding fresh result = 10 := by
  have hlen := len_line hline
  have hpos : padding - 1 = line.length := by omega
  unfold lastByte
  rw [hpos, ← GString.text_getElem? (by omega), hline, getElem?_append_right (Nat.le_refl _),
    Nat.sub_self]
  rfl

theorem doPadding_of_le (fresh : Nat → UInt8) (hline : result.text = line ++ [10])
    (h : result.len ≤ padding) :
    ∃ record, doPadding padding fresh result = some record ∧ record.text =
        line ++ List.replicate (padding - result.len) 0 ++ [lastByte padding fresh result] := by
  have hlen := len_line hline
  have hfill : result.len - 1 + (padding - result.len) ≤ (result.setSize fresh padding).len := by
    rw [GString.len_setSize]
    omega
  obtain ⟨record, hrecord, htext⟩ := GString.fill_text (c := 0) hfill
  refine ⟨record, ?_, ?_⟩
  · rw [doPadding, if_neg (by omega), if_neg (by omega), if_neg (by omega), hrecord]
  · have hfront : (result.setSize fresh padding).text.take (result.len - 1) = line := by
      apply ext_getElem?
      intro i
      rcases Nat.lt_or_ge i line.length with hi | hi
      · rw [getElem?_take_of_lt (by omega), GString.setSize_getElem? (by omega),
          ← GString.text_getElem? (by omega), hline, getElem?_append_left hi,
          getElem?_eq_getElem hi, Option.getD_some]
      · rw [getElem?_eq_none (by simp; omega), getElem?_eq_none hi]
    have hback : (result.setSize fresh padding).text.drop
        (result.len - 1 + (padding - result.len)) = [lastByte padding fresh result] := by
      have hpos : result.len - 1 + (padding - result.len) = padding - 1 := by omega
      have hlt : padding - 1 < (result.setSize fresh padding).text.length := by
        rw [GString.text_length, GString.len_setSize]
        omega
      have hbyte : some ((result.setSize fresh padding).text[padding - 1]) =
          some (lastByte padding fresh result) := by
        rw [← getElem?_eq_getElem hlt, GString.setSize_getElem? (by omega), lastByte]
      rw [hpos, drop_eq_getElem_cons hlt, Option.some.inj hbyte, drop_eq_nil_of_le (by simp; omega)]
    rw [htext, hfront, hback]

theorem doPadding_of_lt (fresh : Nat → UInt8) (hpad : padding ≠ 0) (h : padding < result.len) :
    ∃ record, doPadding padding fresh result = some record ∧ record.text = result.text.take padding := by
  refine ⟨result.setSize fresh padding, ?_, GString.setSize_text_of_le (Nat.le_of_lt h)⟩
  rw [doPadding, if_neg hpad, if_pos h]

/-- The record that the line is to become. -/
def paddedRecord (padding : Nat) (line : List UInt8) : List UInt8 :=
  if line.length < padding then line ++ List.replicate (padding - line.length) 0
  else (line ++ [10]).take padding

/-- The condition under which it does: no line is padded to nothing, and the byte that is left
out is NUL already. -/
def Padded (padding : Nat) (fresh : Nat → UInt8) (result : GString) : Prop :=
  if padding < result.len then padding ≠ 0 else lastByte padding fresh result = 0

theorem clear_iff {k : Nat} {c : UInt8} :
    line ++ List.replicate k 0 ++ [c] = line ++ List.replicate (k + 1) 0 ↔ c = 0 := by
  rw [replicate_succ', ← append_assoc, append_cancel_left_eq, singleton_inj]

theorem takeWhile_record {k : Nat} {c : UInt8} (hinner : ∀ c ∈ line, c ≠ 10 ∧ c ≠ 0)
    (hend : k = 0 → c = 10) : (line ++ List.replicate k 0 ++ [c]).takeWhile (fun c => !isEom c) = line := by
  have hfront : ∀ c ∈ line, (!isEom c) = true := by
    intro c hc
    obtain ⟨hnl, hnul⟩ := hinner c hc
    simp [isEom, hnl, hnul]
  rw [append_assoc, takeWhile_append_of_pos hfront]
  cases k with
  | zero =>
    rw [hend rfl]
    exact append_nil line
  | succ k => exact append_nil line

/-- **A line becomes its record exactly when the byte that padding leaves out is NUL**, and the
reader of the record finds the text of the line in either case. -/
theorem padded_record_round_trip (hline : result.text = line ++ [10])
    (hinner : ∀ c ∈ line, c ≠ 10 ∧ c ≠ 0) :
    ∃ record, doPadding padding fresh result = some record ∧
      (record.text = paddedRecord padding line ↔ Padded padding fresh result) ∧
      (result.len ≤ padding → record.len = padding ∧
        ∀ (self : LogProtoRecordServer) (addr bufferStart : Nat),
          self.super.bytesAt bufferStart padding = some record.text →
          self.paddedFetchFromBuf addr bufferStart padding = some (line, self.consume)) := by
  have hlen := len_line hline
  rcases Nat.lt_or_ge padding result.len with hlt | hle
  · have hcut : paddedRecord padding line = (line ++ [10]).take padding := if_neg (by omega)
    have hcond : Padded padding fresh result ↔ padding ≠ 0 := by
      rw [Padded, if_pos hlt]
    rw [hcond, hcut, ← hline]
    by_cases hpad : padding = 0
    · refine ⟨result, if_pos hpad, ⟨fun htext => ?_, fun hne => absurd hpad hne⟩,
        fun hle => absurd hlt (Nat.not_lt.2 hle)⟩
      have hsize := congrArg List.length htext
      rw [length_take, GString.text_length] at hsize
      omega
    · obtain ⟨record, hrecord, htext⟩ := doPadding_of_lt fresh hpad hlt
      exact ⟨record, hrecord, ⟨fun _ => hpad, fun _ => htext⟩, fun hle => absurd hlt (Nat.not_lt.2 hle)⟩
  · obtain ⟨record, hrecord, htext⟩ := doPadding_of_le fresh hline hle
    have hfull : paddedRecord padding line =
        line ++ List.replicate (padding - result.len + 1) 0 := by
      rw [paddedRecord, if_pos (by omega)]
      congr 2
      omega
    refine ⟨record, hrecord, ?_, fun _ => ⟨?_, ?_⟩⟩
    · rw [htext, hfull, clear_iff, Padded, if_neg (by omega)]
    · rw [← record.text_length, htext]
      simp only [length_append, length_replicate, length_singleton]
      omega
    · intro self addr bufferStart hbytes
      rw [LogProtoRecordServer.paddedFetchFromBuf_eq hbytes, htext,
        takeWhile_record hinner fun hk => lastByte_full hline (by omega)]

/-- A line of two bytes in a record of four, in memory that is clear. -/
theorem padded_record_round_trip_clear :
    ∃ record, doPadding 4 (fun _ => 0) (GString.ofText [97, 10]) = some record ∧
      (record.text = paddedRecord 4 [97] ↔ Padded 4 (fun _ => 0) (GString.ofText [97, 10])) ∧
      (2 ≤ 4 → record.len = 4 ∧ ∀ (self : LogProtoRecordServer) (addr bufferStart : Nat),
          self.super.bytesAt bufferStart 4 = some record.text →
          self.paddedFetchFromBuf addr bufferStart 4 = some ([97], self.consume)) :=
  padded_record_round_trip (GString.text_ofText _) (by decide +kernel)

/-- A byte of what the memory held before is left at the end of the record. -/
theorem padded_record_stray_byte :
    (doPadding 4 (fun _ => 120) (GString.ofText [97, 10])).map GString.text =
      some [97, 0, 0, 120] ∧
    (doPadding 2 (fun _ => 120) (GString.ofText [97, 10])).map GString.text = some [97, 10] ∧
    paddedRecord 4 [97] = [97, 0, 0, 0] ∧ paddedRecord 2 [97] = [97, 0] := by
  decide

end SyslogNg.LogWriter
