import SyslogNg.SyslogFormat.Bounds

/-!
# Host names (`log_msg_parse_hostname`)

Without `check_hostname` a host name is recognised just as it should be. The table of invalid characters
is indexed by `i >> 8`, which is 0 for all of them, so that its first byte holds the bits of every
residue and each character counts as invalid.
-/

namespace SyslogNg.SyslogFormat

open List

/-- The characters that `check_hostname` lets pass. -/
def isHostNameByte (b : UInt8) : Bool :=
  (65 ≤ b && b ≤ 90) || (97 ≤ b && b ≤ 122) || (48 ≤ b && b ≤ 57) ||
    b == 45 || b == 95 || b == 46 || b == 64 || b == 47

/-- A text that is a host name. -/
structure HostText (check : Bool) (h : List UInt8) : Prop where
  length : h.length ≤ 255
  colon : 58 ∉ h
  bracket : 91 ∉ h
  checked : check = true → ∀ b ∈ h, isHostNameByte b = true

/-- `log_msg_parse_hostname` takes a host name up to the space, and leaves anything else alone. -/
def HostnameExact (options : MsgFormatOptions) (h rest tail : List UInt8) : Prop :=
  (HostText options.checkHostname h →
    logMsgParseHostname options none (blockCursor (h ++ 32 :: rest) tail) =
      .ok (some h, blockCursor (32 :: rest) tail)) ∧
  (¬HostText options.checkHostname h →
    logMsgParseHostname options none (blockCursor (h ++ 32 :: rest) tail) =
      .ok (none, blockCursor (h ++ 32 :: rest) tail))

theorem isInvalidChar_true (b : UInt8) : isInvalidChar b = true := by
  have hbits : invalidChars = 255 := by decide +kernel
  have hall : ∀ n : Fin 256, (255 : UInt8) &&& (1 <<< (UInt8.ofFin n % 8)) ≠ 0 := by decide +kernel
  unfold isInvalidChar
  rw [hbits]
  exact decide_eq_true (hall b.toFin)

theorem hostOf_checked (room : Nat) (rest : List UInt8) : hostOf true room rest = [] := by
  unfold hostOf
  cases hrest : rest.take room with
  | nil => rfl
  | cons b rest =>
    rw [takeWhile_cons_of_neg]
    simp [hostStop, isInvalidChar_true]

theorem hostOf_plain {h : List UInt8} (hspace : 32 ∉ h) (hcolon : 58 ∉ h) (hbracket : 91 ∉ h)
    {room : Nat} (hroom : h.length ≤ room) (rest : List UInt8) :
    hostOf false room (h ++ 32 :: rest) = h := by
  induction h generalizing room with
  | nil =>
    cases room with
    | zero => rfl
    | succ room =>
      have hstop : hostStop false 32 = true := rfl
      rw [nil_append, hostOf_cons, if_pos hstop]
  | cons b h ih =>
    rw [mem_cons, not_or] at hspace hcolon hbracket
    obtain ⟨room, rfl⟩ : ∃ n, room = n + 1 := ⟨room - 1, by rw [length_cons] at hroom; omega⟩
    have hstop : hostStop false b = false := by
      simp [hostStop, Ne.symm hspace.1, Ne.symm hcolon.1, Ne.symm hbracket.1]
    rw [cons_append, hostOf_cons, hstop, if_neg (by decide),
      ih hspace.2 hcolon.2 hbracket.2 (Nat.le_of_succ_le_succ hroom)]

theorem drop_hostOf_plain {h : List UInt8} (hspace : 32 ∉ h) {room : Nat}
    (hnot : ¬(h.length ≤ room ∧ 58 ∉ h ∧ 91 ∉ h)) (rest : List UInt8) :
    ((h ++ 32 :: rest).drop (hostOf false room (h ++ 32 :: rest)).length).head? ≠ some 32 := by
  induction h generalizing room with
  | nil => exact absurd ⟨Nat.zero_le _, by simp, by simp⟩ hnot
  | cons b h ih =>
    rw [mem_cons, not_or] at hspace
    have hb : some b ≠ some 32 := fun heq => hspace.1 (Option.some.inj heq).symm
    cases room with
    | zero => exact hb
    | succ room =>
      rw [cons_append, hostOf_cons]
      by_cases hstop : hostStop false b = true
      · rw [if_pos hstop]
        exact hb
      · rw [if_neg hstop, length_cons, drop_succ_cons]
        refine ih hspace.2 fun hgood => hnot ⟨Nat.succ_le_succ hgood.1, ?_, ?_⟩
        · rw [mem_cons, not_or]
          refine ⟨fun heq => hstop ?_, hgood.2.1⟩
          rw [← heq]
          rfl
        · rw [mem_cons, not_or]
          refine ⟨fun heq => hstop ?_, hgood.2.2⟩
          rw [← heq]
          rfl

theorem parseHostname_none (options : MsgFormatOptions) (text tail : List UInt8) :
    logMsgParseHostname options none (blockCursor text tail) =
      if (text.drop (hostOf options.checkHostname 255 text).length).head? = some 32 then
        .ok (some (hostOf options.checkHostname 255 text),
          blockCursor (text.drop (hostOf options.checkHostname 255 text).length) tail)
      else .ok (none, blockCursor text tail) := by
  rw [parseHostname_block]
  simp only [Option.any_none, and_true]

/-- **Without `check_hostname` host names are recognised**; with it only the empty one is, and nothing is
lost where the text is no host name at all. -/
theorem hostnameExact_iff (options : MsgFormatOptions) {h : List UInt8} (hspace : 32 ∉ h)
    (rest tail : List UInt8) :
    HostnameExact options h rest tail ↔
      options.checkHostname = false ∨ h = [] ∨ ¬HostText true h := by
  unfold HostnameExact
  rw [parseHostname_none]
  cases hcheck : options.checkHostname with
  | false =>
    refine iff_of_true ⟨fun hhost => ?_, fun hnot => ?_⟩ (.inl rfl)
    · rw [hostOf_plain hspace hhost.colon hhost.bracket hhost.length, drop_left]
      exact if_pos rfl
    · refine if_neg (drop_hostOf_plain hspace (fun hgood => hnot ?_) rest)
      exact ⟨hgood.1, hgood.2.1, hgood.2.2, nofun⟩
  | true =>
    rw [hostOf_checked, length_nil, drop_zero]
    cases h with
    | nil =>
      refine iff_of_true ⟨fun _ => if_pos rfl, fun hnot => absurd ?_ hnot⟩ (.inr (.inl rfl))
      exact ⟨Nat.zero_le _, by simp, by simp, by simp⟩
    | cons b h =>
      have hb : ((b :: h) ++ 32 :: rest).head? ≠ some 32 := fun heq =>
        hspace (mem_cons.mpr (.inl (Option.some.inj heq).symm))
      rw [if_neg hb]
      constructor
      · rintro ⟨haccept, -⟩
        refine .inr (.inr fun hhost => ?_)
        cases haccept hhost
      · rintro (hfalse | hnil | hnot)
        · cases hfalse
        · cases hnil
        · exact ⟨fun hhost => absurd hhost hnot, fun _ => rfl⟩

/-- A source that expects host names, with `check_hostname` or without. -/
def hostOptions (check : Bool) : MsgFormatOptions where
  noparse := false
  checkHostname := check
  syslogProtocol := false
  assumeUtf8 := false
  validateUtf8 := false
  noMultiLine := false
  storeLegacyMsghdr := false
  expectHostname := true
  isLocal := false
  defaultPri := 13
  recvTimeZoneOffset := fun _ => 0
  badHostname := none
  sdataParamValueMax := 255

/-- The host `host-1` before a message. -/
theorem host1_exact : HostnameExact (hostOptions false) [104, 111, 115, 116, 45, 49] [97, 58] [] :=
  (hostnameExact_iff (hostOptions false) (by decide) [97, 58] []).mpr (.inl rfl)

/-- **The host `h` is not taken for one when it is checked.** -/
theorem checked_host_rejected :
    HostText true [104] ∧
      logMsgParseHostname (hostOptions true) none (blockCursor [104, 32, 97] []) =
        .ok (none, blockCursor [104, 32, 97] []) ∧
      ¬HostnameExact (hostOptions true) [104] [97] [] := by
  have hhost : HostText true [104] := ⟨by decide, by decide, by decide, by decide +kernel⟩
  refine ⟨hhost, by decide +kernel, fun hexact => ?_⟩
  have haccept := hexact.1 hhost
  have hreject : logMsgParseHostname (hostOptions true) none (blockCursor ([104] ++ 32 :: [97]) []) =
      .ok (none, blockCursor [104, 32, 97] []) := by decide +kernel
  rw [hreject] at haccept
  cases haccept

end SyslogNg.SyslogFormat
