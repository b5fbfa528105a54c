import Mathlib.Data.List.TakeWhile
import SyslogNg.DbParser.Parsers

/-!
# Where the parsers read (`modules/dbparser/radix.c`)

Most parsers stop at the NUL behind the message. Those that look a byte up with `strchr` in an
alphabet find the NUL there too and go on behind it, unless a byte outside the alphabet comes
first; `r_parser_ipv6` and `r_parser_email` look back from where they stopped, even if that is
the first byte.
-/

namespace SyslogNg.DbParser

open Lib List Option
open Option (bind_some map_some)

/-! ## What is asked of a parser -/

/-- Offset and length of the capture in the bytes taken, in the arithmetic of `guint16`. -/
def RParse.capture (r : RParse) : Nat × Nat := (r.ofs % 2 ^ 16, ((r.relLen + r.len) % 2 ^ 16).toNat)

/-- A parse of a string of `n` bytes takes no more than them and captures a part of what it
takes. -/
structure RParse.Inside (r : RParse) (n : Nat) : Prop where
  len_le : r.len ≤ n
  capture_le : r.capture.1 + r.capture.2 ≤ r.len

/-- A parser reads the string and its NUL only, and its result is inside the string. -/
def StaysInside (str : List UInt8) (outcome : ParseOutcome) : Prop :=
  ∃ e, outcome = some e ∧ ∀ r, e = some r → r.Inside str.length

theorem RParse.Inside.of_part {r : RParse} {n : Nat} (hlen : r.len ≤ n) (hpos : 0 ≤ r.relLen + r.len)
    (hpart : r.ofs + (r.relLen + r.len) ≤ r.len) : r.Inside n := by
  refine ⟨hlen, ?_⟩
  simp only [RParse.capture]
  omega

theorem RParse.Inside.whole {len n : Nat} (h : len ≤ n) : (RParse.whole len).Inside n :=
  .of_part h (by simp [RParse.whole]) (by simp [RParse.whole])

theorem StaysInside.false (str : List UInt8) : StaysInside str (some none) :=
  ⟨none, rfl, fun _ h => (nomatch h)⟩

variable {str : List UInt8} {p : UInt8 → Bool} {c : UInt8} {len : Nat} {s : List UInt8}

theorem StaysInside.true {r : RParse} (h : r.Inside str.length) : StaysInside str (some (some r)) :=
  ⟨some r, rfl, fun _ hr => some.inj hr ▸ h⟩

theorem StaysInside.when (c : Prop) [Decidable c] (h : len ≤ str.length) :
    StaysInside str (some (if c then some (.whole len) else none)) := by
  split
  · exact .true (.whole h)
  · exact .false str

theorem StaysInside.unless (c : Prop) [Decidable c] (h : len ≤ str.length) :
    StaysInside str (some (if c then none else some (.whole len))) := by
  split
  · exact .false str
  · exact .true (.whole h)

theorem not_staysInside_none (str : List UInt8) : ¬StaysInside str none := by
  rintro ⟨e, he, -⟩
  cases he

theorem StaysInside.inside {r : RParse} (h : StaysInside str (some (some r))) : r.Inside str.length := by
  obtain ⟨e, he, hr⟩ := h
  exact hr r (some.inj he).symm

/-! ## The memory of a string -/

@[simp] theorem length_memOf (str : List UInt8) : (memOf str).length = str.length + 1 := by
  simp [memOf]

theorem memOf_cons (c : UInt8) (str : List UInt8) : memOf (c :: str) = c :: memOf str := rfl

theorem drop_memOf {k : Nat} (h : k ≤ str.length) : (memOf str).drop k = memOf (str.drop k) := by
  rw [memOf, drop_append_of_le_length h, memOf]

theorem zero_mem_memOf (str : List UInt8) : (0 : UInt8) ∈ memOf str := by simp [memOf]

theorem readAt_of_le {i : Nat} (h : i ≤ str.length) : ∃ c, readAt str i = some c := by
  have hi : i < (memOf str).length := by rw [length_memOf]; omega
  exact ⟨(memOf str)[i], by simp [readAt, getElem?_eq_getElem hi]⟩

theorem lt_of_readAt {i : Nat} (h : readAt str i = some c) (hc : c ≠ 0) : i < str.length := by
  rw [readAt, if_pos (Int.natCast_nonneg i), Int.toNat_natCast, memOf] at h
  by_contra hle
  rw [getElem?_append_right (by omega)] at h
  rcases hk : i - str.length with _ | k
  · rw [hk] at h
    exact hc (by simpa using h.symm)
  · rw [hk] at h
    simp at h

theorem readAt_eq_head (str : List UInt8) {k : Nat} (h : k ≤ str.length) :
    readAt str k = some ((str.drop k).headD 0) := by
  rw [readAt, if_pos (Int.natCast_nonneg k), Int.toNat_natCast, ← head?_drop, drop_memOf h]
  cases str.drop k <;> rfl

theorem scan_memOf {σ : Type} {turn : σ → UInt8 → Turn σ} (hz : ∀ s s', turn s 0 ≠ .goOn s') (state : σ)
    (str : List UInt8) :
    ∃ e, scan turn state (memOf str) = some e ∧ ∀ s n, e = some (s, n) → n ≤ str.length := by
  obtain ⟨e, he⟩ := isSome_iff_exists.mp (scan_isSome hz state (zero_mem_memOf str))
  refine ⟨e, he, fun s n hn => ?_⟩
  subst hn
  have := scan_lt he
  rw [length_memOf] at this
  omega

theorem skipWhile_memOf (hz : p 0 = false) (str : List UInt8) :
    skipWhile p (memOf str) = some (str.takeWhile p).length := by
  obtain ⟨n, hn, -⟩ := skipWhile_of_sentinel hz (zero_mem_memOf str)
  rw [hn, (skipWhile_eq_some hn).1, memOf, takeWhile_append]
  split <;> simp [*]

theorem skipWhile_memOf_isSome (h : ∃ c ∈ str, p c = false) :
    skipWhile p (memOf str) = some (str.takeWhile p).length := by
  obtain ⟨c, hc, hp⟩ := h
  obtain ⟨n, hn⟩ := isSome_iff_exists.mp
    (skipWhile_isSome.mpr ⟨c, mem_append_left [0] hc, hp⟩)
  have hne : str.takeWhile p ≠ str := fun heq => by
    rw [takeWhile_eq_self_iff] at heq
    simp [heq c hc] at hp
  have hlen : (str.takeWhile p).length ≠ str.length := fun heq =>
    hne (( takeWhile_prefix p).eq_of_length heq)
  rw [memOf, hn, (skipWhile_eq_some hn).1, takeWhile_append, if_neg hlen]

theorem skipWhile_memOf_none (hz : p 0 = true) (h : ¬∃ c ∈ str, p c = false) :
    skipWhile p (memOf str) = none := by
  rw [← not_isSome_iff_eq_none, memOf, skipWhile_sentinel hz]
  exact h

/-! ## Parsers that stop at the NUL -/

theorem takeWhile_le (p : UInt8 → Bool) (str : List UInt8) : (str.takeWhile p).length ≤ str.length :=
  ( takeWhile_prefix p).length_le

theorem strstrOfs_le {needle : List UInt8} {i : Nat} (h : strstrOfs needle s = some i) :
    i + needle.length ≤ s.length := by
  induction s generalizing i with
  | nil =>
    rw [strstrOfs] at h
    split at h
    case isTrue hn => cases h; simp [hn]
    case isFalse => cases h
  | cons c s ih =>
    rw [strstrOfs] at h
    split at h
    case isTrue hn =>
      cases h
      rw [ isPrefixOf_iff_prefix] at hn
      simpa using hn.length_le
    case isFalse =>
      obtain ⟨k, hk, rfl⟩ := map_eq_some_iff.mp h
      have := ih hk
      simp only [length_cons]
      omega

theorem rParserEstring_inside (str : List UInt8) (param : Option (List UInt8)) :
    StaysInside str (rParserEstring str param (param.getD []).length) := by
  cases param with
  | none => exact .false str
  | some param =>
    simp only [rParserEstring, getD_some]
    cases hs : strstrOfs param str with
    | none => exact .false str
    | some i =>
      have := strstrOfs_le hs
      exact .true (.of_part this (by simp only; omega) (by simp only; omega))

theorem rParserAnystring_inside (str : List UInt8) : StaysInside str (rParserAnystring str) :=
  .true (.whole le_rfl)

theorem hostTurn_zero (s s' : Bool × Nat) : hostTurn s 0 ≠ .goOn s' := by
  have : hostChar 0 = false := rfl
  simp [hostTurn, this]

theorem rParserHostname_inside (str : List UInt8) : StaysInside str (rParserHostname str) := by
  obtain ⟨e, he, hle⟩ := scan_memOf hostTurn_zero (false, 0) str
  rw [rParserHostname, he]
  cases e with
  | none => exact .false str
  | some r =>
    exact .unless _ (hle r.1 r.2 rfl)

theorem ipv4Turn_zero (s s' : Ipv4State) : ipv4Turn s 0 ≠ .goOn s' := by
  have : asciiIsdigit 0 = false := rfl
  simp [ipv4Turn, this]

theorem rParserIpv4_inside (str : List UInt8) : StaysInside str (rParserIpv4 str) := by
  obtain ⟨e, he, hle⟩ := scan_memOf ipv4Turn_zero ⟨0, -1⟩ str
  rw [rParserIpv4, he]
  cases e with
  | none => exact .false str
  | some r =>
    exact .unless _ (hle r.1 r.2 rfl)

theorem mem_of_xdigit {mem : List UInt8} (hc : asciiIsxdigit c) (h : 0 ∈ c :: mem) : 0 ∈ mem :=
  (mem_cons.mp h).resolve_left fun h0 => by rw [← h0] at hc; cases hc

theorem lladdrLoop_inside (parts i : Int) (len : Nat) {mem : List UInt8} (hmem : 0 ∈ mem) :
    ∃ e, lladdrLoop parts i len mem = some e ∧ ∀ n, e = some n → n < len + mem.length := by
  fun_induction lladdrLoop parts i len mem with
  | case1 i len mem =>
    refine ⟨_, rfl, fun n hn => ?_⟩
    cases hn
    have := length_pos_of_mem hmem
    omega
  | case2 => cases hmem
  | case3 | case5 =>
    refine ⟨_, rfl, fun n hn => ?_⟩
    split at hn <;> cases hn
    simp only [length_cons]
    omega
  | case4 i len _ a ha => cases mem_of_xdigit (by simpa using ha) hmem
  | case6 len a ha b mem hb =>
    refine ⟨_, rfl, fun n hn => ?_⟩
    cases hn
    have hpos := length_pos_of_mem
      (mem_of_xdigit (by simpa using hb) (mem_of_xdigit (by simpa using ha) hmem))
    simp only [length_cons]
    omega
  | case7 i len hi a ha b hb =>
    cases mem_of_xdigit (by simpa using hb) (mem_of_xdigit (by simpa using ha) hmem)
  | case8 =>
    refine ⟨_, rfl, fun n hn => ?_⟩
    cases hn
    simp only [length_cons]
    omega
  | case9 i len hi a ha b hb hne c mem hc ih =>
    have hcolon : c = 58 := by simpa using hc
    have hrest := mem_of_xdigit (by simpa using hb) (mem_of_xdigit (by simpa using ha) hmem)
    obtain ⟨e, he, hle⟩ := ih ((mem_cons.mp hrest).resolve_left fun h0 => by
      rw [hcolon] at h0
      cases h0)
    refine ⟨e, he, fun n hn => ?_⟩
    have := hle n hn
    simp only [length_cons]
    omega

theorem lladdr_inside (str : List UInt8) (count parts : Int) :
    StaysInside str (lladdr str count parts) := by
  obtain ⟨e, he, hle⟩ := lladdrLoop_inside parts 1 0 (zero_mem_memOf str)
  rw [lladdr, he]
  cases e with
  | none => exact .false str
  | some n =>
    have := hle n rfl
    rw [length_memOf] at this
    exact .unless _ (by omega)

/-! ## Numbers -/

theorem floatTurn_zero (dot dot' : Bool) : floatTurn dot 0 ≠ .goOn dot' := by
  have : asciiIsdigit 0 = false := rfl
  simp [floatTurn, this]

theorem skipDigits (hz : p 0 = false) {k : Nat} (hk : k ≤ str.length) :
    ∃ n, skipWhile p ((memOf str).drop k) = some n ∧ k + n ≤ str.length := by
  rw [drop_memOf hk, skipWhile_memOf hz]
  have := takeWhile_le p (str.drop k)
  rw [length_drop] at this
  exact ⟨_, rfl, by omega⟩

theorem floatExponent_inside (h : len ≤ str.length) :
    ∃ n, floatExponent str len = some n ∧ n ≤ str.length := by
  obtain ⟨c, hc⟩ := readAt_of_le h
  rw [floatExponent, hc, bind_some]
  split
  case isFalse => exact ⟨len, rfl, h⟩
  case isTrue he =>
    have hlt : len + 1 ≤ str.length :=
      lt_of_readAt hc (by rintro rfl; simp at he)
    obtain ⟨sign, hsign⟩ := readAt_of_le hlt
    have hstart : len + 1 + (if sign = 45 then 1 else 0) ≤ str.length := by
      split
      case isTrue h45 => exact lt_of_readAt hsign (by rw [h45]; decide)
      case isFalse => exact hlt
    obtain ⟨n, hn, hle⟩ := skipDigits (p := asciiIsdigit) rfl hstart
    rw [hsign, bind_some, hn]
    exact ⟨_, rfl, hle⟩

theorem rParserFloat_inside (str : List UInt8) : StaysInside str (rParserFloat str) := by
  obtain ⟨first, hfirst⟩ := readAt_of_le (Nat.zero_le str.length)
  have hstart : (if first = 45 then 1 else 0) ≤ str.length := by
    split
    case isTrue h45 => exact lt_of_readAt hfirst (by rw [h45]; decide)
    case isFalse => exact Nat.zero_le _
  obtain ⟨e, he, hle⟩ := scan_memOf floatTurn_zero false (str.drop (if first = 45 then 1 else 0))
  have hread : readAt str 0 = some first := hfirst
  rw [rParserFloat, hread, bind_some, drop_memOf hstart, he, bind_some]
  cases e with
  | none => exact .false str
  | some r =>
    obtain ⟨dot, n⟩ := r
    have hn := hle dot n rfl
    rw [length_drop] at hn
    have hdigits : (if first = 45 then 1 else 0) + n ≤ str.length := by omega
    obtain ⟨len, hlen, hin⟩ := floatExponent_inside hdigits
    simp only [hlen, map_some]
    exact .when _ hin

theorem numberDigits_inside (hz : p 0 = false) {start : Nat} (minLen : Nat) (h : start ≤ str.length) :
    StaysInside str (numberDigits p str start minLen) := by
  obtain ⟨n, hn, hle⟩ := skipDigits hz h
  rw [numberDigits, hn]
  exact .when _ hle

theorem rParserNumber_inside (str : List UInt8) : StaysInside str (rParserNumber str) := by
  rw [rParserNumber]
  split
  case isTrue hx =>
    refine numberDigits_inside rfl 3 ?_
    rcases hx with hx | hx <;> exact ( isPrefixOf_iff_prefix.mp hx).length_le
  case isFalse =>
    obtain ⟨first, hfirst⟩ := readAt_of_le (Nat.zero_le str.length)
    have hread : readAt str 0 = some first := hfirst
    rw [hread, bind_some]
    split
    case isTrue h45 =>
      exact numberDigits_inside rfl 2 (lt_of_readAt hfirst (by rw [h45]; decide))
    case isFalse => exact numberDigits_inside rfl 1 (Nat.zero_le _)

/-! ## Parsers that look bytes up with `strchr` -/

theorem strchr_zero (s : List UInt8) : strchr s 0 = true := rfl

theorem strchr_eq_false (hc : c ≠ 0) : strchr s c = false ↔ c ∉ s := by
  simp [strchr, hc]

theorem skip_staysInside_iff (hz : p 0 = true) (str : List UInt8) :
    StaysInside str
      ((skipWhile p (memOf str)).map fun len => if 0 < len then some (.whole len) else none) ↔
        ∃ c ∈ str, p c = false := by
  constructor
  · intro h
    by_contra hall
    rw [skipWhile_memOf_none hz hall] at h
    exact not_staysInside_none str h
  · intro h
    rw [skipWhile_memOf_isSome h]
    exact .when _ (takeWhile_le p str)

theorem rParserString_inside_iff (hstr : 0 ∉ str) (param : Option (List UInt8)) :
    StaysInside str (rParserString str param) ↔
      ∀ alphabet, param = some alphabet → ∃ c ∈ str, asciiIsalnum c = false ∧ c ∉ alphabet := by
  cases param with
  | none =>
    refine iff_of_true ?_ (by simp)
    rw [rParserString, skipWhile_memOf rfl]
    exact .when _ (takeWhile_le _ str)
  | some alphabet =>
    rw [rParserString, skip_staysInside_iff (by simp [strchr_zero])]
    simp only [any_some, Bool.or_eq_false_iff, some.injEq, forall_eq']
    refine exists_congr fun c => and_congr_right fun hc => and_congr_right fun _ => ?_
    exact strchr_eq_false fun h0 => hstr (h0 ▸ hc)

theorem rParserSet_inside_iff (hstr : 0 ∉ str) (alphabet : List UInt8) :
    StaysInside str (rParserSet str (some alphabet)) ↔ ∃ c ∈ str, c ∉ alphabet := by
  rw [rParserSet, skip_staysInside_iff (strchr_zero alphabet)]
  refine exists_congr fun c => and_congr_right fun hc => ?_
  exact strchr_eq_false fun h0 => hstr (h0 ▸ hc)

/-! ## Quotes and end markers -/

theorem strchrOfs_lt {i : Nat} (hc : c ≠ 0) (h : strchrOfs s c = some i) : i < s.length := by
  rw [strchrOfs, findIdx?_append] at h
  simp only [findIdx?_cons, hc.symm, decide_false, Bool.false_eq_true, if_false,
    findIdx?_nil, map_none, or_none] at h
  exact (findIdx?_eq_some_iff_findIdx_eq.mp h).1

theorem strchrOfs_zero (hs : 0 ∉ s) : strchrOfs s 0 = some s.length := by
  rw [strchrOfs, findIdx?_append, findIdx?_eq_none_iff.mpr]
  · simp [findIdx?_cons]
  · exact fun c hc => by simpa using fun h0 : c = 0 => hs (h0 ▸ hc)

theorem rParserQstring_inside_iff (hstr : 0 ∉ str) (state : UInt8) :
    StaysInside str (rParserQstring str state) ↔ str ≠ [] ∧ state ≠ 0 := by
  cases str with
  | nil => exact iff_of_false (not_staysInside_none []) (by simp)
  | cons c rest =>
    rw [and_iff_right (cons_ne_nil c rest), rParserQstring]
    constructor
    · rintro h rfl
      rw [strchrOfs_zero fun h0 => hstr (mem_cons_of_mem c h0)] at h
      have := h.inside.len_le
      simp at this
    · intro hstate
      cases hi : strchrOfs rest state with
      | none => exact .false _
      | some i =>
        have := strchrOfs_lt hstate hi
        refine .true (.of_part ?_ ?_ ?_) <;> simp only [length_cons] <;> omega

theorem rParserEstringC_inside_iff (hstr : 0 ∉ str) (param : List UInt8) :
    StaysInside str (rParserEstringC str (some param)) ↔ param.headD 0 ≠ 0 := by
  rw [rParserEstringC]
  constructor
  · intro h h0
    rw [h0, strchrOfs_zero hstr] at h
    have := h.inside.len_le
    simp at this
  · intro h
    cases hi : strchrOfs str (param.headD 0) with
    | none => exact .false _
    | some i =>
      have := strchrOfs_lt h hi
      refine .true (.of_part ?_ ?_ ?_) <;> simp only <;> omega

/-! ## Addresses of IPv6 -/

/-- The text begins like an address: with a digit, a dot, or a colon that a digit or a colon
follows. -/
def Ipv6Begins (str : List UInt8) : Prop :=
  ∃ c ∈ str.head?, asciiIsxdigit c ∨ c = 46 ∨
    c = 58 ∧ ∃ d ∈ str.tail.head?, asciiIsxdigit d ∨ d = 58

instance (str : List UInt8) : Decidable (Ipv6Begins str) := by
  unfold Ipv6Begins; infer_instance

theorem ipv6Check_inside (s : Ipv6State) (h : len ≤ str.length) :
    StaysInside str (some (ipv6Check s len)) := .unless _ h

theorem ipv6End_inside (s : Ipv6State) (h : len ≤ str.length) (hpos : 1 ≤ len)
    (hcolon : len = 1 → str.head? ≠ some 58) : StaysInside str (ipv6End str s len) := by
  obtain ⟨last, hlast⟩ := readAt_of_le (show len - 1 ≤ str.length by omega)
  have hcast : ((len : Int) - 1) = ((len - 1 : Nat) : Int) := by omega
  rw [ipv6End, hcast, hlast, bind_some]
  split
  case isTrue => exact ipv6Check_inside _ (by omega)
  case isFalse =>
    split
    case isFalse => exact ipv6Check_inside _ h
    case isTrue h58 =>
      have htwo : 2 ≤ len := by
        by_contra hlt
        obtain rfl : len = 1 := by omega
        rw [readAt_eq_head str (by omega)] at hlast
        refine hcolon rfl ?_
        rw [h58] at hlast
        cases str <;> simp_all
      obtain ⟨c, hc⟩ := readAt_of_le (show len - 2 ≤ str.length by omega)
      have hcast' : ((len : Int) - 2) = ((len - 2 : Nat) : Int) := by omega
      rw [hcast', hc, map_some]
      split
      · exact ipv6Check_inside _ (by omega)
      · exact ipv6Check_inside _ h

theorem ipv6Turn_zero (s s' : Ipv6State) : ipv6Turn s 0 ≠ .goOn s' := by
  have : asciiIsxdigit 0 = false := rfl
  simp [ipv6Turn, this]

theorem ipv6Turn_first (hc : asciiIsxdigit c ∨ c = 46) : ∃ s', ipv6Turn ipv6Start c = .goOn s' := by
  have hcolon : c ≠ 58 := by rintro rfl; simp [asciiIsxdigit, asciiIsdigit] at hc
  rcases hc with hc | rfl
  · exact ⟨_, by rw [ipv6Turn, if_neg hcolon, if_pos hc]⟩
  · exact ⟨⟨0, 1, -1, 10, false⟩, by decide⟩

theorem ipv6Turn_first_stop (hx : asciiIsxdigit c = false) (hdot : c ≠ 46) (hcolon : c ≠ 58) :
    ipv6Turn ipv6Start c = .stop ipv6Start := by
  simp [ipv6Turn, hx, hdot, hcolon]

def ipv6Colon : Ipv6State := ⟨1, 0, -1, 16, false⟩

theorem ipv6Turn_second {d : UInt8} (hd : asciiIsxdigit d ∨ d = 58) :
    ∃ s', ipv6Turn ipv6Colon d = .goOn s' := by
  by_cases hcolon : d = 58
  · subst hcolon
    exact ⟨⟨2, 0, -1, 16, true⟩, by decide⟩
  · exact ⟨_, by rw [ipv6Turn, if_neg hcolon, if_pos (hd.resolve_right hcolon)]⟩

theorem ipv6Turn_second_stop {d : UInt8} (hx : asciiIsxdigit d = false) (hcolon : d ≠ 58) :
    ipv6Turn ipv6Colon d = .stop ipv6Colon := by
  by_cases hdot : d = 46
  · subst hdot
    decide
  · simp [ipv6Turn, hx, hdot, hcolon]

/-- What `r_parser_ipv6` does behind a loop that ends with `e`. -/
def ipv6Finish (str : List UInt8) (e : ScanEnd Ipv6State) : ParseOutcome :=
  match e with
  | none => some none
  | some (s, len) => ipv6End str s len

theorem rParserIpv6_eq (str : List UInt8) :
    rParserIpv6 str = (scan ipv6Turn ipv6Start (memOf str)).bind (ipv6Finish str) := rfl

theorem rParserIpv6_inside_of_first {rest : List UInt8} (hc : asciiIsxdigit c ∨ c = 46) :
    StaysInside (c :: rest) (rParserIpv6 (c :: rest)) := by
  obtain ⟨s', hs'⟩ := ipv6Turn_first hc
  obtain ⟨e, he, hle⟩ := scan_memOf ipv6Turn_zero s' rest
  rw [rParserIpv6_eq, memOf_cons, scan_goOn hs', he, map_some, bind_some]
  cases e with
  | none => exact .false _
  | some r =>
    have hn := hle r.1 r.2 rfl
    refine ipv6End_inside _ (by simpa using hn) (Nat.succ_pos _) fun _ h => ?_
    obtain rfl := some.inj h
    simp [asciiIsxdigit, asciiIsdigit] at hc

theorem rParserIpv6_inside_of_second {d : UInt8} {rest : List UInt8} (hd : asciiIsxdigit d ∨ d = 58) :
    StaysInside (58 :: d :: rest) (rParserIpv6 (58 :: d :: rest)) := by
  obtain ⟨s', hs'⟩ := ipv6Turn_second hd
  obtain ⟨e, he, hle⟩ := scan_memOf ipv6Turn_zero s' rest
  have hcolon : ipv6Turn ipv6Start 58 = .goOn ipv6Colon := by decide
  rw [rParserIpv6_eq, memOf_cons, memOf_cons, scan_goOn hcolon, scan_goOn hs', he]
  simp only [map_some, bind_some]
  cases e with
  | none => exact .false _
  | some r =>
    have hn := hle r.1 r.2 rfl
    exact ipv6End_inside _ (by simpa using hn) (Nat.succ_pos _) fun h => by simp at h

theorem rParserIpv6_eq_none_of_first
    (h : ∀ c, str.head? = some c → asciiIsxdigit c = false ∧ c ≠ 46 ∧ c ≠ 58) : rParserIpv6 str = none := by
  rw [rParserIpv6_eq]
  cases str with
  | nil => decide
  | cons c rest =>
    obtain ⟨hx, hdot, hcolon⟩ := h c rfl
    rw [memOf_cons, scan_stop (ipv6Turn_first_stop hx hdot hcolon)]
    rfl

theorem rParserIpv6_eq_none_of_second {rest : List UInt8}
    (h : ∀ d, rest.head? = some d → asciiIsxdigit d = false ∧ d ≠ 58) :
    rParserIpv6 (58 :: rest) = none := by
  have hcolon : ipv6Turn ipv6Start 58 = .goOn ipv6Colon := by decide
  have hstop : scan ipv6Turn ipv6Colon (memOf rest) = some (some (ipv6Colon, 0)) := by
    cases rest with
    | nil => exact scan_stop (by decide)
    | cons d rest =>
      obtain ⟨hx, hd⟩ := h d rfl
      exact scan_stop (ipv6Turn_second_stop hx hd)
  rw [rParserIpv6_eq, memOf_cons, scan_goOn hcolon, hstop]
  rfl

theorem rParserIpv6_inside_iff (str : List UInt8) : StaysInside str (rParserIpv6 str) ↔ Ipv6Begins str := by
  cases str with
  | nil =>
    refine iff_of_false ?_ (by decide)
    rw [rParserIpv6_eq_none_of_first (by simp)]
    exact not_staysInside_none []
  | cons c rest =>
    by_cases hfirst : asciiIsxdigit c ∨ c = 46
    · refine iff_of_true (rParserIpv6_inside_of_first hfirst) ⟨c, rfl, ?_⟩
      exact hfirst.elim .inl fun h => .inr (.inl h)
    · obtain ⟨hx, hdot⟩ := not_or.mp hfirst
      by_cases hcolon : c = 58
      · subst hcolon
        by_cases hsecond : ∃ d ∈ rest.head?, asciiIsxdigit d ∨ d = 58
        · refine iff_of_true ?_ ⟨58, rfl, .inr (.inr ⟨rfl, hsecond⟩)⟩
          obtain ⟨d, hd, hok⟩ := hsecond
          obtain ⟨rest, rfl⟩ : ∃ rest', rest = d :: rest' := head?_eq_some_iff.mp hd
          exact rParserIpv6_inside_of_second hok
        · refine iff_of_false ?_ ?_
          · rw [rParserIpv6_eq_none_of_second fun d hd => ?_]
            · exact not_staysInside_none _
            · have := not_or.mp fun hok => hsecond ⟨d, hd, hok⟩
              exact ⟨by simpa using this.1, this.2⟩
          · rintro ⟨c, hc, h⟩
            obtain rfl := some.inj hc
            exact h.elim hx fun h => h.elim hdot fun h => hsecond h.2
      · refine iff_of_false ?_ ?_
        · rw [rParserIpv6_eq_none_of_first fun c' hc' => ?_]
          · exact not_staysInside_none _
          · obtain rfl := some.inj hc'
            exact ⟨by simpa using hx, hdot, hcolon⟩
        · rintro ⟨c', hc', h⟩
          obtain rfl := some.inj hc'
          exact h.elim hx fun h => h.elim hdot fun h => hcolon h.1

theorem rParserIpv4_head {r : RParse} (h : rParserIpv4 str = some (some r)) :
    ∃ c ∈ str.head?, asciiIsxdigit c := by
  cases str with
  | nil => cases show some none = some (some r) from h
  | cons c rest =>
    refine ⟨c, rfl, ?_⟩
    by_contra hx
    have hdigit : asciiIsdigit c = false := by
      simp only [asciiIsxdigit, Bool.or_eq_true, not_or, Bool.not_eq_true] at hx
      exact hx.1.1
    rw [rParserIpv4, memOf_cons] at h
    by_cases hdot : c = 46
    · rw [scan_reject (by simp [ipv4Turn, hdot])] at h
      simp at h
    · have hstop : ipv4Turn ⟨0, -1⟩ c = .stop ⟨0, -1⟩ := by simp [ipv4Turn, hdot, hdigit]
      rw [scan_stop hstop] at h
      simp at h

theorem rParserIp_inside_iff (str : List UInt8) : StaysInside str (rParserIp str) ↔ Ipv6Begins str := by
  obtain ⟨e, he, hin⟩ := rParserIpv4_inside str
  rw [rParserIp, he, bind_some]
  cases e with
  | none => exact rParserIpv6_inside_iff str
  | some r =>
    obtain ⟨c, hc, hx⟩ := rParserIpv4_head he
    exact iff_of_true (.true (hin r rfl)) ⟨c, hc, .inl hx⟩

end SyslogNg.DbParser
