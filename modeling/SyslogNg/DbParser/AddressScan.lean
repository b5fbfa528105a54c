import SyslogNg.DbParser.ParserBounds
import SyslogNg.DbParser.AddressText

/-!
# What the address parsers scan (`modules/dbparser/radix.c`)

The loops of `r_parser_ipv4` and `r_parser_ipv6` accumulate one number after another in a `gint`;
their state after a text tells its pieces, and which texts they go through.
-/

namespace SyslogNg.DbParser

open Lib List

theorem scan_memOf_iff {σ : Type} {turn : σ → UInt8 → Turn σ} {s s'' : σ} {str : List UInt8} {n : Nat} :
    scan turn s (memOf str) = some (some (s'', n)) ↔
      ∃ t rest s', str = t ++ rest ∧ t.length = n ∧ Runs turn s t s' ∧ turn s' (rest.headD 0) = .stop s'' := by
  rw [scan_eq_some_iff]
  constructor
  · rintro ⟨t, s', c, tail, hmem, hlen, hruns, hstop⟩
    have hle : t.length ≤ str.length := by
      have := congrArg List.length hmem
      simp only [length_memOf, length_append, length_cons] at this
      omega
    have hrest : memOf (str.drop t.length) = c :: tail := by
      rw [← drop_memOf hle, hmem, drop_left]
    have htake : str.take t.length = t := by
      have := congrArg (List.take t.length) hmem
      rwa [take_left, memOf, take_append_of_le_length hle] at this
    have hc : (str.drop t.length).headD 0 = c := by
      cases hdrop : str.drop t.length with
      | nil =>
        rw [hdrop] at hrest
        exact (List.cons.inj hrest).1
      | cons d ds =>
        rw [hdrop] at hrest
        exact (List.cons.inj hrest).1
    refine ⟨t, str.drop t.length, s', ?_, hlen, hruns, hc ▸ hstop⟩
    nth_rewrite 1 [← htake]
    exact (take_append_drop t.length str).symm
  · rintro ⟨t, rest, s', rfl, hlen, hruns, hstop⟩
    cases rest with
    | nil => exact ⟨t, s', 0, [], by simp [memOf], hlen, hruns, hstop⟩
    | cons c rest => exact ⟨t, s', c, rest ++ [0], by simp [memOf], hlen, hruns, hstop⟩

/-! ## Numbers in a `gint` -/

/-- `octet` behind another digit: `-1` is a number without digits. -/
def octetStep (digit octet : Int) (c : UInt8) : Int :=
  wrap32 ((if octet = -1 then 0 else octet * digit) + asciiXdigitValue c)

/-- `octet` behind the digits of a number. -/
def octetFrom (digit octet : Int) (n : List UInt8) : Int := n.foldl (octetStep digit) octet

@[simp] theorem octetFrom_nil (digit octet : Int) : octetFrom digit octet [] = octet := rfl

theorem octetFrom_snoc (digit octet : Int) (n : List UInt8) (c : UInt8) :
    octetFrom digit octet (n ++ [c]) = octetStep digit (octetFrom digit octet n) c := by
  simp [octetFrom]

/-- A number as `octet` holds it lets a separator pass. -/
def SmallOctet (octet : Int) : Prop := octet ≤ 255 ∧ octet ≠ -1

instance (octet : Int) : Decidable (SmallOctet octet) := by unfold SmallOctet; infer_instance

variable {c : UInt8} {t : List UInt8} {gs : List (List UInt8)} (s : Ipv6State)

theorem isxdigit_of_isdigit (h : asciiIsdigit c) : asciiIsxdigit c := by
  simp [asciiIsxdigit, h]

/-! ## IPv4 -/

theorem ipv4Turn_digit (s : Ipv4State) (hc : asciiIsdigit c) :
    ipv4Turn s c = .goOn ⟨s.dots, octetStep 10 s.octet c⟩ := by
  have hdot : c ≠ 46 := by rintro rfl; cases hc
  simp [ipv4Turn, hdot, hc, octetStep, asciiXdigitValue, asciiDigitValue]

theorem ipv4Turn_dot {s : Ipv4State} (h : SmallOctet s.octet) (hdots : s.dots ≠ 3) :
    ipv4Turn s 46 = .goOn ⟨s.dots + 1, -1⟩ := by
  have hoctet : ¬(s.octet > 255 ∨ s.octet = -1) := by unfold SmallOctet at h; omega
  rw [ipv4Turn, if_pos rfl, if_neg hoctet, if_neg hdots]

theorem ipv4Turn_cases (s : Ipv4State) (c : UInt8) :
    (asciiIsdigit c ∧ ipv4Turn s c = .goOn ⟨s.dots, octetStep 10 s.octet c⟩) ∨
      (c = 46 ∧ SmallOctet s.octet ∧ s.dots ≠ 3 ∧ ipv4Turn s c = .goOn ⟨s.dots + 1, -1⟩) ∨
      (asciiIsdigit c = false ∧ ipv4Turn s c = .stop s ∧ (c = 46 → SmallOctet s.octet)) ∨
      (c = 46 ∧ ¬SmallOctet s.octet ∧ ipv4Turn s c = .reject) := by
  by_cases hc : asciiIsdigit c
  · exact .inl ⟨hc, ipv4Turn_digit s hc⟩
  by_cases hdot : c = 46
  · subst hdot
    by_cases h : SmallOctet s.octet
    · by_cases hdots : s.dots = 3
      · have hoctet : ¬(s.octet > 255 ∨ s.octet = -1) := by unfold SmallOctet at h; omega
        exact .inr (.inr (.inl ⟨rfl, by rw [ipv4Turn, if_pos rfl, if_neg hoctet, if_pos hdots],
          fun _ => h⟩))
      · exact .inr (.inl ⟨rfl, h, hdots, ipv4Turn_dot h hdots⟩)
    · have hoctet : s.octet > 255 ∨ s.octet = -1 := by unfold SmallOctet at h; omega
      exact .inr (.inr (.inr ⟨rfl, h, by rw [ipv4Turn, if_pos rfl, if_pos hoctet]⟩))
  · refine .inr (.inr (.inl ⟨by simpa using hc, ?_, fun h => absurd h hdot⟩))
    rw [ipv4Turn, if_neg hdot, if_neg hc]

/-- The text `t` is the numbers `ns` and `n` with dots between them, and `s` the state behind. -/
structure Ipv4Text (t : List UInt8) (s : Ipv4State) (ns : List (List UInt8)) (n : List UInt8) :
    Prop where
  text : t = joinText 46 (ns ++ [n])
  digits : ∀ m ∈ ns ++ [n], ∀ c ∈ m, asciiIsdigit c
  small : ∀ m ∈ ns, SmallOctet (octetFrom 10 (-1) m)
  length_le : ns.length ≤ 3
  state : s = ⟨ns.length, octetFrom 10 (-1) n⟩

theorem Ipv4Text.of_runs {s : Ipv4State} (h : Runs ipv4Turn ⟨0, -1⟩ t s) : ∃ ns n, Ipv4Text t s ns n := by
  induction t using List.reverseRecOn generalizing s with
  | nil =>
    cases h
    exact ⟨[], [], by simp, by simp, by simp, by simp, rfl⟩
  | append_singleton t c ih =>
    obtain ⟨s', hs', hturn⟩ := h.of_snoc
    obtain ⟨ns, n, htext, hdigits, hsmall, hlen, rfl⟩ := ih hs'
    rcases ipv4Turn_cases ⟨ns.length, octetFrom 10 (-1) n⟩ c with
      ⟨hc, hgo⟩ | ⟨rfl, hoctet, hdots, hgo⟩ | ⟨_, hgo, _⟩ | ⟨_, _, hgo⟩ <;>
      rw [hgo] at hturn <;> cases hturn
    · refine ⟨ns, n ++ [c], by rw [joinText_extend, htext], ?_, hsmall, hlen, ?_⟩
      · intro m hm d hd
        rcases mem_append.mp hm with hm | hm
        · exact hdigits m (mem_append_left _ hm) d hd
        · obtain rfl := mem_singleton.mp hm
          rcases mem_append.mp hd with hd | hd
          · exact hdigits n (mem_append_right _ mem_cons_self) d hd
          · obtain rfl := mem_singleton.mp hd
            exact hc
      · rw [octetFrom_snoc]
    · refine ⟨ns ++ [n], [], ?_, ?_, ?_, ?_, ?_⟩
      · rw [joinText_open 46 (by simp), htext]
      · simpa [or_imp, forall_and] using hdigits
      · simpa [or_imp, forall_and] using ⟨hsmall, hoctet⟩
      · simp only [length_append, length_cons, length_nil]
        simp only at hdots
        omega
      · simp

theorem ipv4_runs_digits {n : List UInt8} (hn : ∀ c ∈ n, asciiIsdigit c) (dots octet : Int) :
    Runs ipv4Turn ⟨dots, octet⟩ n ⟨dots, octetFrom 10 octet n⟩ := by
  induction n generalizing octet with
  | nil => exact .nil _
  | cons c n ih =>
    exact .cons (ipv4Turn_digit _ (hn c mem_cons_self))
      (ih (fun d hd => hn d (mem_cons_of_mem c hd)) _)

theorem Ipv4Text.runs {s : Ipv4State} {ns : List (List UInt8)} {n : List UInt8} (h : Ipv4Text t s ns n) :
    Runs ipv4Turn ⟨0, -1⟩ t s := by
  induction ns using List.reverseRecOn generalizing t s n with
  | nil =>
    obtain ⟨rfl, hdigits, _, _, rfl⟩ := h
    rw [nil_append, joinText_singleton]
    exact ipv4_runs_digits (hdigits n (by simp)) 0 (-1)
  | append_singleton ns m ih =>
    obtain ⟨rfl, hdigits, hsmall, hlen, rfl⟩ := h
    simp only [length_append, length_cons, length_nil] at hlen
    have hprev : Runs ipv4Turn ⟨0, -1⟩ (joinText 46 (ns ++ [m])) ⟨ns.length, octetFrom 10 (-1) m⟩ :=
      ih ⟨rfl, fun p hp => hdigits p (mem_append_left _ hp),
        fun p hp => hsmall p (mem_append_left _ hp), by omega, rfl⟩
    have hdot : ipv4Turn ⟨ns.length, octetFrom 10 (-1) m⟩ 46 = .goOn ⟨ns.length + 1, -1⟩ :=
      ipv4Turn_dot (hsmall m (by simp)) (by simp only; omega)
    have hn := ipv4_runs_digits (hdigits n (by simp)) (ns.length + 1) (-1)
    rw [joinText_snoc (by simp)]
    simpa using hprev.append (.cons hdot hn)

/-- The string begins with the four numbers, and no digit comes behind them; each of them is at
most 255 as the loop accumulates it. -/
structure Ipv4Takes (str : List UInt8) (ns : List (List UInt8)) : Prop where
  four : ns.length = 4
  digits : ∀ n ∈ ns, ∀ c ∈ n, asciiIsdigit c
  small : ∀ n ∈ ns, SmallOctet (octetFrom 10 (-1) n)
  text : ∃ rest, str = joinText 46 ns ++ rest ∧ asciiIsdigit (rest.headD 0) = false

theorem rParserIpv4_eq_some {str : List UInt8} {r : RParse} :
    rParserIpv4 str = some (some r) ↔
      ∃ s n, scan ipv4Turn ⟨0, -1⟩ (memOf str) = some (some (s, n)) ∧ s.dots = 3 ∧
        SmallOctet s.octet ∧ r = .whole n := by
  rw [rParserIpv4, Option.map_eq_some_iff]
  constructor
  · rintro ⟨e, he, h⟩
    obtain ⟨⟨s, n⟩, rfl, h⟩ := Option.bind_eq_some_iff.mp h
    have h : (if s.dots ≠ 3 ∨ s.octet > 255 ∨ s.octet = -1 then none else some (.whole n)) =
      some r := h
    rw [Option.ite_none_left_eq_some] at h
    obtain ⟨hok, hr⟩ := h
    exact ⟨s, n, he, by omega, ⟨by omega, by omega⟩, (Option.some.inj hr).symm⟩
  · rintro ⟨s, n, he, hdots, hsmall, rfl⟩
    refine ⟨_, he, ?_⟩
    have hok : ¬(s.dots ≠ 3 ∨ s.octet > 255 ∨ s.octet = -1) := by
      unfold SmallOctet at hsmall
      omega
    exact if_neg hok

theorem rParserIpv4_iff {str : List UInt8} {r : RParse} :
    rParserIpv4 str = some (some r) ↔ ∃ ns, Ipv4Takes str ns ∧ r = .whole (joinText 46 ns).length := by
  rw [rParserIpv4_eq_some]
  constructor
  · rintro ⟨s, n, hscan, hdots, hlast, rfl⟩
    obtain ⟨t, rest, s', rfl, rfl, hruns, hstop⟩ := scan_memOf_iff.mp hscan
    obtain ⟨ns, n, rfl, hdigits, hsmall, hlen, rfl⟩ := Ipv4Text.of_runs hruns
    obtain ⟨hbehind, rfl⟩ : asciiIsdigit (rest.headD 0) = false ∧
        ⟨ns.length, octetFrom 10 (-1) n⟩ = s := by
      rcases ipv4Turn_cases ⟨ns.length, octetFrom 10 (-1) n⟩ (rest.headD 0) with
        ⟨_, hgo⟩ | ⟨_, _, _, hgo⟩ | ⟨hdigit, hgo, _⟩ | ⟨_, _, hgo⟩ <;>
        rw [hgo] at hstop <;> cases hstop
      exact ⟨hdigit, rfl⟩
    refine ⟨ns ++ [n], ⟨?_, hdigits, ?_, rest, rfl, hbehind⟩, rfl⟩
    · simp only [length_append, length_cons, length_nil]
      simp only at hdots
      omega
    · intro m hm
      rcases mem_append.mp hm with hm | hm
      · exact hsmall m hm
      · obtain rfl := mem_singleton.mp hm
        exact hlast
  · rintro ⟨ns, ⟨hfour, hdigits, hsmall, rest, rfl, hbehind⟩, rfl⟩
    obtain rfl | ⟨ns, n, rfl⟩ := eq_nil_or_concat' ns
    · cases hfour
    simp only [length_append, length_cons, length_nil] at hfour
    have htext : Ipv4Text (joinText 46 (ns ++ [n])) ⟨ns.length, octetFrom 10 (-1) n⟩ ns n :=
      ⟨rfl, hdigits, fun m hm => hsmall m (mem_append_left _ hm), by omega, rfl⟩
    refine ⟨⟨ns.length, octetFrom 10 (-1) n⟩, _,
      scan_memOf_iff.mpr ⟨_, rest, _, rfl, rfl, htext.runs, ?_⟩, ?_, hsmall n (by simp), rfl⟩
    · have hn := hsmall n (by simp)
      rcases ipv4Turn_cases ⟨ns.length, octetFrom 10 (-1) n⟩ (rest.headD 0) with
        ⟨hdigit, _⟩ | ⟨_, _, hdots, _⟩ | ⟨_, hstop, _⟩ | ⟨_, hbad, _⟩
      · rw [hbehind] at hdigit
        cases hdigit
      · simp only at hdots
        omega
      · exact hstop
      · exact absurd hn hbad
    · simp only
      omega

/-! ## IPv6 -/

theorem ipv6Turn_xdigit (hc : asciiIsxdigit c) :
    ipv6Turn s c = .goOn { s with octet := octetStep s.digit s.octet c } := by
  have hcolon : c ≠ 58 := by rintro rfl; cases hc
  rw [ipv6Turn, if_neg hcolon, if_pos hc, octetStep]

theorem ipv6Turn_colon :
    ipv6Turn s 58 =
      if s.octet > 0xffff ∨ s.octet = -1 ∧ s.shortened ∨ s.digit = 10 then .reject
      else if s.colons = 7 then .stop { s with shortened := s.octet = -1 || s.shortened }
      else .goOn { s with
        colons := s.colons + 1, octet := -1, shortened := s.octet = -1 || s.shortened } := rfl

theorem ipv6Turn_dot :
    ipv6Turn s 46 =
      if s.digit = 10 ∧ s.octet > 255 then .reject
      else if s.digit = 16 ∧ s.octet > 597 ∨ s.octet = -1 ∨ s.colons = 7 ∨ s.dots = 3 then .stop s
      else .goOn { s with dots := s.dots + 1, octet := -1, digit := 10 } := rfl

theorem ipv6Turn_other (hx : asciiIsxdigit c = false) (hcolon : c ≠ 58) (hdot : c ≠ 46) :
    ipv6Turn s c = .stop s := by
  simp [ipv6Turn, hx, hcolon, hdot]

theorem ipv6_byte (c : UInt8) :
    asciiIsxdigit c ∨ c = 58 ∨ c = 46 ∨ asciiIsxdigit c = false ∧ c ≠ 58 ∧ c ≠ 46 := by
  cases hx : asciiIsxdigit c with
  | true => exact .inl rfl
  | false => tauto

/-- The value of group number `i`: the first one counts as `0` without digits. -/
def groupOctet (i : Nat) (g : List UInt8) : Int := octetFrom 16 (if i = 0 then 0 else -1) g

def groupOctets (gs : List (List UInt8)) : List Int := gs.mapIdx groupOctet

@[simp] theorem groupOctets_nil : groupOctets [] = [] := rfl

@[simp] theorem groupOctets_snoc (gs : List (List UInt8)) (g : List UInt8) :
    groupOctets (gs ++ [g]) = groupOctets gs ++ [groupOctet gs.length g] := by
  simp [groupOctets]

/-- Groups that the loop lets a colon follow: at most one of them is left out. -/
structure GroupsPass (gs : List (List UInt8)) : Prop where
  small : ∀ o ∈ groupOctets gs, o ≤ 0xffff
  once : (groupOctets gs).count (-1) ≤ 1

/-- The state behind the groups `gs` with a colon behind each, and `g`. -/
def colonState (gs : List (List UInt8)) (g : List UInt8) : Ipv6State :=
  ⟨gs.length, 0, groupOctet gs.length g, 16, decide (-1 ∈ groupOctets gs)⟩

structure ColonText (t : List UInt8) (s : Ipv6State) (gs : List (List UInt8)) (g : List UInt8) :
    Prop where
  text : t = joinText 58 (gs ++ [g])
  digits : ∀ p ∈ gs ++ [g], ∀ c ∈ p, asciiIsxdigit c
  pass : GroupsPass gs
  length_le : gs.length ≤ 7
  state : s = colonState gs g

/-- The state behind a dot, the numbers `hs` with a dot behind each, and `h`. -/
def dotState (gs hs : List (List UInt8)) (h : List UInt8) : Ipv6State :=
  ⟨gs.length, hs.length + 1, octetFrom 10 (-1) h, 10, decide (-1 ∈ groupOctets gs)⟩

/-- The group `g` is the first number of a dotted quad, whose other numbers are `hs` and `h`. -/
structure DotText (t : List UInt8) (s : Ipv6State) (gs : List (List UInt8)) (g : List UInt8)
    (hs : List (List UInt8)) (h : List UInt8) : Prop where
  text : t = joinText 58 (gs ++ [g]) ++ 46 :: joinText 46 (hs ++ [h])
  digits : ∀ p ∈ gs ++ [g], ∀ c ∈ p, asciiIsxdigit c
  numbers : ∀ p ∈ hs ++ [h], ∀ c ∈ p, asciiIsxdigit c
  pass : GroupsPass gs
  length_le : gs.length ≤ 6
  first : groupOctet gs.length g ≤ 597 ∧ groupOctet gs.length g ≠ -1
  small : ∀ p ∈ hs, SmallOctet (octetFrom 10 (-1) p)
  dots_le : hs.length ≤ 2
  state : s = dotState gs hs h

theorem GroupsPass.nil : GroupsPass [] := ⟨by simp, by simp⟩

theorem GroupsPass.snoc_iff {g : List UInt8} :
    GroupsPass (gs ++ [g]) ↔ GroupsPass gs ∧ groupOctet gs.length g ≤ 0xffff ∧
      ¬(groupOctet gs.length g = -1 ∧ -1 ∈ groupOctets gs) := by
  have hcount : 0 < (groupOctets gs).count (-1) ↔ -1 ∈ groupOctets gs := count_pos_iff
  constructor
  · rintro ⟨hsmall, honce⟩
    rw [groupOctets_snoc] at hsmall honce
    rw [count_append] at honce
    refine ⟨⟨fun o ho => hsmall o (mem_append_left _ ho), by omega⟩,
      hsmall _ (by simp), fun ⟨hg, hmem⟩ => ?_⟩
    rw [hg] at honce
    have := hcount.mpr hmem
    simp at honce
    omega
  · rintro ⟨⟨hsmall, honce⟩, hg, hblank⟩
    refine ⟨fun o ho => ?_, ?_⟩
    · rw [groupOctets_snoc] at ho
      rcases mem_append.mp ho with ho | ho
      · exact hsmall o ho
      · obtain rfl := mem_singleton.mp ho
        exact hg
    · rw [groupOctets_snoc, count_append]
      by_cases hone : groupOctet gs.length g = -1
      · have hzero : (groupOctets gs).count (-1) = 0 := by
          have := mt hcount.mp fun hmem => hblank ⟨hone, hmem⟩
          omega
        simp [hzero, hone]
      · simpa [count_singleton, hone] using honce

theorem digits_snoc {ps : List (List UInt8)} {p : List UInt8}
    (h : ∀ q ∈ ps ++ [p], ∀ d ∈ q, asciiIsxdigit d) (hc : asciiIsxdigit c) :
    ∀ q ∈ ps ++ [p ++ [c]], ∀ d ∈ q, asciiIsxdigit d := by
  intro q hq d hd
  rcases mem_append.mp hq with hq | hq
  · exact h q (mem_append_left _ hq) d hd
  · obtain rfl := mem_singleton.mp hq
    rcases mem_append.mp hd with hd | hd
    · exact h p (by simp) d hd
    · obtain rfl := mem_singleton.mp hd
      exact hc

theorem digits_open {ps : List (List UInt8)} (h : ∀ q ∈ ps, ∀ d ∈ q, asciiIsxdigit d) :
    ∀ q ∈ ps ++ [[]], ∀ d ∈ q, asciiIsxdigit d := by
  intro q hq d hd
  rcases mem_append.mp hq with hq | hq
  · exact h q hq d hd
  · obtain rfl := mem_singleton.mp hq
    cases hd

theorem ColonText.goOn {s s' : Ipv6State} {g : List UInt8} (h : ColonText t s gs g)
    (hturn : ipv6Turn s c = .goOn s') :
    (∃ gs g, ColonText (t ++ [c]) s' gs g) ∨ ∃ gs g hs h, DotText (t ++ [c]) s' gs g hs h := by
  obtain ⟨rfl, hdigits, hpass, hlen, rfl⟩ := h
  rcases ipv6_byte c with hx | rfl | rfl | ⟨hx, hcolon, hdot⟩
  · rw [ipv6Turn_xdigit _ hx] at hturn
    cases hturn
    refine .inl ⟨gs, g ++ [c], by rw [joinText_extend], digits_snoc hdigits hx, hpass, hlen, ?_⟩
    simp [colonState, groupOctet, octetFrom_snoc]
  · rw [ipv6Turn_colon] at hturn
    split at hturn
    case isTrue => cases hturn
    case isFalse hok =>
      split at hturn
      case isTrue => cases hturn
      case isFalse hcolons =>
        cases hturn
        simp only [colonState] at hok hcolons
        refine .inl ⟨gs ++ [g], [], (joinText_open 58 (by simp)).symm, digits_open hdigits,
          GroupsPass.snoc_iff.mpr ⟨hpass, by omega, fun ⟨ho, hmem⟩ => hok (.inr (.inl ⟨ho, ?_⟩))⟩,
          ?_, ?_⟩
        · simpa using hmem
        · simp only [length_append, length_cons, length_nil]
          omega
        · simp [colonState, groupOctet, Bool.or_comm, eq_comm]
  · rw [ipv6Turn_dot] at hturn
    split at hturn
    case isTrue => cases hturn
    case isFalse =>
      split at hturn
      case isTrue => cases hturn
      case isFalse hgo =>
        cases hturn
        simp only [colonState, true_and] at hgo
        refine .inr ⟨gs, g, [], [], by simp, hdigits, by simp, hpass, by omega,
          ⟨by omega, by omega⟩, by simp, by simp, ?_⟩
        simp [dotState, colonState]
  · rw [ipv6Turn_other _ hx hcolon hdot] at hturn
    cases hturn

theorem DotText.goOn {s s' : Ipv6State} {g : List UInt8} {hs : List (List UInt8)} {h : List UInt8}
    (ht : DotText t s gs g hs h) (hturn : ipv6Turn s c = .goOn s') :
    ∃ hs h, DotText (t ++ [c]) s' gs g hs h := by
  obtain ⟨rfl, hdigits, hnumbers, hpass, hlen, hfirst, hsmall, hdots, rfl⟩ := ht
  rcases ipv6_byte c with hx | rfl | rfl | ⟨hx, hcolon, hdot⟩
  · rw [ipv6Turn_xdigit _ hx] at hturn
    cases hturn
    refine ⟨hs, h ++ [c], by rw [joinText_extend]; simp, hdigits, digits_snoc hnumbers hx, hpass,
      hlen, hfirst, hsmall, hdots, ?_⟩
    simp [dotState, octetFrom_snoc]
  · rw [ipv6Turn_colon, if_pos (.inr (.inr rfl))] at hturn
    cases hturn
  · rw [ipv6Turn_dot] at hturn
    split at hturn
    case isTrue => cases hturn
    case isFalse hok =>
      split at hturn
      case isTrue => cases hturn
      case isFalse hgo =>
        cases hturn
        simp only [dotState, true_and] at hok hgo
        refine ⟨hs ++ [h], [], by rw [joinText_open 46 (by simp)]; simp, hdigits,
          digits_open hnumbers, hpass, hlen, hfirst, ?_, ?_, ?_⟩
        · intro p hp
          rcases mem_append.mp hp with hp | hp
          · exact hsmall p hp
          · obtain rfl := mem_singleton.mp hp
            exact ⟨by omega, by omega⟩
        · simp only [length_append, length_cons, length_nil]
          omega
        · simp [dotState]
  · rw [ipv6Turn_other _ hx hcolon hdot] at hturn
    cases hturn

theorem ipv6_of_runs {s : Ipv6State} (h : Runs ipv6Turn ipv6Start t s) :
    (∃ gs g, ColonText t s gs g) ∨ ∃ gs g hs h, DotText t s gs g hs h := by
  induction t using List.reverseRecOn generalizing s with
  | nil =>
    cases h
    exact .inl ⟨[], [], by simp, by simp, .nil, by simp, by simp [colonState, groupOctet, ipv6Start]⟩
  | append_singleton t c ih =>
    obtain ⟨s', hs', hturn⟩ := h.of_snoc
    rcases ih hs' with ⟨gs, g, ht⟩ | ⟨gs, g, hs, h, ht⟩
    · exact ht.goOn hturn
    · obtain ⟨hs, h, ht⟩ := ht.goOn hturn
      exact .inr ⟨gs, g, hs, h, ht⟩

end SyslogNg.DbParser
