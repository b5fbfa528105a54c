import SyslogNg.DbParser.AddressScan

/-!
# What `r_parser_ipv6` takes (`modules/dbparser/radix.c`)

The texts that the loop goes through and that the checks behind it accept, with a separator at
the end given back.
-/

namespace SyslogNg.DbParser

open Lib List Option
open List (eq_nil_or_concat' length_append length_cons length_nil)

variable {gs hs : List (List UInt8)} {g h : List UInt8}

/-! ## The loop goes through its texts -/

theorem ipv6_runs_digits {n : List UInt8} (hn : ∀ c ∈ n, asciiIsxdigit c) (s : Ipv6State) :
    Runs ipv6Turn s n { s with octet := octetFrom s.digit s.octet n } := by
  induction n generalizing s with
  | nil => exact .nil s
  | cons c n ih =>
    exact .cons (ipv6Turn_xdigit s (hn c mem_cons_self))
      (ih (fun d hd => hn d (mem_cons_of_mem c hd)) _)

theorem ipv6Turn_colonState (hpass : GroupsPass (gs ++ [g])) (hlen : gs.length ≤ 6) :
    ipv6Turn (colonState gs g) 58 = .goOn (colonState (gs ++ [g]) []) := by
  obtain ⟨-, hsmall, honce⟩ := GroupsPass.snoc_iff.mp hpass
  have hok : ¬((colonState gs g).octet > 0xffff ∨
      (colonState gs g).octet = -1 ∧ (colonState gs g).shortened ∨ (colonState gs g).digit = 10) := by
    rintro (ho | ⟨ho, hmem⟩ | hdigit)
    · exact absurd hsmall (not_le.mpr ho)
    · exact honce ⟨ho, by simpa [colonState] using hmem⟩
    · cases hdigit
  have hcolons : (colonState gs g).colons ≠ 7 := by simp only [colonState]; omega
  rw [ipv6Turn_colon, if_neg hok, if_neg hcolons]
  simp [colonState, groupOctet, Bool.or_comm, eq_comm]

theorem ipv6Turn_colonState_dot (hlen : gs.length ≤ 6)
    (hfirst : groupOctet gs.length g ≤ 597 ∧ groupOctet gs.length g ≠ -1) :
    ipv6Turn (colonState gs g) 46 = .goOn (dotState gs [] []) := by
  have hdigit : ¬((colonState gs g).digit = 10 ∧ (colonState gs g).octet > 255) := by
    rintro ⟨h, -⟩
    cases h
  have hgo : ¬((colonState gs g).digit = 16 ∧ (colonState gs g).octet > 597 ∨
      (colonState gs g).octet = -1 ∨ (colonState gs g).colons = 7 ∨ (colonState gs g).dots = 3) := by
    simp only [colonState]
    omega
  rw [ipv6Turn_dot, if_neg hdigit, if_neg hgo]
  rfl

theorem ipv6Turn_dotState (hlen : gs.length ≤ 6) (hdots : hs.length ≤ 1)
    (hsmall : SmallOctet (octetFrom 10 (-1) h)) :
    ipv6Turn (dotState gs hs h) 46 = .goOn (dotState gs (hs ++ [h]) []) := by
  unfold SmallOctet at hsmall
  have hok : ¬((dotState gs hs h).digit = 10 ∧ (dotState gs hs h).octet > 255) := by
    simp only [dotState]
    omega
  have hgo : ¬((dotState gs hs h).digit = 16 ∧ (dotState gs hs h).octet > 597 ∨
      (dotState gs hs h).octet = -1 ∨ (dotState gs hs h).colons = 7 ∨
        (dotState gs hs h).dots = 3) := by
    simp only [dotState]
    omega
  rw [ipv6Turn_dot, if_neg hok, if_neg hgo]
  simp [dotState]

theorem ColonText.runs {t : List UInt8} {s : Ipv6State} (ht : ColonText t s gs g) :
    Runs ipv6Turn ipv6Start t s := by
  induction gs using reverseRecOn generalizing t s g with
  | nil =>
    obtain ⟨rfl, hdigits, _, _, rfl⟩ := ht
    rw [nil_append, joinText_singleton]
    exact ipv6_runs_digits (hdigits g (by simp)) ipv6Start
  | append_singleton gs m ih =>
    obtain ⟨rfl, hdigits, hpass, hlen, rfl⟩ := ht
    simp only [length_append, length_cons, length_nil] at hlen
    have hprev : Runs ipv6Turn ipv6Start (joinText 58 (gs ++ [m])) (colonState gs m) :=
      ih ⟨rfl, fun p hp => hdigits p (mem_append_left _ hp), (GroupsPass.snoc_iff.mp hpass).1,
        by omega, rfl⟩
    have hg : Runs ipv6Turn (colonState (gs ++ [m]) []) g (colonState (gs ++ [m]) g) :=
      ipv6_runs_digits (hdigits g (by simp)) _
    rw [joinText_snoc (by simp)]
    exact hprev.append (.cons (ipv6Turn_colonState hpass (by omega)) hg)

theorem DotText.runs {t : List UInt8} {s : Ipv6State} (ht : DotText t s gs g hs h) :
    Runs ipv6Turn ipv6Start t s := by
  induction hs using reverseRecOn generalizing t s h with
  | nil =>
    obtain ⟨rfl, hdigits, hnumbers, hpass, hlen, hfirst, _, _, rfl⟩ := ht
    have hprev : Runs ipv6Turn ipv6Start (joinText 58 (gs ++ [g])) (colonState gs g) :=
      ColonText.runs ⟨rfl, hdigits, hpass, by omega, rfl⟩
    have hh : Runs ipv6Turn (dotState gs [] []) h (dotState gs [] h) :=
      ipv6_runs_digits (hnumbers h (by simp)) _
    rw [nil_append, joinText_singleton]
    exact hprev.append (.cons (ipv6Turn_colonState_dot hlen hfirst) hh)
  | append_singleton hs m ih =>
    obtain ⟨rfl, hdigits, hnumbers, hpass, hlen, hfirst, hsmall, hdots, rfl⟩ := ht
    simp only [length_append, length_cons, length_nil] at hdots
    have hprev := ih (h := m) ⟨rfl, hdigits, fun p hp => hnumbers p (mem_append_left _ hp),
      hpass, hlen, hfirst, fun p hp => hsmall p (mem_append_left _ hp), by omega, rfl⟩
    have hh : Runs ipv6Turn (dotState gs (hs ++ [m]) []) h (dotState gs (hs ++ [m]) h) :=
      ipv6_runs_digits (hnumbers h (by simp)) _
    have hdot : ipv6Turn (dotState gs hs m) 46 = .goOn (dotState gs (hs ++ [m]) []) :=
      ipv6Turn_dotState hlen (by omega) (hsmall m (by simp))
    have htext : joinText 58 (gs ++ [g]) ++ 46 :: joinText 46 (hs ++ [m] ++ [h]) =
        joinText 58 (gs ++ [g]) ++ 46 :: joinText 46 (hs ++ [m]) ++ 46 :: h := by
      rw [joinText_snoc (append_ne_nil_of_right_ne_nil hs (cons_ne_nil m []))]
      simp only [append_assoc, cons_append]
    rw [htext]
    exact hprev.append (.cons hdot hh)

/-! ## The byte that ends the loop -/

/-- Behind the groups `gs` and `g` the loop stops at `c`. -/
structure ColonEnds (gs : List (List UInt8)) (g : List UInt8) (c : UInt8) : Prop where
  digit : asciiIsxdigit c = false
  colon : c = 58 → gs.length = 7 ∧ groupOctet gs.length g ≤ 0xffff ∧
    ¬(groupOctet gs.length g = -1 ∧ -1 ∈ groupOctets gs)
  dot : c = 46 → groupOctet gs.length g > 597 ∨ groupOctet gs.length g = -1 ∨ gs.length = 7

/-- Behind the numbers `hs` and `h` the loop stops at `c`. -/
structure DotEnds (hs : List (List UInt8)) (h : List UInt8) (c : UInt8) : Prop where
  digit : asciiIsxdigit c = false
  colon : c ≠ 58
  dot : c = 46 → octetFrom 10 (-1) h ≤ 255 ∧ (octetFrom 10 (-1) h = -1 ∨ hs.length = 2)

/-- The state that the loop stops in behind the groups `gs` and `g`. -/
def colonStop (gs : List (List UInt8)) (g : List UInt8) (c : UInt8) : Ipv6State :=
  { colonState gs g with
    shortened := c = 58 && groupOctet gs.length g = -1 || decide (-1 ∈ groupOctets gs) }

theorem colon_stop_iff {c : UInt8} {s : Ipv6State} :
    ipv6Turn (colonState gs g) c = .stop s ↔ ColonEnds gs g c ∧ s = colonStop gs g c := by
  rcases ipv6_byte c with hx | rfl | rfl | ⟨hx, hcolon, hdot⟩
  · rw [ipv6Turn_xdigit _ hx]
    refine iff_of_false (by simp) fun h => ?_
    rw [h.1.digit] at hx
    cases hx
  · rw [ipv6Turn_colon]
    have hreject : ((colonState gs g).octet > 0xffff ∨
        (colonState gs g).octet = -1 ∧ (colonState gs g).shortened ∨ (colonState gs g).digit = 10) ↔
          ¬(groupOctet gs.length g ≤ 0xffff ∧ ¬(groupOctet gs.length g = -1 ∧ -1 ∈ groupOctets gs)) := by
      rw [not_and_or, not_not, not_le]
      simp [colonState]
    have hseven : (colonState gs g).colons = 7 ↔ gs.length = 7 := by
      simp only [colonState]
      omega
    have hends : ColonEnds gs g 58 ↔ gs.length = 7 ∧ groupOctet gs.length g ≤ 0xffff ∧
        ¬(groupOctet gs.length g = -1 ∧ -1 ∈ groupOctets gs) :=
      ⟨fun h => h.colon rfl, fun h => ⟨rfl, fun _ => h, fun h0 => (by cases h0)⟩⟩
    simp only [hreject, hseven, hends]
    split
    case isTrue hbad => exact iff_of_false (by simp) fun h => hbad h.1.2
    case isFalse hok =>
      split
      case isFalse hlen => exact iff_of_false (by simp) fun h => hlen h.1.1
      case isTrue hlen =>
        rw [and_iff_right ⟨hlen, not_not.mp hok⟩]
        simp [colonStop, colonState, eq_comm]
  · rw [ipv6Turn_dot]
    have hdigit : ¬((colonState gs g).digit = 10 ∧ (colonState gs g).octet > 255) := by
      rintro ⟨h, -⟩
      cases h
    have hstop : ((colonState gs g).digit = 16 ∧ (colonState gs g).octet > 597 ∨
        (colonState gs g).octet = -1 ∨ (colonState gs g).colons = 7 ∨ (colonState gs g).dots = 3) ↔
          (groupOctet gs.length g > 597 ∨ groupOctet gs.length g = -1 ∨ gs.length = 7) := by
      simp only [colonState, true_and]
      omega
    have hends : ColonEnds gs g 46 ↔
        (groupOctet gs.length g > 597 ∨ groupOctet gs.length g = -1 ∨ gs.length = 7) :=
      ⟨fun h => h.dot rfl, fun h => ⟨rfl, fun h0 => (by cases h0), fun _ => h⟩⟩
    rw [if_neg hdigit, hends]
    simp only [hstop]
    split
    case isFalse hgo => exact iff_of_false (by simp) fun h => hgo h.1
    case isTrue h =>
      rw [and_iff_right h]
      simp [colonStop, colonState, eq_comm]
  · rw [ipv6Turn_other _ hx hcolon hdot, and_iff_right
      ⟨hx, fun h => absurd h hcolon, fun h => absurd h hdot⟩]
    simp [colonStop, colonState, hcolon, eq_comm]

theorem dot_stop_iff {c : UInt8} {s : Ipv6State} (hlen : gs.length ≤ 6) :
    ipv6Turn (dotState gs hs h) c = .stop s ↔ DotEnds hs h c ∧ s = dotState gs hs h := by
  rcases ipv6_byte c with hx | rfl | rfl | ⟨hx, hcolon, hdot⟩
  · rw [ipv6Turn_xdigit _ hx]
    refine iff_of_false (by simp) fun h => ?_
    rw [h.1.digit] at hx
    cases hx
  · rw [ipv6Turn_colon, if_pos (.inr (.inr rfl))]
    exact iff_of_false (by simp) fun h => h.1.colon rfl
  · rw [ipv6Turn_dot]
    have hreject : ((dotState gs hs h).digit = 10 ∧ (dotState gs hs h).octet > 255) ↔
        ¬octetFrom 10 (-1) h ≤ 255 := by
      simp only [dotState, true_and]
      omega
    have hstop : ((dotState gs hs h).digit = 16 ∧ (dotState gs hs h).octet > 597 ∨
        (dotState gs hs h).octet = -1 ∨ (dotState gs hs h).colons = 7 ∨
          (dotState gs hs h).dots = 3) ↔ (octetFrom 10 (-1) h = -1 ∨ hs.length = 2) := by
      simp only [dotState]
      omega
    have hends : DotEnds hs h 46 ↔
        octetFrom 10 (-1) h ≤ 255 ∧ (octetFrom 10 (-1) h = -1 ∨ hs.length = 2) :=
      ⟨fun h => h.dot rfl, fun h => ⟨rfl, by decide, fun _ => h⟩⟩
    simp only [hreject, hstop, hends]
    split
    case isTrue hbad => exact iff_of_false (by simp) fun h => hbad h.1.1
    case isFalse hok =>
      split
      case isFalse hgo => exact iff_of_false (by simp) fun h => hgo h.1.2
      case isTrue h =>
        rw [and_iff_right ⟨not_not.mp hok, h⟩]
        simp [eq_comm]
  · rw [ipv6Turn_other _ hx hcolon hdot, and_iff_right ⟨hx, hcolon, fun h => absurd h hdot⟩]
    simp [eq_comm]

/-! ## The end of the loop -/

theorem readAt_append (u v : List UInt8) (c : UInt8) : readAt (u ++ c :: v) u.length = some c := by
  rw [readAt_eq_head _ (by simp), drop_left]
  rfl

variable (s : Ipv6State) (u rest : List UInt8) {str : List UInt8} {r : RParse}

theorem ipv6End_dot :
    ipv6End (u ++ 46 :: rest) s (u.length + 1) =
      some (ipv6Check { s with dots := s.dots - 1 } u.length) := by
  have hcast : ((u.length + 1 : Nat) : Int) - 1 = (u.length : Nat) := by omega
  rw [ipv6End, hcast, readAt_append, bind_some, if_pos rfl, Nat.add_sub_cancel]

theorem ipv6End_digit {c : UInt8} (hc : asciiIsxdigit c) :
    ipv6End (u ++ c :: rest) s (u.length + 1) = some (ipv6Check s (u.length + 1)) := by
  have hcast : ((u.length + 1 : Nat) : Int) - 1 = (u.length : Nat) := by omega
  have hdot : c ≠ 46 := by rintro rfl; cases hc
  have hcolon : c ≠ 58 := by rintro rfl; cases hc
  rw [ipv6End, hcast, readAt_append, bind_some, if_neg hdot, if_neg hcolon]

theorem ipv6End_colon (c : UInt8) :
    ipv6End (u ++ c :: 58 :: rest) s (u.length + 2) =
      some (if c ≠ 58 then ipv6Check { s with colons := s.colons - 1 } (u.length + 1)
        else ipv6Check s (u.length + 2)) := by
  have hlast : ((u.length + 2 : Nat) : Int) - 1 = ((u ++ [c]).length : Nat) := by
    rw [length_append, length_singleton]
    omega
  have htwo : ((u.length + 2 : Nat) : Int) - 2 = (u.length : Nat) := by omega
  have hread : readAt (u ++ c :: 58 :: rest) (u ++ [c]).length = some 58 := by
    have := readAt_append (u ++ [c]) rest 58
    rwa [append_assoc] at this
  rw [ipv6End, hlast, hread, bind_some, if_neg (by decide), if_pos rfl, htwo,
    readAt_append, map_some]
  rfl

theorem ipv6Check_eq_some {s : Ipv6State} {len : Nat} :
    ipv6Check s len = some r ↔ (2 ≤ s.colons ∧ s.colons ≤ 7 ∧ (s.digit = 10 → s.octet ≤ 255) ∧
        (s.digit = 16 → s.octet ≤ 0xffff) ∧ (s.dots = 0 ∨ s.dots = 3) ∧
        (s.shortened ∨ s.colons = 7 ∨ s.dots = 3)) ∧ r = .whole len := by
  rw [ipv6Check, ite_none_left_eq_some, some.injEq, eq_comm (a := RParse.whole len)]
  refine and_congr_left fun _ => ?_
  cases s.shortened <;>
    simp only [Bool.true_eq_false, Bool.false_eq_true, eq_self, false_and, true_and, false_or,
      or_false, true_or, and_true] <;>
    omega

/-! ## What is taken -/

/-- The string begins with the groups `gs` and `g`, behind which the loop stops at `c`. -/
structure ColonScan (str : List UInt8) (gs : List (List UInt8)) (g : List UInt8) (c : UInt8) :
    Prop where
  text : ∃ rest, str = joinText 58 (gs ++ [g]) ++ rest ∧ rest.headD 0 = c
  digits : ∀ p ∈ gs ++ [g], ∀ d ∈ p, asciiIsxdigit d
  pass : GroupsPass gs
  length_le : gs.length ≤ 7
  ends : ColonEnds gs g c

/-- The string begins with groups and a dotted quad, behind which the loop stops. -/
structure DotScan (str : List UInt8) (gs : List (List UInt8)) (g : List UInt8)
    (hs : List (List UInt8)) (h : List UInt8) : Prop where
  text : ∃ rest, str = joinText 58 (gs ++ [g]) ++ 46 :: joinText 46 (hs ++ [h]) ++ rest ∧
    DotEnds hs h (rest.headD 0)
  digits : ∀ p ∈ gs ++ [g], ∀ d ∈ p, asciiIsxdigit d
  numbers : ∀ p ∈ hs ++ [h], ∀ d ∈ p, asciiIsxdigit d
  pass : GroupsPass gs
  length_le : gs.length ≤ 6
  first : groupOctet gs.length g ≤ 597 ∧ groupOctet gs.length g ≠ -1
  small : ∀ p ∈ hs, SmallOctet (octetFrom 10 (-1) p)
  dots_le : hs.length ≤ 2

/-- The text of groups and, behind them, of the numbers of a dotted quad where there are any. -/
def takenText (gs ns : List (List UInt8)) : List UInt8 :=
  joinText 58 (if ns = [] then gs else gs ++ [joinText 46 ns])

theorem takenText_quad (gs : List (List UInt8)) (g : List UInt8) {hs : List (List UInt8)} (hhs : hs ≠ []) :
    takenText gs (g :: hs) = joinText 58 (gs ++ [g]) ++ 46 :: joinText 46 hs := by
  rw [takenText, if_neg (cons_ne_nil g hs), joinText_cons g hhs, joinText_extend]

/-- What the parser takes from the string: groups, and the numbers of a dotted quad. -/
inductive Ipv6Takes (str : List UInt8) : List (List UInt8) → List (List UInt8) → Prop
  | groups {gs : List (List UInt8)} {g : List UInt8} {c : UInt8} (hscan : ColonScan str gs g c)
    (hg : g ≠ []) (hmin : 2 ≤ gs.length) (hsmall : groupOctet gs.length g ≤ 0xffff)
    (hfull : -1 ∈ groupOctets gs ∨ gs.length = 7) : Ipv6Takes str (gs ++ [g]) []
  | doubleColon {gs : List (List UInt8)} {c : UInt8} (hscan : ColonScan str (gs ++ [[]]) [] c)
    (hgs : gs ≠ []) : Ipv6Takes str (gs ++ [[], []]) []
  /-- The colon behind the last group is given back. -/
  | colonBack {gs : List (List UInt8)} {g : List UInt8} {c : UInt8}
    (hscan : ColonScan str (gs ++ [g]) [] c) (hg : g ≠ []) (hmin : 2 ≤ gs.length)
    (hshort : -1 ∈ groupOctets (gs ++ [g]) ∨ c = 58) : Ipv6Takes str (gs ++ [g]) []
  /-- The dot behind the last group is given back. -/
  | dotBack {gs : List (List UInt8)} {g : List UInt8} (hscan : DotScan str gs g [] [])
    (hmin : 2 ≤ gs.length) (hshort : -1 ∈ groupOctets gs) : Ipv6Takes str (gs ++ [g]) []
  | quad {gs : List (List UInt8)} {g h₁ h₂ h₃ : List UInt8} (hscan : DotScan str gs g [h₁, h₂] h₃)
    (hh : h₃ ≠ []) (hsmall : octetFrom 10 (-1) h₃ ≤ 255) (hmin : 2 ≤ gs.length) :
    Ipv6Takes str gs [g, h₁, h₂, h₃]

theorem rParserIpv6_eq_some :
    rParserIpv6 str = some (some r) ↔ (∃ gs g c, ColonScan str gs g c ∧
        ipv6End str (colonStop gs g c) (joinText 58 (gs ++ [g])).length = some (some r)) ∨
      ∃ gs g hs h, DotScan str gs g hs h ∧ ipv6End str (dotState gs hs h)
          (joinText 58 (gs ++ [g]) ++ 46 :: joinText 46 (hs ++ [h])).length = some (some r) := by
  have hloop : rParserIpv6 str = some (some r) ↔ ∃ s n,
      scan ipv6Turn ipv6Start (memOf str) = some (some (s, n)) ∧ ipv6End str s n = some (some r) := by
    rw [rParserIpv6_eq, bind_eq_some_iff]
    constructor
    · rintro ⟨_ | ⟨s, n⟩, he, h⟩
      · cases h
      · exact ⟨s, n, he, h⟩
    · rintro ⟨s, n, he, h⟩
      exact ⟨_, he, h⟩
  rw [hloop]
  constructor
  · rintro ⟨s, n, hscan, hend⟩
    obtain ⟨t, rest, s', hstr, rfl, hruns, hstop⟩ := scan_memOf_iff.mp hscan
    rcases ipv6_of_runs hruns with ⟨gs, g, ht⟩ | ⟨gs, g, hs, h, ht⟩
    · obtain ⟨rfl, hdigits, hpass, hlen, rfl⟩ := ht
      obtain ⟨hends, rfl⟩ := colon_stop_iff.mp hstop
      exact .inl ⟨gs, g, _, ⟨⟨rest, hstr, rfl⟩, hdigits, hpass, hlen, hends⟩, hend⟩
    · obtain ⟨rfl, hdigits, hnumbers, hpass, hlen, hfirst, hsmall, hdots, rfl⟩ := ht
      obtain ⟨hends, rfl⟩ := (dot_stop_iff hlen).mp hstop
      exact .inr ⟨gs, g, hs, h, ⟨⟨rest, hstr, hends⟩, hdigits, hnumbers, hpass, hlen, hfirst, hsmall,
        hdots⟩, hend⟩
  · rintro (⟨gs, g, c, hscan, hend⟩ | ⟨gs, g, hs, h, hscan, hend⟩)
    · obtain ⟨⟨rest, hstr, rfl⟩, hdigits, hpass, hlen, hends⟩ := hscan
      have ht : ColonText _ (colonState gs g) gs g := ⟨rfl, hdigits, hpass, hlen, rfl⟩
      exact ⟨_, _, scan_memOf_iff.mpr ⟨_, rest, _, hstr, rfl, ht.runs,
        colon_stop_iff.mpr ⟨hends, rfl⟩⟩, hend⟩
    · obtain ⟨⟨rest, hstr, hends⟩, hdigits, hnumbers, hpass, hlen, hfirst, hsmall, hdots⟩ := hscan
      have ht : DotText _ (dotState gs hs h) gs g hs h :=
        ⟨rfl, hdigits, hnumbers, hpass, hlen, hfirst, hsmall, hdots, rfl⟩
      exact ⟨_, _, scan_memOf_iff.mpr ⟨_, rest, _, hstr, rfl, ht.runs,
        (dot_stop_iff hlen).mpr ⟨hends, rfl⟩⟩, hend⟩

/-! ### The last byte of the text -/

theorem ipv6End_group (gs : List (List UInt8)) (g rest : List UInt8) {d : UInt8} (hd : asciiIsxdigit d) :
    ipv6End (joinText 58 (gs ++ [g ++ [d]]) ++ rest) s (joinText 58 (gs ++ [g ++ [d]])).length =
      some (ipv6Check s (joinText 58 (gs ++ [g ++ [d]])).length) := by
  have := ipv6End_digit s (joinText 58 (gs ++ [g])) rest hd
  simpa [joinText_extend] using this

theorem ipv6End_groupColon (gs : List (List UInt8)) (g rest : List UInt8) {d : UInt8}
    (hd : asciiIsxdigit d) :
    ipv6End (joinText 58 (gs ++ [g ++ [d]] ++ [[]]) ++ rest) s
        (joinText 58 (gs ++ [g ++ [d]] ++ [[]])).length =
      some (ipv6Check { s with colons := s.colons - 1 } (joinText 58 (gs ++ [g ++ [d]])).length) := by
  have hcolon : d ≠ 58 := by rintro rfl; cases hd
  have := ipv6End_colon s (joinText 58 (gs ++ [g])) rest d
  rw [if_pos hcolon] at this
  rw [joinText_open 58 (by simp)]
  simpa [joinText_extend] using this

theorem ipv6End_doubleColon (hgs : gs ≠ []) :
    ipv6End (joinText 58 (gs ++ [[]] ++ [[]]) ++ rest) s (joinText 58 (gs ++ [[]] ++ [[]])).length =
      some (ipv6Check s (joinText 58 (gs ++ [[]] ++ [[]])).length) := by
  have := ipv6End_colon s (joinText 58 gs) rest 58
  rw [if_neg (by decide)] at this
  rw [joinText_open 58 (by simp), joinText_open 58 hgs]
  simpa using this

theorem ipv6End_number (hs : List (List UInt8)) (h rest : List UInt8) {d : UInt8} (hd : asciiIsxdigit d) :
    ipv6End (u ++ 46 :: joinText 46 (hs ++ [h ++ [d]]) ++ rest) s
        (u ++ 46 :: joinText 46 (hs ++ [h ++ [d]])).length =
      some (ipv6Check s (u ++ 46 :: joinText 46 (hs ++ [h ++ [d]])).length) := by
  have := ipv6End_digit s (u ++ 46 :: joinText 46 (hs ++ [h])) rest hd
  simpa [joinText_extend, Nat.add_assoc] using this

theorem ipv6End_numberDot (hhs : hs ≠ []) :
    ipv6End (u ++ 46 :: joinText 46 (hs ++ [[]]) ++ rest) s
        (u ++ 46 :: joinText 46 (hs ++ [[]])).length =
      some (ipv6Check { s with dots := s.dots - 1 } (u ++ 46 :: joinText 46 hs).length) := by
  have := ipv6End_dot s (u ++ 46 :: joinText 46 hs) rest
  rw [joinText_open 46 hhs]
  simpa [Nat.add_assoc] using this

/-! ### What the checks accept -/

theorem Ipv6Takes.of_colonScan {c : UInt8} (hscan : ColonScan str gs g c)
    (hend : ipv6End str (colonStop gs g c) (joinText 58 (gs ++ [g])).length = some (some r)) :
    ∃ gs ns, Ipv6Takes str gs ns ∧ r = .whole (takenText gs ns).length := by
  obtain ⟨rest, hstr, _⟩ := hscan.text
  obtain rfl | ⟨g, d, rfl⟩ := eq_nil_or_concat' g
  · obtain rfl | ⟨gs, p, rfl⟩ := eq_nil_or_concat' gs
    · cases hend
    · obtain rfl | ⟨p, d, rfl⟩ := eq_nil_or_concat' p
      · by_cases hgs : gs = []
        · subst hgs
          rw [hstr] at hend
          cases hend
        · rw [hstr, ipv6End_doubleColon _ rest hgs, some.injEq, ipv6Check_eq_some] at hend
          exact ⟨_, _, .doubleColon hscan hgs, by simpa [takenText] using hend.2⟩
      · have hd : asciiIsxdigit d := hscan.digits (p ++ [d]) (by simp) d (by simp)
        rw [hstr, ipv6End_groupColon _ gs p rest hd, some.injEq, ipv6Check_eq_some] at hend
        obtain ⟨⟨hmin, _, _, _, _, hfull⟩, rfl⟩ := hend
        have hlen := hscan.length_le
        simp only [colonStop, colonState, length_append, length_cons, length_nil]
          at hmin hfull hlen
        refine ⟨_, _, .colonBack hscan (by simp) (by omega) ?_, by simp [takenText]⟩
        rcases hfull with hshort | hseven | hdots
        · simp only [Bool.or_eq_true, Bool.and_eq_true, decide_eq_true_eq] at hshort
          exact hshort.symm.imp_right And.left
        · omega
        · cases hdots
  · have hd : asciiIsxdigit d := hscan.digits (g ++ [d]) (by simp) d (by simp)
    rw [hstr, ipv6End_group _ gs g rest hd, some.injEq, ipv6Check_eq_some] at hend
    obtain ⟨⟨hmin, _, _, hsmall, _, hfull⟩, rfl⟩ := hend
    refine ⟨_, _, .groups hscan (by simp) ?_ (hsmall rfl) ?_, by simp [takenText]⟩
    · simp only [colonStop, colonState] at hmin
      omega
    · simp only [colonStop, colonState] at hfull
      rcases hfull with hshort | hseven | hdots
      · simp only [Bool.or_eq_true, Bool.and_eq_true, decide_eq_true_eq] at hshort
        exact hshort.symm.imp_right fun h => (hscan.ends.colon h.1).1
      · exact .inr (by omega)
      · cases hdots

theorem Ipv6Takes.of_dotScan (hscan : DotScan str gs g hs h) (hend : ipv6End str (dotState gs hs h)
      (joinText 58 (gs ++ [g]) ++ 46 :: joinText 46 (hs ++ [h])).length = some (some r)) :
    ∃ gs ns, Ipv6Takes str gs ns ∧ r = .whole (takenText gs ns).length := by
  obtain ⟨rest, hstr, _⟩ := hscan.text
  have hdots := hscan.dots_le
  obtain rfl | ⟨h, d, rfl⟩ := eq_nil_or_concat' h
  · by_cases hhs : hs = []
    · subst hhs
      have hback := ipv6End_dot (dotState gs [] []) (joinText 58 (gs ++ [g])) rest
      have hstr' : str = joinText 58 (gs ++ [g]) ++ 46 :: rest := by simpa using hstr
      have hlen : (joinText 58 (gs ++ [g]) ++ 46 :: joinText 46 ([] ++ [[]])).length =
          (joinText 58 (gs ++ [g])).length + 1 := by simp
      rw [hlen, hstr', hback, some.injEq, ipv6Check_eq_some] at hend
      obtain ⟨⟨hmin, _, _, _, _, hfull⟩, rfl⟩ := hend
      have hle := hscan.length_le
      simp only [dotState] at hmin hfull
      refine ⟨_, _, .dotBack hscan (by omega) ?_, by simp [takenText]⟩
      rcases hfull with hshort | hseven | hthree
      · simpa using hshort
      · omega
      · simp at hthree
    · rw [hstr, ipv6End_numberDot _ _ rest hhs, some.injEq, ipv6Check_eq_some] at hend
      have hpos := length_pos_iff.mpr hhs
      have hbad := hend.1.2.2.2.2.1
      simp only [dotState] at hbad
      omega
  · have hd : asciiIsxdigit d := hscan.numbers (h ++ [d]) (by simp) d (by simp)
    rw [hstr, ipv6End_number _ _ hs h rest hd, some.injEq, ipv6Check_eq_some] at hend
    obtain ⟨⟨hmin, _, hsmall, _, hthree, _⟩, rfl⟩ := hend
    simp only [dotState] at hmin hthree
    obtain ⟨h₁, h₂, rfl⟩ : ∃ h₁ h₂, hs = [h₁, h₂] := length_eq_two.mp (by omega)
    refine ⟨_, _, .quad hscan (by simp) (hsmall rfl) (by omega), ?_⟩
    rw [takenText_quad gs g (by simp)]
    rfl

theorem Ipv6Takes.accepted {ns : List (List UInt8)} (h : Ipv6Takes str gs ns) :
    rParserIpv6 str = some (some (.whole (takenText gs ns).length)) := by
  rw [rParserIpv6_eq_some]
  cases h with
  | @groups gs g c hscan hg hmin hsmall hfull =>
    obtain ⟨rest, hstr, _⟩ := hscan.text
    obtain rfl | ⟨g, d, rfl⟩ := eq_nil_or_concat' g
    · exact absurd rfl hg
    refine .inl ⟨gs, g ++ [d], c, hscan, ?_⟩
    have hd : asciiIsxdigit d := hscan.digits (g ++ [d]) (by simp) d (by simp)
    rw [hstr, ipv6End_group _ gs g rest hd, some.injEq, ipv6Check_eq_some]
    have hlen := hscan.length_le
    refine ⟨⟨?_, ?_, fun h0 => (by cases h0), fun _ => hsmall, .inl rfl, ?_⟩, by simp [takenText]⟩
    · simp only [colonStop, colonState]
      omega
    · simp only [colonStop, colonState]
      omega
    · simp only [colonStop, colonState, Bool.or_eq_true, decide_eq_true_eq]
      exact hfull.imp .inr fun h7 => .inl (by omega)
  | @doubleColon gs c hscan hgs =>
    obtain ⟨rest, hstr, _⟩ := hscan.text
    refine .inl ⟨gs ++ [[]], [], c, hscan, ?_⟩
    rw [hstr, ipv6End_doubleColon _ rest hgs, some.injEq, ipv6Check_eq_some]
    have hlen := hscan.length_le
    have hpos := length_pos_iff.mpr hgs
    have hblank : groupOctet gs.length [] = -1 := by simp [groupOctet, hgs]
    have hblank' : groupOctet (gs ++ [[]]).length [] = -1 := by simp [groupOctet]
    simp only [length_append, length_cons, length_nil] at hlen
    refine ⟨⟨?_, ?_, fun h0 => (by cases h0), fun _ => ?_, .inl rfl, .inl ?_⟩, by simp [takenText]⟩
    · simp only [colonStop, colonState, length_append, length_cons, length_nil]
      omega
    · simp only [colonStop, colonState, length_append, length_cons, length_nil]
      omega
    · simp only [colonStop, colonState, hblank']
      omega
    · simp [colonStop, hblank]
  | @colonBack gs g c hscan hg hmin hshort =>
    obtain ⟨rest, hstr, _⟩ := hscan.text
    obtain rfl | ⟨g, d, rfl⟩ := eq_nil_or_concat' g
    · exact absurd rfl hg
    refine .inl ⟨gs ++ [g ++ [d]], [], c, hscan, ?_⟩
    have hd : asciiIsxdigit d := hscan.digits (g ++ [d]) (by simp) d (by simp)
    rw [hstr, ipv6End_groupColon _ gs g rest hd, some.injEq, ipv6Check_eq_some]
    have hlen := hscan.length_le
    have hblank : groupOctet (gs ++ [g ++ [d]]).length [] = -1 := by simp [groupOctet]
    simp only [length_append, length_cons, length_nil] at hlen
    refine ⟨⟨?_, ?_, fun h0 => (by cases h0), fun _ => ?_, .inl rfl, .inl ?_⟩, by simp [takenText]⟩
    · simp only [colonStop, colonState, length_append, length_cons, length_nil]
      omega
    · simp only [colonStop, colonState, length_append, length_cons, length_nil]
      omega
    · simp only [colonStop, colonState, hblank]
      omega
    · simp only [colonStop, hblank, Bool.or_eq_true, Bool.and_eq_true, decide_eq_true_eq]
      exact hshort.symm.imp_left fun hc => ⟨hc, trivial⟩
  | @dotBack gs g hscan hmin hshort =>
    obtain ⟨rest, hstr, _⟩ := hscan.text
    refine .inr ⟨gs, g, [], [], hscan, ?_⟩
    have hback := ipv6End_dot (dotState gs [] []) (joinText 58 (gs ++ [g])) rest
    have hstr' : str = joinText 58 (gs ++ [g]) ++ 46 :: rest := by simpa using hstr
    have hlen : (joinText 58 (gs ++ [g]) ++ 46 :: joinText 46 ([] ++ [[]])).length =
        (joinText 58 (gs ++ [g])).length + 1 := by simp
    have hle := hscan.length_le
    rw [hlen, hstr', hback, some.injEq, ipv6Check_eq_some]
    refine ⟨⟨?_, ?_, fun _ => ?_, fun h0 => (by cases h0), .inl rfl, .inl ?_⟩, by simp [takenText]⟩
    · simp only [dotState]
      omega
    · simp only [dotState]
      omega
    · simp [dotState]
    · simpa [dotState] using hshort
  | @quad gs g h₁ h₂ h₃ hscan hh hsmall hmin =>
    obtain ⟨rest, hstr, _⟩ := hscan.text
    obtain rfl | ⟨h₃, d, rfl⟩ := eq_nil_or_concat' h₃
    · exact absurd rfl hh
    refine .inr ⟨gs, g, [h₁, h₂], h₃ ++ [d], hscan, ?_⟩
    have hd : asciiIsxdigit d := hscan.numbers (h₃ ++ [d]) (by simp) d (by simp)
    have hle := hscan.length_le
    rw [hstr, ipv6End_number _ _ [h₁, h₂] h₃ rest hd, some.injEq, ipv6Check_eq_some]
    refine ⟨⟨?_, ?_, fun _ => hsmall, fun h0 => (by cases h0), .inr rfl, .inr (.inr rfl)⟩, ?_⟩
    · simp only [dotState]
      omega
    · simp only [dotState]
      omega
    · rw [takenText_quad gs g (by simp)]
      rfl

theorem rParserIpv6_iff :
    rParserIpv6 str = some (some r) ↔ ∃ gs ns, Ipv6Takes str gs ns ∧ r = .whole (takenText gs ns).length := by
  constructor
  · intro h
    rcases rParserIpv6_eq_some.mp h with ⟨gs, g, c, hscan, hend⟩ | ⟨gs, g, hs, h, hscan, hend⟩
    · exact Ipv6Takes.of_colonScan hscan hend
    · exact Ipv6Takes.of_dotScan hscan hend
  · rintro ⟨gs, ns, h, rfl⟩
    exact h.accepted

theorem Ipv6Takes.text {str : List UInt8} {ns : List (List UInt8)} (h : Ipv6Takes str gs ns) :
    ∃ rest, str = takenText gs ns ++ rest := by
  cases h with
  | groups hscan =>
    obtain ⟨rest, hstr, _⟩ := hscan.text
    exact ⟨rest, by simpa [takenText] using hstr⟩
  | doubleColon hscan =>
    obtain ⟨rest, hstr, _⟩ := hscan.text
    exact ⟨rest, by simpa [takenText] using hstr⟩
  | colonBack hscan =>
    obtain ⟨rest, hstr, _⟩ := hscan.text
    exact ⟨58 :: rest, by rw [hstr, joinText_open 58 (by simp)]; simp [takenText]⟩
  | dotBack hscan =>
    obtain ⟨rest, hstr, _⟩ := hscan.text
    exact ⟨46 :: rest, by simpa [takenText] using hstr⟩
  | quad hscan =>
    obtain ⟨rest, hstr, _⟩ := hscan.text
    exact ⟨rest, by rw [hstr, takenText_quad _ _ (by simp)]; rfl⟩

end SyslogNg.DbParser
