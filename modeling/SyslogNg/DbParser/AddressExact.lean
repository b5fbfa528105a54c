import SyslogNg.DbParser.Ipv6Takes

/-!
# When the address parsers take addresses only (`modules/dbparser/radix.c`)

The text that a parser takes is compared with the text of an address, piece by piece.
-/

namespace SyslogNg.DbParser

open Lib List

variable {gs ns ps : List (List UInt8)}

/-! ## Pieces -/

theorem IsDottedQuad.dot_mem {q : List UInt8} (h : IsDottedQuad q) : 46 ∈ q := by
  obtain ⟨ns, hfour, -, rfl⟩ := h
  match ns, hfour with
  | n :: m :: ns, _ => simp [joinText_cons]

theorem IsNumber.digits' {n : List UInt8} (h : IsNumber n) : ∀ c ∈ n, asciiIsxdigit c :=
  fun c hc => isxdigit_of_isdigit (h.digits c hc)

variable {p : List UInt8} {pre : List (List UInt8)}

theorem not_mem_of_xdigits (h : ∀ c ∈ p, asciiIsxdigit c) {sep : UInt8} (hsep : asciiIsxdigit sep = false) :
    sep ∉ p := fun hmem => by
  rw [h sep hmem] at hsep
  cases hsep

theorem mem_joinText {sep c : UInt8} (h : c ∈ joinText sep ps) : c = sep ∨ ∃ p ∈ ps, c ∈ p := by
  induction ps with
  | nil => cases h
  | cons p ps ih =>
    by_cases hps : ps = []
    · subst hps
      exact .inr ⟨p, mem_cons_self, by simpa using h⟩
    · rw [joinText_cons p hps] at h
      rcases mem_append.mp h with h | h
      · exact .inr ⟨p, mem_cons_self, h⟩
      · rcases mem_cons.mp h with rfl | h
        · exact .inl rfl
        · exact (ih h).imp_right fun ⟨q, hq, hc⟩ => ⟨q, mem_cons_of_mem p hq, hc⟩

theorem colon_not_mem_quad (h : ∀ n ∈ ns, ∀ c ∈ n, asciiIsxdigit c) : 58 ∉ joinText 46 ns := by
  intro hmem
  rcases mem_joinText hmem with h0 | ⟨n, hn, hc⟩
  · cases h0
  · exact absurd hc (not_mem_of_xdigits (h n hn) rfl)

theorem Pieces.mem {w : Nat} (h : Pieces ps w) (hp : p ∈ ps) : IsGroup p ∨ IsDottedQuad p := by
  induction h with
  | nil => cases hp
  | quad hq => exact .inr (mem_singleton.mp hp ▸ hq)
  | group hg _ ih =>
    rcases mem_cons.mp hp with rfl | hp
    · exact .inl hg
    · exact ih hp

theorem Pieces.colon_not_mem {w : Nat} (h : Pieces ps w) (hp : p ∈ ps) : 58 ∉ p ∧ p ≠ [] := by
  rcases h.mem hp with hg | ⟨ns, hfour, hns, rfl⟩
  · exact ⟨not_mem_of_xdigits hg.digits rfl, hg.ne_nil⟩
  · refine ⟨colon_not_mem_quad fun n hn => (hns n hn).digits', fun h0 => ?_⟩
    have := IsDottedQuad.dot_mem ⟨ns, hfour, hns, rfl⟩
    rw [h0] at this
    cases this

theorem IsGroup.not_quad (h : ∀ c ∈ p, asciiIsxdigit c) : ¬IsDottedQuad p :=
  fun hq => not_mem_of_xdigits h rfl hq.dot_mem

theorem Pieces.of_groups (h : ∀ g ∈ gs, IsGroup g) : Pieces gs gs.length := by
  induction gs with
  | nil => exact .nil
  | cons g gs ih =>
    exact .group (h g mem_cons_self) (ih fun p hp => h p (mem_cons_of_mem g hp))

theorem Pieces.of_groups_quad {q : List UInt8} (h : ∀ g ∈ gs, IsGroup g) (hq : IsDottedQuad q) :
    Pieces (gs ++ [q]) (gs.length + 2) := by
  induction gs with
  | nil => exact .quad hq
  | cons g gs ih =>
    have := ih fun p hp => h p (mem_cons_of_mem g hp)
    have hw : (g :: gs).length + 2 = gs.length + 2 + 1 := by simp only [length_cons]
    rw [hw]
    exact .group (h g mem_cons_self) this

theorem Pieces.weight_groups {w : Nat} (h : Pieces gs w) (hgs : ∀ g ∈ gs, ∀ c ∈ g, asciiIsxdigit c) :
    w = gs.length := by
  induction h with
  | nil => rfl
  | quad hq => exact absurd hq (IsGroup.not_quad (hgs _ (by simp)))
  | group _ _ ih =>
    rw [ih fun g hg => hgs g (mem_cons_of_mem _ hg), length_cons]

theorem Pieces.weight_quad {w : Nat} {q : List UInt8} (h : Pieces (gs ++ [q]) w)
    (hgs : ∀ g ∈ gs, ∀ c ∈ g, asciiIsxdigit c) (hq : 46 ∈ q) : w = gs.length + 2 := by
  induction gs generalizing w with
  | nil =>
    cases h with
    | quad => rfl
    | group hg _ => exact absurd hq (not_mem_of_xdigits hg.digits rfl)
  | cons g gs ih =>
    cases hgs' : gs ++ [q] with
    | nil => simp at hgs'
    | cons p rest =>
      rw [cons_append, hgs'] at h
      cases h with
      | group _ hs =>
        rw [← hgs'] at hs
        rw [ih hs fun p hp => hgs p (mem_cons_of_mem g hp), length_cons]

/-! ## The double colon -/

/-- The pieces at one side of a double colon: an empty one where nothing is there. -/
def padded (ps : List (List UInt8)) : List (List UInt8) := if ps = [] then [[]] else ps

theorem padded_ne_nil (ps : List (List UInt8)) : padded ps ≠ [] := by
  unfold padded
  split <;> simp [*]

theorem joinText_padded (sep : UInt8) (ps : List (List UInt8)) :
    joinText sep (padded ps) = joinText sep ps := by
  unfold padded
  split <;> simp [*]

theorem joinText_doubleColon (left right : List (List UInt8)) :
    joinText 58 left ++ [58, 58] ++ joinText 58 right = joinText 58 (padded left ++ [] :: padded right) := by
  rw [joinText_append (padded_ne_nil left) (by simp), joinText_cons [] (padded_ne_nil right),
    joinText_padded, joinText_padded]
  simp

theorem mem_padded (h : p ∈ padded ps) : p = [] ∨ p ∈ ps := by
  unfold padded at h
  split at h
  · exact .inl (mem_singleton.mp h)
  · exact .inr h

theorem Pieces.padded_colon_not_mem {w : Nat} (h : Pieces ps w) (hp : p ∈ padded ps) : 58 ∉ p := by
  rcases mem_padded hp with rfl | hp
  · simp
  · exact (h.colon_not_mem hp).1

theorem isIpv6Address_iff (hps : ps ≠ []) (hcolon : ∀ p ∈ ps, 58 ∉ p) :
    IsIpv6Address (joinText 58 ps) ↔
      Pieces ps 8 ∨ ∃ left right w, (∀ g ∈ left, IsGroup g) ∧ Pieces right w ∧
        left.length + w ≤ 7 ∧ ps = padded left ++ [] :: padded right := by
  refine or_congr ⟨?_, fun h => ⟨ps, h, rfl⟩⟩ ?_
  · rintro ⟨qs, hqs, htext⟩
    have hne : qs ≠ [] := by
      rintro rfl
      cases hqs
    rw [joinText_inj hps hne hcolon (fun q hq => (hqs.colon_not_mem hq).1) htext]
    exact hqs
  · refine exists_congr fun left => exists_congr fun right => exists_congr fun w =>
      and_congr_right fun hleft => and_congr_right fun hright => and_congr_right fun _ => ?_
    rw [joinText_doubleColon]
    refine ⟨fun h => ?_, fun h => by rw [h]⟩
    refine joinText_inj hps (by simp) hcolon (fun q hq => ?_) h
    rcases mem_append.mp hq with hq | hq
    · exact (Pieces.of_groups hleft).padded_colon_not_mem hq
    · rcases mem_cons.mp hq with rfl | hq
      · simp
      · exact hright.padded_colon_not_mem hq

/-! ## What is taken, and whether it is an address -/

def takenPieces (gs ns : List (List UInt8)) : List (List UInt8) :=
  if ns = [] then gs else gs ++ [joinText 46 ns]

/-- What the parser has made sure of in all that it takes. -/
structure Taken (gs ns : List (List UInt8)) : Prop where
  digits : ∀ g ∈ gs, ∀ c ∈ g, asciiIsxdigit c
  numbers : ∀ n ∈ ns, ∀ c ∈ n, asciiIsxdigit c
  four : ns = [] ∨ ns.length = 4
  length_ge : (if ns = [] then 3 else 2) ≤ gs.length
  length_le : gs.length ≤ if ns = [] then 8 else 6
  /-- Behind a group that is left out comes no other, but for the end of the text. -/
  blank : ∀ pre post, pre ≠ [] → gs = pre ++ [] :: post →
    (∀ p ∈ post, p ≠ []) ∨ ns = [] ∧ post = [[]]
  last : ns = [] → ∀ pre, gs = pre ++ [[]] → ∃ front, pre = front ++ [[]]

/-- The text is not one of those that the parser takes although they are no address: a single
colon in front, a group of more than four digits, less groups than eight without a double colon,
numbers that are not decimal or above 255. -/
structure Ipv6Proper (gs ns : List (List UInt8)) : Prop where
  colon : gs.head? = some [] → gs[1]? = some []
  short : ∀ g ∈ gs, g.length ≤ 4
  full : [] ∈ gs ∨ gs.length = if ns = [] then 8 else 6
  numbers : ∀ n ∈ ns, IsNumber n

theorem GroupsPass.of_append {post : List (List UInt8)} (h : GroupsPass (pre ++ post)) :
    GroupsPass pre := by
  induction post using List.reverseRecOn with
  | nil => simpa using h
  | append_singleton post p ih =>
    rw [← append_assoc] at h
    exact ih (GroupsPass.snoc_iff.mp h).1

theorem blank_mem (hpre : pre ≠ []) (post : List (List UInt8)) : -1 ∈ groupOctets (pre ++ [] :: post) := by
  induction post using List.reverseRecOn with
  | nil => simp [groupOctet, hpre]
  | append_singleton post p ih =>
    have happend : pre ++ [] :: (post ++ [p]) = pre ++ [] :: post ++ [p] := by simp
    rw [happend, groupOctets_snoc]
    exact mem_append_left _ ih

theorem GroupsPass.blank {post : List (List UInt8)} (h : GroupsPass (pre ++ [] :: post)) (hpre : pre ≠ []) :
    ∀ p ∈ post, p ≠ [] := by
  rintro p hp rfl
  obtain ⟨front, back, rfl⟩ := append_of_mem hp
  have hlong : GroupsPass (pre ++ [] :: front ++ [[]] ++ back) := by simpa using h
  obtain ⟨-, -, honce⟩ := GroupsPass.snoc_iff.mp hlong.of_append
  exact honce ⟨by simp [groupOctet], blank_mem hpre front⟩

theorem Taken.of_group {g : List UInt8} (hdigits : ∀ p ∈ gs ++ [g], ∀ c ∈ p, asciiIsxdigit c)
    (hpass : GroupsPass gs) (hg : g ≠ []) (hmin : 2 ≤ gs.length) (hmax : gs.length ≤ 7) :
    Taken (gs ++ [g]) [] where
  digits := hdigits
  numbers := by simp
  four := .inl rfl
  length_ge := by simpa using hmin
  length_le := by
    rw [if_pos rfl, length_append, length_singleton]
    omega
  blank := by
    intro pre post hpre h
    obtain rfl | ⟨post, p, rfl⟩ := eq_nil_or_concat' post
    · exact .inl (by simp)
    · have h' : gs ++ [g] = (pre ++ [] :: post) ++ [p] := by simpa using h
      obtain ⟨rfl, hp⟩ := append_inj' h' rfl
      obtain rfl := singleton_inj.mp hp
      refine .inl fun q hq => ?_
      rcases mem_append.mp hq with hq | hq
      · exact hpass.blank hpre q hq
      · exact mem_singleton.mp hq ▸ hg
  last := by
    intro _ pre h
    exact absurd (singleton_inj.mp (append_inj' h rfl).2) hg

theorem Ipv6Takes.taken {str : List UInt8} (h : Ipv6Takes str gs ns) : Taken gs ns := by
  cases h with
  | groups hscan hg hmin => exact .of_group hscan.digits hscan.pass hg hmin hscan.length_le
  | colonBack hscan hg hmin =>
    have hlen := hscan.length_le
    simp only [length_append, length_cons, length_nil] at hlen
    exact .of_group (fun p hp => hscan.digits p (mem_append_left _ hp))
      (GroupsPass.snoc_iff.mp hscan.pass).1 hg hmin (by omega)
  | @dotBack gs g hscan hmin =>
    have hg : g ≠ [] := fun h0 => hscan.first.2 (by
      rw [h0]
      simp only [groupOctet, octetFrom_nil]
      rw [if_neg (by omega)])
    have hlen := hscan.length_le
    exact .of_group hscan.digits hscan.pass hg hmin (by omega)
  | @doubleColon gs c hscan hgs =>
    have hlen := hscan.length_le
    have hpos := length_pos_iff.mpr hgs
    simp only [length_append, length_cons, length_nil] at hlen
    refine ⟨by simpa using hscan.digits, by simp, .inl rfl, ?_, ?_, ?_, ?_⟩
    · simp only [if_true, length_append, length_cons, length_nil]
      omega
    · simp only [if_true, length_append, length_cons, length_nil]
      omega
    · intro pre post hpre h
      obtain rfl | ⟨post, p, rfl⟩ := eq_nil_or_concat' post
      · exact .inl (by simp)
      · have h' : (gs ++ [[]]) ++ [[]] = (pre ++ [] :: post) ++ [p] := by simpa using h
        obtain ⟨hinit, hp⟩ := append_inj' h' rfl
        have hblank := GroupsPass.blank (hinit ▸ hscan.pass) hpre
        obtain rfl | ⟨post, q, rfl⟩ := eq_nil_or_concat' post
        · exact .inr ⟨rfl, by rw [nil_append, ← hp]⟩
        · have h'' : gs ++ [[]] = (pre ++ [] :: post) ++ [q] := by simpa using hinit
          obtain ⟨-, hq⟩ := append_inj' h'' rfl
          exact absurd (singleton_inj.mp hq).symm (hblank q (by simp))
    · intro _ pre h
      have h' : (gs ++ [[]]) ++ [[]] = pre ++ [[]] := by simpa using h
      exact ⟨gs, (append_inj' h' rfl).1.symm⟩
  | @quad gs g h₁ h₂ h₃ hscan hh hsmall hmin =>
    refine ⟨fun p hp => hscan.digits p (mem_append_left _ hp), ?_, .inr rfl, by simpa using hmin,
      by simpa using hscan.length_le, fun pre post hpre h => .inl ?_, fun h0 => (by cases h0)⟩
    · intro n hn
      rcases mem_cons.mp hn with rfl | hn
      · exact hscan.digits n (by simp)
      · exact hscan.numbers n (by simpa using hn)
    · exact GroupsPass.blank (h ▸ hscan.pass) hpre

theorem IsGroup.of_taken (htaken : Taken gs ns) (hproper : Ipv6Proper gs ns) {g : List UInt8}
    (hg : g ∈ gs) (hne : g ≠ []) : IsGroup g :=
  ⟨hne, htaken.digits g hg, hproper.short g hg⟩

theorem IsDottedQuad.of_taken (htaken : Taken gs ns) (hproper : Ipv6Proper gs ns) (hns : ns ≠ []) :
    IsDottedQuad (joinText 46 ns) :=
  ⟨ns, htaken.four.resolve_left hns, hproper.numbers, rfl⟩

theorem Taken.split (htaken : Taken gs ns) (hproper : Ipv6Proper gs ns) (hblank : [] ∈ gs) :
    ∃ left post, (∀ g ∈ left, IsGroup g) ∧ gs = padded left ++ [] :: post ∧
      ((∀ p ∈ post, IsGroup p) ∧ (ns = [] → post ≠ []) ∨ ns = [] ∧ post = [[]]) := by
  obtain ⟨front, back, hgs, hfront⟩ := eq_append_cons_of_mem hblank
  have hsplit : ∃ left post, (∀ g ∈ left, g ≠ []) ∧ gs = padded left ++ [] :: post := by
    by_cases hnil : front = []
    · subst hnil
      have hcolon := hproper.colon (by rw [hgs]; rfl)
      rw [hgs] at hcolon
      cases back with
      | nil => cases hcolon
      | cons p back =>
        obtain rfl : p = [] := by simpa using hcolon
        exact ⟨[], back, by simp, by simpa [padded] using hgs⟩
    · exact ⟨front, back, fun g hg h0 => hfront (h0 ▸ hg), by rw [padded, if_neg hnil, hgs]⟩
  obtain ⟨left, post, hleft, hgs⟩ := hsplit
  have hgroup : ∀ g ∈ left, IsGroup g := fun g hg => by
    refine .of_taken htaken hproper ?_ (hleft g hg)
    have hne : left ≠ [] := ne_nil_of_mem hg
    rw [hgs, padded, if_neg hne]
    exact mem_append_left _ hg
  refine ⟨left, post, hgroup, hgs, ?_⟩
  refine (htaken.blank (padded left) post (padded_ne_nil left) hgs).imp_left fun hpost => ⟨?_, ?_⟩
  · intro p hp
    refine .of_taken htaken hproper ?_ (hpost p hp)
    rw [hgs]
    exact mem_append_right _ (mem_cons_of_mem _ hp)
  · rintro hns rfl
    obtain ⟨front, hpadded⟩ := htaken.last hns (padded left) hgs
    have hlen := htaken.length_ge
    rw [if_pos hns, hgs, hpadded] at hlen
    have hmem : [] ∈ padded left := by simp [hpadded]
    unfold padded at hpadded hmem
    split at hmem
    case isTrue hnil =>
      rw [if_pos hnil] at hpadded
      have := congrArg List.length hpadded
      simp only [length_append, length_cons, length_nil] at this hlen
      omega
    case isFalse => exact hleft [] hmem rfl

theorem takenPieces_ne_nil (htaken : Taken gs ns) : takenPieces gs ns ≠ [] := by
  have := htaken.length_ge
  rw [takenPieces]
  split
  case isTrue hns =>
    rw [if_pos hns] at this
    exact ne_nil_of_length_pos (by omega)
  case isFalse => simp

theorem colon_not_mem_takenPieces (htaken : Taken gs ns) : ∀ p ∈ takenPieces gs ns, 58 ∉ p := by
  intro p hp
  rw [takenPieces] at hp
  split at hp
  case isTrue => exact not_mem_of_xdigits (htaken.digits p hp) rfl
  case isFalse =>
    rcases mem_append.mp hp with hp | hp
    · exact not_mem_of_xdigits (htaken.digits p hp) rfl
    · rw [mem_singleton.mp hp]
      exact colon_not_mem_quad htaken.numbers

theorem Taken.address_of_proper (htaken : Taken gs ns) (hproper : Ipv6Proper gs ns) :
    IsIpv6Address (takenText gs ns) := by
  refine (isIpv6Address_iff (takenPieces_ne_nil htaken) (colon_not_mem_takenPieces htaken)).mpr ?_
  by_cases hblank : [] ∈ gs
  · obtain ⟨left, post, hleft, hgs, hpost⟩ := htaken.split hproper hblank
    refine .inr ?_
    have hle := htaken.length_le
    have hlen : left.length ≤ (padded left).length ∧ 1 ≤ (padded left).length := by
      unfold padded
      split
      case isTrue h => simp [h]
      case isFalse h => exact ⟨le_rfl, length_pos_iff.mpr h⟩
    have hgslen : gs.length = (padded left).length + post.length + 1 := by
      rw [hgs]
      simp only [length_append, length_cons]
      omega
    have hpad : left = [] → left.length + 1 = (padded left).length := by
      rintro rfl
      rfl
    rcases hpost with ⟨hpost, hne⟩ | ⟨hns, rfl⟩
    · by_cases hns : ns = []
      · refine ⟨left, post, post.length, hleft, .of_groups hpost, ?_, ?_⟩
        · rw [if_pos hns] at hle
          omega
        · rw [takenPieces, if_pos hns, hgs]
          congr 2
          rw [padded, if_neg (hne hns)]
      · refine ⟨left, post ++ [joinText 46 ns], post.length + 2, hleft,
          .of_groups_quad hpost (.of_taken htaken hproper hns), ?_, ?_⟩
        · rw [if_neg hns] at hle
          omega
        · rw [takenPieces, if_neg hns, hgs]
          simp [padded]
    · refine ⟨left, [], 0, hleft, .nil, ?_, ?_⟩
      · rw [if_pos hns] at hle
        simp only [length_cons, length_nil] at hgslen
        omega
      · rw [takenPieces, if_pos hns, hgs]
        rfl
  · refine .inl ?_
    have hgroups : ∀ g ∈ gs, IsGroup g := fun g hg =>
      .of_taken htaken hproper hg fun h0 => hblank (h0 ▸ hg)
    have hfull := hproper.full.resolve_left hblank
    rw [takenPieces]
    split
    case isTrue hns =>
      rw [if_pos hns] at hfull
      exact hfull ▸ Pieces.of_groups hgroups
    case isFalse hns =>
      rw [if_neg hns] at hfull
      have := Pieces.of_groups_quad hgroups (.of_taken htaken hproper hns)
      rwa [hfull] at this

theorem numbers_of_quad (htaken : Taken gs ns) (hns : ns ≠ []) (hquad : IsDottedQuad (joinText 46 ns)) :
    ∀ n ∈ ns, IsNumber n := by
  obtain ⟨ms, hfour, hms, htext⟩ := hquad
  have hne : ms ≠ [] := ne_nil_of_length_pos (by omega)
  have hsame := joinText_inj hns hne
    (fun n hn => not_mem_of_xdigits (htaken.numbers n hn) rfl)
    (fun m hm => not_mem_of_xdigits (hms m hm).digits' rfl) htext
  exact hsame ▸ hms

theorem Taken.proper_of_address (htaken : Taken gs ns) (h : IsIpv6Address (takenText gs ns)) :
    Ipv6Proper gs ns := by
  have hpieces := (isIpv6Address_iff (takenPieces_ne_nil htaken) (colon_not_mem_takenPieces htaken)).mp h
  -- every piece is empty, a group or a dotted quad
  have hpiece : ∀ p ∈ takenPieces gs ns, p = [] ∨ IsGroup p ∨ IsDottedQuad p := by
    rcases hpieces with hpieces | ⟨left, right, w, hleft, hright, hle, heq⟩
    · exact fun p hp => .inr (hpieces.mem hp)
    · intro p hp
      rw [heq] at hp
      rcases mem_append.mp hp with hp | hp
      · exact (mem_padded hp).imp_right fun hp => .inl (hleft p hp)
      · rcases mem_cons.mp hp with rfl | hp
        · exact .inl rfl
        · exact (mem_padded hp).imp_right hright.mem
  have hsub : ∀ g ∈ gs, g ∈ takenPieces gs ns := fun g hg => by
    rw [takenPieces]
    split
    · exact hg
    · exact mem_append_left _ hg
  have hquad : ns ≠ [] → 46 ∈ joinText 46 ns ∧ joinText 46 ns ∈ takenPieces gs ns := fun hns => by
    refine ⟨?_, by rw [takenPieces, if_neg hns]; simp⟩
    have hfour := htaken.four.resolve_left hns
    match ns, hfour with
    | n :: m :: rest, _ => simp [joinText_cons]
  refine ⟨?_, fun g hg => ?_, ?_, fun n hn => ?_⟩
  · intro hhead
    obtain ⟨gs, rfl⟩ : ∃ rest, gs = [] :: rest := head?_eq_some_iff.mp hhead
    have hge := htaken.length_ge
    rcases hpieces with hpieces | ⟨left, right, w, hleft, _, _, heq⟩
    · exact absurd rfl (hpieces.colon_not_mem (hsub [] mem_cons_self)).2
    · have hleftnil : left = [] := by
        by_contra hne
        obtain ⟨g, left, rfl⟩ := exists_cons_of_ne_nil hne
        rw [takenPieces, padded, if_neg hne] at heq
        have hg : [] = g := by
          split at heq
          · exact (List.cons.inj heq).1
          · exact (List.cons.inj heq).1
        exact (hleft g mem_cons_self).ne_nil hg.symm
      subst hleftnil
      cases gs with
      | nil =>
        simp only [length_cons, length_nil] at hge
        split at hge <;> omega
      | cons g gs =>
        rw [takenPieces, padded, if_pos rfl] at heq
        split at heq
        · simp only [cons_append, nil_append, List.cons.injEq] at heq
          simp [heq.2.1]
        · simp only [cons_append, nil_append, List.cons.injEq] at heq
          simp [heq.2.1]
  · rcases hpiece g (hsub g hg) with rfl | hgroup | hq
    · simp
    · exact hgroup.length_le
    · exact absurd hq (IsGroup.not_quad (htaken.digits g hg))
  · rcases hpieces with hpieces | ⟨left, right, w, hleft, _, _, heq⟩
    · refine .inr ?_
      rw [takenPieces] at hpieces
      split at hpieces
      case isTrue hns =>
        rw [if_pos hns]
        exact (hpieces.weight_groups htaken.digits).symm
      case isFalse hns =>
        rw [if_neg hns]
        have := hpieces.weight_quad htaken.digits (hquad hns).1
        omega
    · refine .inl ?_
      have hmem : [] ∈ takenPieces gs ns := by
        rw [heq]
        exact mem_append_right _ mem_cons_self
      rw [takenPieces] at hmem
      split at hmem
      case isTrue => exact hmem
      case isFalse hns =>
        refine (mem_append.mp hmem).resolve_right fun h0 => ?_
        have hdot := (hquad hns).1
        rw [← mem_singleton.mp h0] at hdot
        cases hdot
  · have hns := ne_nil_of_mem hn
    obtain ⟨hdot, hmem⟩ := hquad hns
    rcases hpiece _ hmem with h0 | hgroup | hq
    · rw [h0] at hdot
      cases hdot
    · exact absurd hdot (not_mem_of_xdigits hgroup.digits rfl)
    · exact numbers_of_quad htaken hns hq n hn

theorem Ipv6Takes.address_iff {str : List UInt8} (h : Ipv6Takes str gs ns) :
    IsIpv6Address (takenText gs ns) ↔ Ipv6Proper gs ns :=
  ⟨h.taken.proper_of_address, h.taken.address_of_proper⟩

theorem Ipv4Takes.address_iff {str : List UInt8} (h : Ipv4Takes str ns) :
    IsDottedQuad (joinText 46 ns) ↔ ∀ n ∈ ns, readDecimal 0 n ≤ 255 := by
  have hxdigits : ∀ n ∈ ns, 46 ∉ n := fun n hn =>
    not_mem_of_xdigits (fun c hc => isxdigit_of_isdigit (h.digits n hn c hc)) rfl
  have hfour := h.four
  constructor
  · rintro ⟨ms, hms, hnumbers, htext⟩
    have hsame := joinText_inj (ne_nil_of_length_pos (by omega))
      (ne_nil_of_length_pos (by omega)) hxdigits
      (fun m hm => not_mem_of_xdigits (hnumbers m hm).digits' rfl) htext
    exact fun n hn => (hnumbers n (hsame ▸ hn)).le
  · refine fun hle => ⟨ns, hfour, fun n hn => ⟨?_, h.digits n hn, hle n hn⟩, rfl⟩
    rintro rfl
    exact (h.small [] hn).2 rfl

/-- The parsers take addresses only, exactly from the strings that do not begin with one of the
texts that they take wrongly. -/
theorem address_parsers_exact (str : List UInt8) :
    ((∀ r, rParserIpv4 str = some (some r) → IsDottedQuad (str.take r.len)) ∧
        ∀ r, rParserIpv6 str = some (some r) → IsIpv6Address (str.take r.len)) ↔
      (∀ ns, Ipv4Takes str ns → ∀ n ∈ ns, readDecimal 0 n ≤ 255) ∧
        ∀ gs ns, Ipv6Takes str gs ns → Ipv6Proper gs ns := by
  have htake4 : ∀ ns, Ipv4Takes str ns → str.take (joinText 46 ns).length = joinText 46 ns := by
    intro ns h
    obtain ⟨rest, hstr, -⟩ := h.text
    rw [hstr, take_left]
  have htake6 : ∀ gs ns, Ipv6Takes str gs ns →
      str.take (takenText gs ns).length = takenText gs ns := by
    intro gs ns h
    obtain ⟨rest, hstr⟩ := h.text
    rw [hstr, take_left]
  refine and_congr ?_ ?_
  · constructor
    · intro h ns hns
      have := h _ (rParserIpv4_iff.mpr ⟨ns, hns, rfl⟩)
      rw [RParse.whole, htake4 ns hns] at this
      exact hns.address_iff.mp this
    · intro h r hr
      obtain ⟨ns, hns, rfl⟩ := rParserIpv4_iff.mp hr
      rw [RParse.whole, htake4 ns hns]
      exact hns.address_iff.mpr (h ns hns)
  · constructor
    · intro h gs ns htakes
      have := h _ (rParserIpv6_iff.mpr ⟨gs, ns, htakes, rfl⟩)
      rw [RParse.whole, htake6 gs ns htakes] at this
      exact htakes.address_iff.mp this
    · intro h r hr
      obtain ⟨gs, ns, htakes, rfl⟩ := rParserIpv6_iff.mp hr
      rw [RParse.whole, htake6 gs ns htakes]
      exact htakes.address_iff.mpr (h gs ns htakes)

/-! ## A single colon in front -/

theorem IsIpv6Address.second_colon {c : UInt8} {t : List UInt8} (h : IsIpv6Address (58 :: c :: t)) :
    c = 58 := by
  have hfirst : ∀ (ps : List (List UInt8)) (w : Nat) (u v : List UInt8), Pieces ps w → ps ≠ [] →
      58 :: u ≠ joinText 58 ps ++ v := by
    intro ps w u v hps hne htext
    obtain ⟨p, ps, rfl⟩ := exists_cons_of_ne_nil hne
    obtain ⟨hcolon, hp⟩ := hps.colon_not_mem mem_cons_self
    obtain ⟨d, p, rfl⟩ := exists_cons_of_ne_nil hp
    have hd : (58 : UInt8) = d := by
      by_cases hnil : ps = []
      · subst hnil
        exact (List.cons.inj (by simpa using htext)).1
      · rw [joinText_cons _ hnil] at htext
        exact (List.cons.inj htext).1
    exact hcolon (hd ▸ mem_cons_self)
  rcases h with ⟨ps, hps, htext⟩ | ⟨left, right, w, hleft, -, -, htext⟩
  · refine absurd ?_ (hfirst ps 8 (c :: t) [] hps ?_)
    · rw [htext, append_nil]
    · rintro rfl
      cases hps
  · by_cases hnil : left = []
    · subst hnil
      simp only [joinText_nil, nil_append, cons_append, List.cons.injEq] at htext
      exact htext.2.1
    · rw [append_assoc] at htext
      exact absurd htext (hfirst left _ _ _ (.of_groups hleft) hnil)

/-- `:1:2:3:4:5:6:7` is taken. -/
theorem ipv6_takes_single_colon :
    ∃ r, rParserIpv6 (bytesOf ":1:2:3:4:5:6:7") = some (some r) ∧
      ¬IsIpv6Address ((bytesOf ":1:2:3:4:5:6:7").take r.len) := by
  refine ⟨.whole 14, rfl, fun h => ?_⟩
  have hone : (49 : UInt8) = 58 := h.second_colon
  exact absurd hone (by decide)

end SyslogNg.DbParser
