import SyslogNg.DbParser.ParserBounds

/-!
# Which parsers stay inside the message (`modules/dbparser/radix.c`)

`RParserNode.StaysWhen` is what a message has to be like for the parser of a node that
`r_new_pnode` makes to read nothing behind the NUL or before the first byte.
-/

namespace SyslogNg.DbParser

open Lib List Option
open Option (bind_some getD_some)

/-! ## Mailboxes -/

/-- A byte of the parameter, as `strchr` finds it; the NUL is one where there is a parameter. -/
def paramByte (param : Option (List UInt8)) (c : UInt8) : Bool := param.any (strchr · c)

/-- Behind the host name at the beginning of `domain` comes a byte that is not one of the
parameter. -/
def HostEnds (domain : List UInt8) (param : Option (List UInt8)) : Prop :=
  ∀ n, rParserHostname domain = some (some (.whole n)) →
    param = none ∨ ∃ c ∈ domain.drop n, paramByte param c = false

/-- The text from the mailbox on, and from the `@` on. -/
def emailLocal (str : List UInt8) (param : Option (List UInt8)) : List UInt8 :=
  str.dropWhile (paramByte param)

def emailRest (str : List UInt8) (param : Option (List UInt8)) : List UInt8 :=
  (emailLocal str param).dropWhile emailChar

/-- The text in front of the `@`. -/
def emailTaken (str : List UInt8) (param : Option (List UInt8)) : List UInt8 :=
  str.take (str.length - (emailRest str param).length)

/-- Each loop of `r_parser_email` that looks bytes up with `strchr` finds one that ends it, and
there is a byte in front of the `@`. -/
def EmailStays (str : List UInt8) (param : Option (List UInt8)) : Prop :=
  (param = none ∨ emailLocal str param ≠ []) ∧
    ((emailLocal str param).head? = some 46 ∨
      emailRest str param ≠ [] ∧ emailTaken str param ≠ [] ∧
        ((emailTaken str param).getLast? = some 46 ∨ (emailRest str param).head? ≠ some 64 ∨
          HostEnds (emailRest str param).tail param))

variable {str param : List UInt8}

theorem dropWhile_ne_nil {p : UInt8 → Bool} : str.dropWhile p ≠ [] ↔ ∃ c ∈ str, p c = false := by
  rw [Ne, dropWhile_eq_nil_iff]
  push Not
  simp

theorem drop_takeWhile (p : UInt8 → Bool) (str : List UInt8) :
    str.drop (str.takeWhile p).length = str.dropWhile p := by
  nth_rewrite 2 [← takeWhile_append_dropWhile (p := p) (l := str)]
  exact drop_left

theorem skipParam_memOf {param : Option (List UInt8)}
    (h : param = none ∨ ∃ c ∈ str, paramByte param c = false) :
    skipParam param (memOf str) = some (str.takeWhile (paramByte param)).length := by
  cases param with
  | none =>
    have hfalse : paramByte none = fun _ => false := rfl
    rw [hfalse, skipParam]
    cases str <;> rfl
  | some alphabet => exact skipWhile_memOf_isSome (h.resolve_left (some_ne_none _))

theorem skipParam_memOf_none {alphabet : List UInt8} (h : ¬∃ c ∈ str, paramByte (some alphabet) c = false) :
    skipParam (some alphabet) (memOf str) = none :=
  skipWhile_memOf_none (strchr_zero alphabet) h

theorem emailHost_inside_iff (param : Option (List UInt8)) {ofs len : Nat} (hofs : ofs ≤ len)
    (hlen : len ≤ str.length) :
    StaysInside str (emailHost str param ofs len) ↔ HostEnds (str.drop len) param := by
  obtain ⟨e, he, hle⟩ := scan_memOf hostTurn_zero (false, 0) (str.drop len)
  have hhost : rParserHostname (str.drop len) = some (e.bind fun r =>
      if r.1.2 < 2 then none else some (.whole r.2)) := by
    rw [rParserHostname, he]
    rfl
  rw [emailHost, drop_memOf hlen, he, bind_some]
  rcases e with _ | ⟨⟨inLabel, count⟩, n⟩
  · exact iff_of_true (.false str) fun n hn => by rw [hhost] at hn; cases hn
  · have hn := hle _ _ rfl
    rw [length_drop] at hn
    simp only [bind_some] at hhost
    by_cases hcount : count < 2
    · simp only [hcount, if_true] at hhost ⊢
      exact iff_of_true (.false str) fun n hn => by rw [hhost] at hn; cases hn
    · simp only [hcount, if_false] at hhost ⊢
      have hends : HostEnds (str.drop len) param ↔
          param = none ∨ ∃ c ∈ str.drop (len + n), paramByte param c = false := by
        rw [HostEnds, hhost, ← drop_drop]
        simp [RParse.whole]
      rw [hends, drop_memOf (by omega)]
      constructor
      · intro h
        cases param with
        | none => exact .inl rfl
        | some alphabet =>
          by_contra hall
          rw [skipParam_memOf_none (not_or.mp hall).2] at h
          exact not_staysInside_none str h
      · intro h
        rw [skipParam_memOf h]
        have hk := takeWhile_le (paramByte param) (str.drop (len + n))
        rw [length_drop] at hk
        refine .true (.of_part ?_ ?_ ?_) <;> simp only <;> omega

/-- The part of `r_parser_email` behind the two loops: `len` bytes are in front of the `@`. -/
def emailAt (str : List UInt8) (param : Option (List UInt8)) (ofs len : Nat) : ParseOutcome :=
  (readAt str ((len : Nat) - 1 : Int)).bind fun last =>
    if last = 46 then some none
    else
      (readAt str (len : Nat)).bind fun c =>
        if c = 64 then emailHost str param ofs (len + 1) else some none

theorem rParserEmail_eq (str : List UInt8) (param : Option (List UInt8)) :
    rParserEmail str param true =
      (skipParam param (memOf str)).bind fun ofs =>
        (readAt str ofs).bind fun first =>
          if first = 46 then some none
          else (skipWhile emailChar ((memOf str).drop ofs)).bind fun n =>
            emailAt str param ofs (ofs + n) := rfl

theorem headD_eq_iff {s : List UInt8} {c : UInt8} (hc : c ≠ 0) : s.headD 0 = c ↔ s.head? = some c := by
  cases s with
  | nil => simp [hc.symm]
  | cons a s => simp

theorem emailAt_inside_iff (param : Option (List UInt8)) {ofs len : Nat} (hofs : ofs ≤ len)
    (hlen : len ≤ str.length) :
    StaysInside str (emailAt str param ofs len) ↔
      str.take len ≠ [] ∧ ((str.take len).getLast? = some 46 ∨ (str.drop len).head? ≠ some 64 ∨
        HostEnds (str.drop len).tail param) := by
  rcases len with _ | k
  · refine iff_of_false ?_ (by simp)
    exact not_staysInside_none str
  · have hlast : (str.take (k + 1)).getLast? = some str[k] := by
      rw [getLast?_eq_getElem?, length_take, Nat.min_eq_left hlen]
      simp [getElem?_eq_getElem (show k < str.length from hlen)]
    have hne : str.take (k + 1) ≠ [] := fun h => by rw [h] at hlast; cases hlast
    have hread : readAt str (((k + 1 : Nat) : Int) - 1) = some str[k] := by
      have hk : ((k + 1 : Nat) : Int) - 1 = (k : Nat) := by omega
      rw [hk, readAt_eq_head str (by omega), headD_eq_head?_getD, head?_drop,
        getElem?_eq_getElem (show k < str.length from hlen)]
      rfl
    rw [and_iff_right hne, hlast, emailAt, hread, bind_some, readAt_eq_head str hlen, bind_some]
    by_cases hdot : str[k] = 46
    · rw [if_pos hdot, hdot]
      exact iff_of_true (.false str) (.inl rfl)
    · rw [if_neg hdot]
      have hnot : ¬some str[k] = some (46 : UInt8) := fun h => hdot (some.inj h)
      by_cases hat : (str.drop (k + 1)).head? = some 64
      · rw [if_pos ((headD_eq_iff (by decide)).mpr hat)]
        have hlt : k + 1 + 1 ≤ str.length := by
          by_contra hge
          rw [drop_eq_nil_of_le (by omega)] at hat
          cases hat
        rw [emailHost_inside_iff param (by omega) hlt, tail_drop]
        simp [hnot, hat]
      · rw [if_neg fun h => hat ((headD_eq_iff (by decide)).mp h)]
        exact iff_of_true (.false str) (.inr (.inl hat))

theorem rParserEmail_inside_iff (str : List UInt8) (param : Option (List UInt8)) (hasMatch : Bool) :
    StaysInside str (rParserEmail str param hasMatch) ↔ hasMatch ∧ EmailStays str param := by
  cases hasMatch with
  | false =>
    refine iff_of_false ?_ (by simp)
    rw [rParserEmail]
    cases skipParam param (memOf str) <;> exact not_staysInside_none str
  | true =>
    rw [and_iff_right rfl, rParserEmail_eq, EmailStays]
    by_cases hparam : param = none ∨ emailLocal str param ≠ []
    case neg =>
      refine iff_of_false ?_ fun h => hparam h.1
      obtain ⟨hsome, hlocal⟩ := not_or.mp hparam
      obtain ⟨alphabet, rfl⟩ := ne_none_iff_exists'.mp hsome
      rw [skipParam_memOf_none fun h => hlocal (dropWhile_ne_nil.mpr h)]
      exact not_staysInside_none str
    case pos =>
      rw [and_iff_right hparam, skipParam_memOf (hparam.imp_right dropWhile_ne_nil.mp), bind_some]
      have hofs := takeWhile_le (paramByte param) str
      have hlocal := drop_takeWhile (paramByte param) str
      set ofs := (str.takeWhile (paramByte param)).length
      rw [readAt_eq_head str hofs, bind_some, hlocal, drop_memOf hofs, hlocal, ← emailLocal]
      by_cases hdot : (emailLocal str param).head? = some 46
      · rw [if_pos ((headD_eq_iff (by decide)).mpr hdot)]
        exact iff_of_true (.false str) (.inl hdot)
      · rw [if_neg fun h => hdot ((headD_eq_iff (by decide)).mp h), or_iff_right hdot]
        by_cases hrest : emailRest str param = []
        · rw [skipWhile_memOf_none rfl fun h => dropWhile_ne_nil.mpr h hrest]
          exact iff_of_false (not_staysInside_none str) fun h => h.1 hrest
        · rw [skipWhile_memOf_isSome (dropWhile_ne_nil.mp hrest), bind_some, and_iff_right hrest]
          have hn := takeWhile_le emailChar (emailLocal str param)
          have hat := drop_takeWhile emailChar (emailLocal str param)
          set n := ((emailLocal str param).takeWhile emailChar).length
          have hlen : (emailLocal str param).length = str.length - ofs := by
            rw [emailLocal, ← hlocal, length_drop]
          have hle : ofs + n ≤ str.length := by omega
          have hdrop : str.drop (ofs + n) = emailRest str param := by
            rw [← drop_drop, hlocal]
            exact hat
          have htaken : str.take (ofs + n) = emailTaken str param := by
            rw [emailTaken, ← hdrop, length_drop]
            congr 1
            omega
          rw [emailAt_inside_iff param (Nat.le_add_right ofs n) hle, hdrop, htaken]

/-! ## The nodes of the tree -/

theorem mem_of_mem_strsplit {n : Nat} {s token : List UInt8} {c : UInt8} (ht : token ∈ strsplit n s)
    (hc : c ∈ token) : c ∈ s := by
  fun_induction strsplit n s generalizing token with
  | case1 s | case2 s =>
    obtain rfl := mem_singleton.mp ht
    exact hc
  | case3 n s first sep rest hspan ih =>
    have hs : s = first ++ sep :: rest := by
      have := span_eq_takeWhile_dropWhile (p := fun x => decide (x ≠ 58)) (l := s)
      rw [hspan] at this
      rw [Prod.mk.injEq] at this
      rw [this.1, this.2, takeWhile_append_dropWhile]
    rw [hs]
    rcases mem_cons.mp ht with rfl | ht
    · exact mem_append_left _ hc
    · exact mem_append_right _ (mem_cons_of_mem _ (ih ht hc))
  | case4 n s first hspan =>
    have hs : s = first := by
      have := span_eq_takeWhile_dropWhile (p := fun x => decide (x ≠ 58)) (l := s)
      rw [hspan] at this
      rw [Prod.mk.injEq] at this
      rw [← takeWhile_append_dropWhile (p := fun x => decide (x ≠ 58)) (l := s), ← this.1,
        ← this.2, append_nil]
    obtain rfl := mem_singleton.mp ht
    exact hs ▸ hc

theorem length_of_rParserFnOf {params : List (List UInt8)} {parse : RParserFn}
    (h : rParserFnOf params = some parse) (hparse : parse = .set ∨ parse = .qstring ∨ parse = .estringC) :
    params.length = 3 := by
  have hsimple : ∀ p ∈ rSimpleParsers, ¬(p.2 = .set ∨ p.2 = .qstring ∨ p.2 = .estringC) := by
    decide
  unfold rParserFnOf at h
  simp only at h
  split at h
  case h_1 p hp =>
    obtain rfl := some.inj h
    exact absurd hparse (hsimple p (mem_of_find?_eq_some hp))
  case h_2 =>
    by_contra hlen
    simp only [hlen, if_false] at h
    split_ifs at h

theorem rNewPnode_param {getValueHandle : List UInt8 → Nat} {key : List UInt8} {node : RParserNode}
    (h : rNewPnode getValueHandle key = some node)
    (hparse : node.parse = .set ∨ node.parse = .qstring ∨ node.parse = .estringC) :
    ∃ param, node.param = some param := by
  obtain ⟨parse, hp, rfl⟩ := map_eq_some_iff.mp h
  have hlen := length_of_rParserFnOf hp hparse
  exact ⟨_, getElem?_eq_getElem (show 2 < (strsplit 3 key).length by omega)⟩

theorem rNewPnode_noNul {getValueHandle : List UInt8 → Nat} {key : List UInt8} {node : RParserNode}
    (h : rNewPnode getValueHandle key = some node) (hkey : 0 ∉ key) (hparam : node.param = some param) :
    0 ∉ param := by
  obtain ⟨parse, hp, rfl⟩ := map_eq_some_iff.mp h
  exact fun h0 => hkey (mem_of_mem_strsplit (mem_of_getElem? hparam) h0)

theorem qstringState_ne_zero (h : 0 ∉ param) : qstringState (some param) ≠ 0 ↔ param ≠ [] := by
  rcases param with _ | ⟨a, _ | ⟨b, rest⟩⟩
  · simp [qstringState]
  · simp only [mem_singleton] at h
    simpa [qstringState] using Ne.symm h
  · simp only [mem_cons, not_or] at h
    have hb : b ≠ 0 := Ne.symm h.2.1
    have ha : a ≠ 0 := Ne.symm h.1
    simp only [qstringState, getD_some]
    split <;> simp [ha, hb]

theorem headD_ne_zero (h : 0 ∉ param) : param.headD 0 ≠ 0 ↔ param ≠ [] := by
  cases param with
  | nil => simp
  | cons a rest => simpa using fun ha : a = 0 => h (ha ▸ mem_cons_self)

/-- `pcre_exec` reports a part of the subject. -/
def Pcre.ReportsPart (pcre : Pcre) : Prop :=
  ∀ re str start stop, pcre.exec re str = some (start, stop) → start ≤ stop ∧ stop ≤ str.length

theorem rParserPcre_inside_iff {pcre : Pcre} (hpcre : pcre.ReportsPart) (str : List UInt8)
    (state : Option pcre.Regex) : StaysInside str (rParserPcre pcre str state) ↔ state.isSome := by
  cases state with
  | none => exact iff_of_false (not_staysInside_none str) (by simp)
  | some re =>
    refine iff_of_true ?_ rfl
    rw [rParserPcre, map_some]
    cases hexec : pcre.exec re str with
    | none => exact .false str
    | some matched =>
      have := hpcre re str matched.1 matched.2 hexec
      exact .true (.whole (by omega))

/-- What keeps the parser of a node inside a message. -/
def RParserNode.StaysWhen (pcre : Pcre) (node : RParserNode) (str : List UInt8) (hasMatch : Bool) :
    Prop :=
  match node.parse with
  | .string =>
    ∀ alphabet, node.param = some alphabet → ∃ c ∈ str, asciiIsalnum c = false ∧ c ∉ alphabet
  | .set => ∃ c ∈ str, c ∉ node.param.getD []
  | .qstring => str ≠ [] ∧ node.param.getD [] ≠ []
  | .estringC => node.param.getD [] ≠ []
  | .email => hasMatch ∧ EmailStays str node.param
  | .ipv6 | .ip => Ipv6Begins str
  | .pcre => (node.param.bind pcre.compile).isSome
  | _ => True

/-- The parser of a node that the loader accepts stays inside a message exactly when each of its
loops over `strchr` is ended by a byte of the message, and nothing is looked back at from the
first byte. -/
theorem run_staysInside_iff {pcre : Pcre} (hpcre : pcre.ReportsPart)
    {getValueHandle : List UInt8 → Nat} {key : List UInt8} {node : RParserNode}
    (hnode : rNewPnode getValueHandle key = some node) (hkey : 0 ∉ key) {str : List UInt8}
    (hstr : 0 ∉ str) (hasMatch : Bool) :
    StaysInside str (node.run pcre str hasMatch) ↔ node.StaysWhen pcre str hasMatch := by
  unfold RParserNode.run RParserNode.StaysWhen
  cases hparse : node.parse with
  | ipv4 => exact iff_of_true (rParserIpv4_inside str) trivial
  | ipv6 => exact rParserIpv6_inside_iff str
  | ip => exact rParserIp_inside_iff str
  | macaddr => exact iff_of_true (lladdr_inside str 17 6) trivial
  | number => exact iff_of_true (rParserNumber_inside str) trivial
  | float => exact iff_of_true (rParserFloat_inside str) trivial
  | string => exact rParserString_inside_iff hstr node.param
  | estringC =>
    obtain ⟨param, hparam⟩ := rNewPnode_param hnode (by simp [hparse])
    simp only [hparam, getD_some]
    exact (rParserEstringC_inside_iff hstr param).trans
      (headD_ne_zero (rNewPnode_noNul hnode hkey hparam))
  | estring => exact iff_of_true (rParserEstring_inside str node.param) trivial
  | pcre => exact rParserPcre_inside_iff hpcre str _
  | anystring => exact iff_of_true (rParserAnystring_inside str) trivial
  | set =>
    obtain ⟨param, hparam⟩ := rNewPnode_param hnode (by simp [hparse])
    simp only [hparam, getD_some]
    exact rParserSet_inside_iff hstr param
  | email => exact rParserEmail_inside_iff str node.param hasMatch
  | hostname => exact iff_of_true (rParserHostname_inside str) trivial
  | lladdr => exact iff_of_true (lladdr_inside str _ _) trivial
  | qstring =>
    obtain ⟨param, hparam⟩ := rNewPnode_param hnode (by simp [hparse])
    simp only [hparam, getD_some]
    exact (rParserQstring_inside_iff hstr _).trans
      (and_congr_right fun _ => qstringState_ne_zero (rNewPnode_noNul hnode hkey hparam))

/-- A library without regular expressions. -/
def noPcre : Pcre := ⟨Empty, fun _ => none, fun re => nomatch re⟩

theorem noPcre_reportsPart : noPcre.ReportsPart := fun re => nomatch re

/-- `@SET:x:abc@` on the message `abd` stops at the `d`. -/
theorem run_staysInside_iff_set :
    ∃ node, rNewPnode (fun _ => 1) (bytesOf "SET:x:abc") = some node ∧
      (StaysInside (bytesOf "abd") (node.run noPcre (bytesOf "abd") true) ↔
        node.StaysWhen noPcre (bytesOf "abd") true) := by
  refine ⟨_, rfl, ?_⟩
  have hnode : rNewPnode (fun _ => 1) (bytesOf "SET:x:abc") = some _ := rfl
  exact run_staysInside_iff noPcre_reportsPart hnode (by decide) (by decide) true

/-- `@SET:x:abc@` on the message `abc` goes on behind the NUL. -/
theorem set_leaves_string :
    ∃ node, rNewPnode (fun _ => 1) (bytesOf "SET:x:abc") = some node ∧
      ¬StaysInside (bytesOf "abc") (node.run noPcre (bytesOf "abc") true) := by
  refine ⟨_, rfl, ?_⟩
  have hnone : skipWhile (strchr (bytesOf "abc")) (memOf (bytesOf "abc")) = none := by decide
  show ¬StaysInside _ (rParserSet (bytesOf "abc") (some (bytesOf "abc")))
  rw [rParserSet, hnone]
  exact not_staysInside_none _

end SyslogNg.DbParser
