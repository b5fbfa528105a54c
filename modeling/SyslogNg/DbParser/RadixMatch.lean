import SyslogNg.DbParser.RadixRoutes

/-!
# A lookup in a pattern tree finds a match

`r_find_node` follows a route of the tree, and appends to `matches` one entry for each parser on
it. With `insertNode_inserted` the route spells an inserted pattern, so `r_find_node_matches`: the
message begins with what the pattern stands for.
-/

namespace SyslogNg.DbParser

open Option
open List hiding getElem?_eq_some_iff
open List (head?_drop length_cons length_drop mem_cons_of_mem)
open Option (bind_some isSome_map map_some some_inj)

variable {V : Type}

/-! ## The depth of the recursions -/

theorem heightOf_le_iff {nodes : List (RNode V)} {h : Nat} :
    heightOf nodes ≤ h ↔ ∀ n ∈ nodes, n.height + 1 ≤ h := by
  induction nodes with
  | nil => simp [heightOf]
  | cons n nodes ih => rw [heightOf, max_le_iff, ih, forall_mem_cons]

theorem RNode.height_child {n c : RNode V} (h : c ∈ n.children) : c.height + 1 ≤ n.height := by
  obtain ⟨k, p, v, cs, ps⟩ := n
  exact (heightOf_le_iff.1 (le_refl (heightOf cs)) c h).trans (le_max_left _ _)

theorem RNode.height_pchild {n c : RNode V} (h : c ∈ n.pchildren) : c.height + 1 ≤ n.height := by
  obtain ⟨k, p, v, cs, ps⟩ := n
  exact (heightOf_le_iff.1 (le_refl (heightOf ps)) c h).trans (le_max_right _ _)

theorem height_rSplit (n : RNode V) (i : Nat) : (rSplit n i).height ≤ n.height + 1 := by
  show max (heightOf (rSplit n i).children) 0 ≤ _
  rw [max_le_iff, heightOf_le_iff]
  refine ⟨fun c hc => ?_, Nat.zero_le _⟩
  rcases mem_children_rAddChild.1 hc with hc | rfl
  · cases hc
  · obtain ⟨k, p, v, cs, ps⟩ := n
    exact le_refl _

section

variable {newPnode : List UInt8 → Option RParserNode} {parser : Bool} {v : V}
  {insert : RNode V → List UInt8 → Option (RNode V)} {bound : Nat} {n : RNode V} {key : List UInt8}
  (htot : ∀ n key, 2 * key.length + n.height < bound → (insert n key).isSome = true)

include htot

theorem rAddChildCheck_isSome (hkey : 2 * key.length ≤ bound)
    (hsame : parser = true → key.head? = some at_ → 2 * key.length + n.height < bound) :
    (rAddChildCheck parser v insert n key).isSome = true := by
  unfold rAddChildCheck
  split
  · rename_i hat
    obtain ⟨rest, hdrop, hsplit, -⟩ := split_at_at hat.2
    split
    · rename_i hnil
      exact htot n key (hsame hat.1 (by rw [hsplit, hnil]; rfl))
    · rename_i hnil
      rw [isSome_map]
      apply htot
      have hlen := congrArg length hsplit
      have hpos := length_pos_iff.2 hnil
      rw [length_append] at hlen
      rw [hdrop]
      show 2 * _ + 0 < bound
      omega
  · rfl

theorem rInsertEscape_isSome {rest : List UInt8} (hrest : 2 * rest.length + n.height < bound) :
    (rInsertEscape v insert n rest).isSome = true := by
  unfold rInsertEscape
  cases hfind : rFindChild n at_ with
  | none =>
    simp only
    split
    · rfl
    · rw [isSome_map]
      apply htot
      show 2 * _ + 0 < bound
      omega
  | some ndx =>
    obtain ⟨c, hc, -⟩ := rFindChild_found hfind
    simp only [hc, bind_some, isSome_map]
    split
    · rfl
    · apply htot
      have := RNode.height_child (mem_of_getElem? hc)
      omega

theorem rInsertParser_isSome {spec rest : List UInt8} (hrest : 2 * rest.length + n.height < bound) :
    (rInsertParser newPnode v insert n spec rest).isSome = true := by
  unfold rInsertParser
  cases newPnode spec with
  | none => rfl
  | some q =>
  simp only
  cases hfind : rFindPchild n q with
  | none =>
    simp only [isSome_map]
    split
    · rfl
    · apply htot
      show 2 * _ + 0 < bound
      omega
  | some ndx =>
    obtain ⟨hlt, -⟩ := findIdx?_eq_some_iff_getElem.1 hfind
    simp only [getElem?_eq_getElem hlt, bind_some, isSome_map]
    split
    · rfl
    · apply htot
      have := RNode.height_pchild (getElem_mem hlt)
      omega

theorem rInsertLiteral_isSome (hhead : ¬ (parser = true ∧ key.head? = some at_))
    (hkey : 2 * key.length + n.height ≤ bound) : (rInsertLiteral parser v insert n key).isSome = true := by
  obtain ⟨htake, hle, hle', hlit⟩ := @matchLen_spec parser key n.text
  unfold rInsertLiteral
  simp only
  generalize matchLen parser key n.text = i at *
  have hdrop : (key.drop i).length = key.length - i := length_drop
  -- an `@` follows only after bytes that agree
  have hpos : parser = true → (key.drop i).head? = some at_ → 0 < i ∧ i < key.length := by
    intro hp hh
    rw [head?_drop] at hh
    obtain ⟨hlt, -⟩ := List.getElem?_eq_some_iff.1 hh
    refine ⟨Nat.pos_of_ne_zero ?_, hlt⟩
    rintro rfl
    rw [← head?_eq_getElem?] at hh
    exact hhead ⟨hp, hh⟩
  split
  · cases hfind : rFindChild n (key.getD i 0) with
    | none =>
      refine rAddChildCheck_isSome htot (by omega) fun hp hh => ?_
      have := hpos hp hh
      omega
    | some ndx =>
      simp only
      split
      · rename_i hat
        apply htot
        have hh : (key.drop i).head? = some at_ := by
          rw [head?_drop]
          rcases hget : key[i]? with - | b
          · rw [getD_eq_getElem?_getD, hget] at hat
            exact absurd hat.2 (by decide)
          · rw [getD_eq_getElem?_getD, hget] at hat
            exact congrArg some hat.2
        have := hpos hat.1 hh
        omega
      · obtain ⟨c, hc, -⟩ := rFindChild_found hfind
        simp only [hc, bind_some, isSome_map]
        apply htot
        have := RNode.height_child (mem_of_getElem? hc)
        omega
  split
  · rfl
  split
  · split
    · refine rAddChildCheck_isSome htot (by omega) fun hp hh => ?_
      have := hpos hp hh
      have := height_rSplit n i
      omega
    · rfl
  · refine rAddChildCheck_isSome htot (by omega) fun hp hh => ?_
    have := hpos hp hh
    omega

omit htot

theorem insertNode_isSome {depth : Nat} (h : 2 * key.length + n.height < depth) :
    (insertNode newPnode parser v depth n key).isSome = true := by
  induction depth generalizing n key with
  | zero => omega
  | succ depth ih =>
    have htot : ∀ (n : RNode V) key, 2 * key.length + n.height < depth →
        (insertNode newPnode parser v depth n key).isSome = true := fun n key => ih
    rw [insertNode]
    split
    · rcases hrest : key.drop 1 with - | ⟨c, rest⟩
      · rfl
      · have hlen : (key.drop 1).length = rest.length + 1 := by rw [hrest]; rfl
        rw [length_drop] at hlen
        simp only
        split
        · exact rInsertEscape_isSome htot (by omega)
        · split
          · rename_i hend
            obtain ⟨low, hdrop, hsplit, -⟩ := split_at_at (mem_cons_of_mem c hend)
            have hlow := congrArg length hsplit
            rw [length_append, length_cons, length_cons] at hlow
            rw [hdrop, drop_one, tail_cons]
            exact rInsertParser_isSome htot (by omega)
          · rfl
    · rename_i hhead
      exact rInsertLiteral_isSome htot hhead (by omega)

end

/-! ## Looking up -/

/-- A parser takes no more than the rest of the text, and captures a part of what it takes. -/
def ParseOk (parse : RParserFn → Option (List UInt8) → List UInt8 → Option RParse) : Prop :=
  ∀ fn param text r, parse fn param text = some r →
    r.len ≤ text.length ∧ 0 ≤ r.len + r.relLen ∧ r.ofs + (r.len + r.relLen) ≤ r.len

/-- The text from offset `ofs` on begins with the bytes and with texts that the parsers accept;
`ms` are the captures of the parsers. -/
inductive Accepts (parse : RParserFn → Option (List UInt8) → List UInt8 → Option RParse) :
    Nat → List UInt8 → List RItem → List RParserMatch → Prop where
  | nil {ofs : Nat} {text : List UInt8} : Accepts parse ofs text [] []
  | byte {ofs : Nat} {b : UInt8} {text : List UInt8} {items : List RItem}
      {ms : List RParserMatch} : Accepts parse (ofs + 1) text items ms →
      Accepts parse ofs (b :: text) (.byte b :: items) ms
  | parser {ofs : Nat} {p : RParserNode} {r : RParse} {text : List UInt8} {items : List RItem}
      {ms : List RParserMatch} : parse p.parse p.param text = some r → r.len ≤ text.length →
      Accepts parse (ofs + r.len) (text.drop r.len) items ms →
      Accepts parse ofs text (.parser p :: items)
        (⟨p.handle, (r.len + r.relLen).toNat, ofs + r.ofs, p.type⟩ :: ms)

section

variable {parse : RParserFn → Option (List UInt8) → List UInt8 → Option RParse}
  {vis : UInt8 → Prop} {ofs : Nat} {key : List UInt8} {n : RNode V} {ms : List RParserMatch}

theorem Accepts.literal {pre : List UInt8} {items : List RItem}
    (h : Accepts parse (ofs + pre.length) key items ms) :
    Accepts parse ofs (pre ++ key) (pre.map .byte ++ items) ms := by
  induction pre generalizing ofs with
  | nil => exact h
  | cons b pre ih =>
    refine .byte (ih ?_)
    rw [length_cons] at h
    rwa [show ofs + 1 + pre.length = ofs + (pre.length + 1) by omega]

/-- What a lookup at a node must return: no match, and the array as it was, or a value on a
route that the text takes, and the captures appended to the array. -/
def Found (parse : RParserFn → Option (List UInt8) → List UInt8 → Option RParse)
    (routes : List RItem → V → Prop) (ofs : Nat) (key : List UInt8) (ms : List RParserMatch)
    (ret : Option (RNode V)) (ms' : List RParserMatch) : Prop :=
  match ret with
  | none => ms' = ms
  | some node => ∃ v items new, node.value = some v ∧ routes items v ∧
      Accepts parse ofs key items new ∧ ms' = ms ++ new

theorem lookupLen_spec (h : n.text ≠ [] → key.head? = n.text.head?) :
    lookupLen n key ≤ key.length ∧ lookupLen n key ≤ n.text.length ∧
      key.take (lookupLen n key) = n.text.take (lookupLen n key) := by
  unfold lookupLen
  split
  · exact ⟨Nat.zero_le _, Nat.zero_le _, rfl⟩
  · rename_i hlen
    rcases keylen_cases n with hk | hk
    · rcases htext : n.text with - | ⟨b, text⟩
      · rw [htext] at hk
        simp at hk
        omega
      · rw [htext] at h
        have hhead := h (cons_ne_nil _ _)
        cases key with
        | nil => cases hhead
        | cons a key =>
          rw [head?_cons, head?_cons, some_inj] at hhead
          subst hhead
          obtain ⟨htake, hle, hle', -⟩ := @matchLen_spec false key text
          simp only [drop_succ_cons, drop_zero, length_cons]
          refine ⟨by omega, by omega, ?_⟩
          rw [Nat.add_comm 1, take_succ_cons, take_succ_cons, htake]
    · omega

theorem absolute_eq {p : RParserNode} {r : RParse} (hlen : r.len ≤ key.length)
    (hrel : 0 ≤ r.len + r.relLen) (hin : r.ofs + (r.len + r.relLen) ≤ r.len)
    (hofs : ofs + key.length ≤ 32767) :
    RParserMatch.absolute ⟨0, (r.relLen % 2 ^ 16).toNat, r.ofs % 2 ^ 16, 0⟩ p r.len ofs =
      ⟨p.handle, (r.len + r.relLen).toNat, ofs + r.ofs, p.type⟩ := by
  unfold RParserMatch.absolute
  simp only [RParserMatch.mk.injEq, true_and, and_true]
  omega

/-- What the loop over parser children `ps` must return: one of them takes a part of the text, or
the entry for it is still the last one of the array. -/
def Tried (parse : RParserFn → Option (List UInt8) → List UInt8 → Option RParse)
    (vis : UInt8 → Prop) (ps : List (RNode V)) (ofs : Nat) (key : List UInt8)
    (ms : List RParserMatch) (ret : Option (RNode V)) (arr : List RParserMatch) : Prop :=
  match ret with
  | none => ∃ e, arr = ms ++ [e]
  | some node => ∃ c ∈ ps, ∃ p v items new, c.parser = some p ∧ node.value = some v ∧
      Route vis c items v ∧ Accepts parse ofs key (.parser p :: items) new ∧ arr = ms ++ new

theorem Tried.cons {c : RNode V} {ps : List (RNode V)} {ret : Option (RNode V)} {arr : List RParserMatch}
    (h : Tried parse vis ps ofs key ms ret arr) : Tried parse vis (c :: ps) ofs key ms ret arr := by
  cases ret with
  | none => exact h
  | some node =>
    obtain ⟨a, ha, hrest⟩ := h
    exact ⟨a, mem_cons_of_mem _ ha, hrest⟩

theorem set_length_append (e m : RParserMatch) : (ms ++ [e]).set ms.length m = ms ++ [m] := by
  rw [set_append_right _ _ (le_refl _), Nat.sub_self]
  rfl

theorem modify_length_append (f : RParserMatch → RParserMatch) (m : RParserMatch)
    (new : List RParserMatch) : (ms ++ m :: new).modify ms.length f = ms ++ f m :: new := by
  induction ms with
  | nil => rfl
  | cons a ms ih => rw [cons_append, length_cons, modify_succ_cons, ih]; rfl

theorem tryPchildren_tried (hparse : ParseOk parse) {ps : List (RNode V)}
    {find : RNode V → Nat → List UInt8 → Option (List RParserMatch) → Option (RFound V)}
    (hps : ∀ c ∈ ps, c.parser.isSome = true) (hofs : ofs + key.length ≤ 32767)
    (hfind : ∀ c ∈ ps, ∀ len ≤ key.length, ∀ ms, ∃ ret ms',
      find c (ofs + len) (key.drop len) (some ms) = some (ret, some ms') ∧
        Found parse (Route vis c) (ofs + len) (key.drop len) ms ret ms') (e : RParserMatch) :
    ∃ ret arr, tryPchildren parse find ofs key ms.length ps none (some (ms ++ [e])) =
        some (ret, some arr) ∧ Tried parse vis ps ofs key ms ret arr := by
  induction ps generalizing e with
  | nil => exact ⟨none, _, rfl, e, rfl⟩
  | cons c ps ih =>
    obtain ⟨p, hp⟩ := isSome_iff_exists.1 (hps c mem_cons_self)
    have hlater : ∀ e, ∃ ret arr, tryPchildren parse find ofs key ms.length ps none
        (some (ms ++ [e])) = some (ret, some arr) ∧ Tried parse vis (c :: ps) ofs key ms ret arr := by
      intro e
      obtain ⟨ret, arr, heq, htried⟩ := ih (fun a ha => hps a (mem_cons_of_mem _ ha))
        (fun a ha => hfind a (mem_cons_of_mem _ ha)) e
      exact ⟨ret, arr, heq, htried.cons⟩
    rw [tryPchildren]
    simp only [hp, map_some, set_length_append]
    by_cases hguard : p.first ≤ key.headD 0 ∧ key.headD 0 ≤ p.last
    · rw [if_pos hguard]
      cases hr : parse p.parse p.param key with
      | none => exact hlater _
      | some r =>
        obtain ⟨hlen, hrel, hin⟩ := hparse _ _ _ _ hr
        obtain ⟨ret, ms', heq, hfound⟩ := hfind c mem_cons_self r.len hlen
          (ms ++ [⟨0, (r.relLen % 2 ^ 16).toNat, r.ofs % 2 ^ 16, 0⟩])
        simp only [heq, bind_some]
        cases ret with
        | none =>
          rw [show ms' = _ from hfound]
          exact hlater _
        | some node =>
          obtain ⟨v, items, new, hv, hroute, hacc, rfl⟩ := hfound
          refine ⟨some node, _, rfl, c, mem_cons_self, p, v, items, _, hp, hv, hroute,
            .parser hr hlen hacc, ?_⟩
          rw [append_assoc, singleton_append, modify_length_append,
            absolute_eq hlen hrel hin hofs]
    · rw [if_neg hguard]
      exact hlater _

/-- **A lookup** at a node, whose first byte has been found to agree with the text. -/
theorem findNode_found (hparse : ParseOk parse) {depth : Nat} (hdepth : n.height < depth)
    (hn : Keyed true n) (hfirst : n.text ≠ [] → key.head? = n.text.head?) (hnul : 0 ∉ key)
    (hofs : ofs + key.length ≤ 32767) (ms : List RParserMatch) :
    ∃ ret ms', findNode parse depth n ofs key (some ms) = some (ret, some ms') ∧
      Found parse (RouteIn (· ≠ 0) n) ofs key ms ret ms' := by
  induction depth generalizing n ofs key ms with
  | zero => omega
  | succ depth ih =>
    obtain ⟨hle, hle', htake⟩ := lookupLen_spec hfirst
    have hlen := keylen_cases n
    have hown : ∀ text, key = n.text ++ text →
        Found parse (RouteIn (· ≠ 0) n) ofs key ms (if n.value.isSome then some n else none) ms := by
      intro text hkey
      by_cases hv : n.value.isSome = true
      · rw [if_pos hv]
        obtain ⟨v, hv⟩ := isSome_iff_exists.1 hv
        exact ⟨v, n.text.map .byte ++ [], [], hv, ⟨[], rfl, .here hv⟩, by rw [hkey]; exact .literal .nil,
          (append_nil ms).symm⟩
      · rw [if_neg hv]
        rfl
    rw [findNode]
    simp only
    generalize lookupLen n key = i at *
    by_cases hend : i = key.length ∧ ((i : Int) = n.keylen ∨ n.keylen = -1)
    · rw [if_pos hend]
      refine ⟨_, ms, rfl, hown [] ?_⟩
      rw [hend.1, take_length, take_of_length_le (by omega)] at htake
      rw [htake, append_nil]
    rw [if_neg hend]
    by_cases hdown : n.keylen < 1 ∨ i < key.length ∧ n.keylen ≤ i
    swap
    · rw [if_neg hdown]
      exact ⟨none, ms, rfl, rfl⟩
    rw [if_pos hdown]
    have hi : i = n.text.length := by omega
    have hlt : i < key.length := by omega
    have hkey : key = n.text ++ key.drop i := by
      conv_lhs => rw [← take_append_drop i key, htake, hi, take_length]
      rw [hi]
    have hofs' : ofs + i + (key.drop i).length ≤ 32767 := by
      rw [length_drop]
      omega
    have hnul' : ∀ k, 0 ∉ (key.drop i).drop k :=
      fun k hm => hnul (mem_of_mem_drop (mem_of_mem_drop hm))
    -- a match behind the bytes of the node
    have hlift : ∀ {ret ms'}, Found parse (Route (· ≠ 0) n) (ofs + i) (key.drop i) ms ret ms' →
        Found parse (RouteIn (· ≠ 0) n) ofs key ms ret ms' := by
      intro ret ms' h
      cases ret with
      | none => exact h
      | some node =>
        obtain ⟨v, items, new, hv, hroute, hacc, hms⟩ := h
        refine ⟨v, n.text.map .byte ++ items, new, hv, ⟨items, rfl, hroute⟩, ?_, hms⟩
        rw [hkey]
        rw [hi] at hacc
        exact .literal (by rwa [hi])
    have hchild : ∃ ret ms', tryChild (findNode parse depth) n (ofs + i) (key.drop i) (some ms) =
          some (ret, some ms') ∧
        Found parse (Route (· ≠ 0) n) (ofs + i) (key.drop i) ms ret ms' := by
      have hget : (key.drop i).headD 0 = key[i] := by
        rw [headD_eq_head?_getD, head?_drop, getElem?_eq_getElem hlt]
        rfl
      unfold tryChild
      cases hfind : rFindChild n ((key.drop i).headD 0) with
      | none => exact ⟨none, ms, rfl, rfl⟩
      | some ndx =>
        obtain ⟨c, hc, hb, -⟩ := rFindChild_found hfind
        have hmem := mem_of_getElem? hc
        have hne : c.firstByte ≠ 0 := by
          rw [hb, hget]
          exact fun h0 => hnul (h0 ▸ getElem_mem hlt)
        have hhead : (key.drop i).head? = c.text.head? := by
          rw [head?_drop, getElem?_eq_getElem hlt, ← hget, ← hb]
          unfold RNode.firstByte at hne ⊢
          cases htext : c.text with
          | nil =>
            rw [htext] at hne
            exact absurd rfl hne
          | cons b text => rfl
        obtain ⟨ret, ms', heq, hfound⟩ := ih (by have := RNode.height_child hmem; omega)
          (hn.child hmem) (fun _ => hhead) (hnul' 0) hofs' ms
        refine ⟨ret, ms', ?_, ?_⟩
        · simp only [bind_some, hc]
          exact heq
        · cases ret with
          | none => exact hfound
          | some node =>
            obtain ⟨v, items, new, hv, hroute, hacc, hms⟩ := hfound
            exact ⟨v, items, new, hv, hroute.enter hmem hne, hacc, hms⟩
    obtain ⟨ret, ms', heq, hfound⟩ := hchild
    rw [heq, bind_some]
    cases ret with
    | some node => exact ⟨some node, ms', rfl, hlift hfound⟩
    | none =>
    rw [show ms' = ms from hfound]
    obtain ⟨ret, arr, htry, htried⟩ := @tryPchildren_tried _ _ (· ≠ 0) (ofs + i) (key.drop i) ms
      hparse n.pchildren (findNode parse depth) (fun c hc => (hn.pchild hc).1.2) hofs' (by
        intro c hc len hlen ms
        obtain ⟨⟨htext, -⟩, hckeyed⟩ := hn.pchild hc
        obtain ⟨ret, ms', heq, hfound⟩ := @ih (ofs + i + len) ((key.drop i).drop len) c
          (by have := RNode.height_pchild hc; omega) hckeyed (fun h => absurd htext h) (hnul' len)
          (by rw [length_drop]; omega) ms
        refine ⟨ret, ms', heq, ?_⟩
        cases ret with
        | none => exact hfound
        | some node =>
          obtain ⟨v, items, new, hv, ⟨rest, rfl, hroute⟩, hacc, hms⟩ := hfound
          rw [htext, map_nil, nil_append] at hacc
          exact ⟨v, rest, new, hv, hroute, hacc, hms⟩) ⟨0, 0, 0, 0⟩
    simp only [isSome_none, Bool.false_eq_true, if_false, getD_some, map_some, htry]
    cases ret with
    | none =>
      obtain ⟨e, rfl⟩ := htried
      refine ⟨_, ms, ?_, hown _ hkey⟩
      simp only [isSome_none, Bool.false_eq_true, if_false, take_left']
    | some node =>
      obtain ⟨c, hc, p, v, items, new, hp, hv, hroute, hacc, rfl⟩ := htried
      exact ⟨some node, _, rfl, hlift ⟨v, _, new, hv, .pchild hc hp hroute, hacc, rfl⟩⟩

end

/-! ## Trees of patterns -/

section

variable {newPnode : List UInt8 → Option RParserNode} {parser : Bool} {vis : UInt8 → Prop}

theorem foldlM_insert (hvis : ¬ vis 0) {inserts : List (List UInt8 × V)} {root : RNode V}
    (hroot : Keyed parser root) (htext : root.text = []) :
    ∃ root', inserts.foldlM (fun root (key, value) => rInsertNode newPnode root key value parser)
        root = some root' ∧ Keyed parser root' ∧ root'.text = [] ∧
      ∀ items v, Route vis root' items v → Route vis root items v ∨
        ∃ key, (key, v) ∈ inserts ∧ Pattern newPnode parser key items := by
  induction inserts generalizing root with
  | nil => exact ⟨root, rfl, hroot, htext, fun items v h => .inl h⟩
  | cons insert inserts ih =>
    obtain ⟨key, value⟩ := insert
    obtain ⟨root1, h1⟩ := isSome_iff_exists.1
      (@insertNode_isSome V newPnode parser value root key _ (Nat.lt_succ_self _))
    have hi := insertNode_inserted hvis hroot h1
    obtain ⟨hkey, -, hroutes⟩ := hi.after (.inr (by rw [htext]; cases key <;> rfl))
    obtain ⟨root', hfold, hkeyed, htext', hlater⟩ := ih hi.keyed (by
      unfold RNode.text at htext ⊢
      rw [hkey, htext])
    refine ⟨root', ?_, hkeyed, htext', fun items v h => ?_⟩
    · rw [foldlM_cons]
      show (rInsertNode newPnode root key value parser).bind _ = _
      rw [show rInsertNode newPnode root key value parser = some root1 from h1]
      exact hfold
    · rcases hlater items v h with h | ⟨key', hmem, hpat⟩
      · rcases hroutes items v h with h | ⟨rfl, hpat⟩
        · exact .inl h
        · exact .inr ⟨key, mem_cons_self, hpat⟩
      · exact .inr ⟨key', mem_cons_of_mem _ hmem, hpat⟩

theorem rBuild_routes (hvis : ¬ vis 0) (inserts : List (List UInt8 × V)) :
    ∃ root, rBuild newPnode parser inserts = some root ∧ Keyed parser root ∧ root.text = [] ∧
      ∀ items v, Route vis root items v → ∃ key, (key, v) ∈ inserts ∧ Pattern newPnode parser key items := by
  obtain ⟨root, hbuild, hkeyed, htext, hroutes⟩ :=
    @foldlM_insert V newPnode parser vis hvis inserts (rNewNode [] none)
      (.leaf fun _ => .inr not_mem_nil) rfl
  refine ⟨root, hbuild, hkeyed, htext, fun items v h => ?_⟩
  rcases hroutes items v h with h | h
  · cases (route_rNewNode h).2
  · exact h

end

/-- **A lookup result is a real match.** In a tree of patterns, a lookup of a message that returns a
node with value `v` has followed a pattern inserted with `v`: the message begins with the bytes of
the pattern and with texts that its parsers accept, and `matches` has grown by the captures of
these. A lookup that returns no node leaves `matches` as it was. -/
theorem r_find_node_matches {parse : RParserFn → Option (List UInt8) → List UInt8 → Option RParse}
    (hparse : ParseOk parse) (getValueHandle : List UInt8 → Nat)
    (inserts : List (List UInt8 × V)) {msg : List UInt8} (hnul : 0 ∉ msg)
    (hlen : msg.length ≤ 32767) (ms : List RParserMatch) :
    ∃ root ret ms', rBuild (rNewPnode getValueHandle) true inserts = some root ∧
      rFindNode parse root msg (some ms) = some (ret, some ms') ∧
      (ret = none → ms' = ms) ∧
      ∀ node v, ret = some node → node.value = some v → ∃ pattern items new,
        (pattern, v) ∈ inserts ∧ Pattern (rNewPnode getValueHandle) true pattern items ∧
        Accepts parse 0 msg items new ∧ ms' = ms ++ new := by
  obtain ⟨root, hbuild, hkeyed, htext, hroutes⟩ :=
    @rBuild_routes V (rNewPnode getValueHandle) true (· ≠ 0) (by decide) inserts
  obtain ⟨ret, ms', hfind, hfound⟩ := @findNode_found V parse 0 msg root hparse _
    (Nat.lt_succ_self root.height) hkeyed (fun h => absurd htext h) hnul (by omega) ms
  refine ⟨root, ret, ms', hbuild, hfind, ?_, ?_⟩
  · rintro rfl
    exact hfound
  · rintro node v rfl hv
    obtain ⟨w, items, new, hw, ⟨rest, rfl, hroute⟩, hacc, hms⟩ := hfound
    obtain rfl : w = v := some.inj (hw.symm.trans hv)
    obtain ⟨pattern, hmem, hpat⟩ := hroutes rest w hroute
    rw [htext, map_nil, nil_append] at hacc
    exact ⟨pattern, rest, new, hmem, hpat, hacc, hms⟩

/-- The parser of decimal numbers, without a sign. -/
def parseDigits (fn : RParserFn) (_ : Option (List UInt8)) (text : List UInt8) : Option RParse :=
  let len := (text.takeWhile fun b => 48 ≤ b ∧ b ≤ 57).length
  if fn = .number ∧ 0 < len then some ⟨len, 0, 0⟩ else none

/-- The patterns `a@NUMBER:n@b` and `ab`, and the message `a12bc`. -/
theorem r_find_node_matches_number : ∃ root ret ms',
    rBuild (rNewPnode fun _ => 7) true [(bytesOf "a@NUMBER:n@b", 1), (bytesOf "ab", 2)] =
      some root ∧
    rFindNode parseDigits root (bytesOf "a12bc") (some []) = some (ret, some ms') ∧
    ret.bind RNode.value = some 1 ∧ ms' = [⟨7, 2, 1, 4⟩] ∧
    ∃ pattern items, (pattern, 1) ∈ [(bytesOf "a@NUMBER:n@b", 1), (bytesOf "ab", 2)] ∧
      Pattern (rNewPnode fun _ => 7) true pattern items ∧
      Accepts parseDigits 0 (bytesOf "a12bc") items ms' := by
  have hparse : ParseOk parseDigits := by
    intro fn param text r h
    unfold parseDigits at h
    simp only at h
    split at h
    · cases h
      have hle := (takeWhile_sublist (l := text) fun b : UInt8 => 48 ≤ b ∧ b ≤ 57).length_le
      simp only
      omega
    · cases h
  obtain ⟨root, ret, ms', hbuild, hfind, -, hmatch⟩ := r_find_node_matches hparse (fun _ => 7)
    [(bytesOf "a@NUMBER:n@b", 1), (bytesOf "ab", 2)] (show 0 ∉ bytesOf "a12bc" by decide +kernel)
    (by decide +kernel) []
  have hrun : ((rBuild (rNewPnode fun _ => 7) true
      [(bytesOf "a@NUMBER:n@b", 1), (bytesOf "ab", 2)]).bind fun root =>
        rFindNode parseDigits root (bytesOf "a12bc") (some [])).map
          (fun r => (r.1.bind RNode.value, r.2)) = some (some 1, some [⟨7, 2, 1, 4⟩]) := by
    decide +kernel
  rw [hbuild, bind_some, hfind, map_some, some_inj, Prod.mk.injEq, some_inj] at hrun
  obtain ⟨hret, hms⟩ := hrun
  obtain ⟨node, rfl, hv⟩ := bind_eq_some_iff.1 hret
  obtain ⟨pattern, items, new, hmem, hpat, hacc, hnew⟩ := hmatch node 1 rfl hv
  rw [nil_append] at hnew
  exact ⟨root, some node, ms', hbuild, hfind, hret, hms, pattern, items, hmem, hpat, hnew ▸ hacc⟩

end SyslogNg.DbParser
