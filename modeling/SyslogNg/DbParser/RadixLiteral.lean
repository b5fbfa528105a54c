import SyslogNg.DbParser.RadixMatch

/-!
# The literal radix tree

A tree of literal keys is a longest-prefix map, as far as `r_find_child` finds the children it
looks for. Its argument is a `char`: a byte from `0x80` on is negative there, smaller than the
first byte of every child. `r_find_node_longest`: the tree is right for exactly those sets of
keys in which no such byte begins a key or is where a key parts from another one.
-/

namespace SyslogNg.DbParser

open Option
open List hiding getElem?_eq_some_iff
open List (append_nil cons_append exists_cons_of_ne_nil length_append length_cons mem_append_right
  mem_cons_self mem_map prefix_rfl take_left')
open Option (bind_some map_some some_inj)

variable {V : Type}

/-- The first bytes of the children that `r_find_child` can find. -/
def Visible (b : UInt8) : Prop := b ≠ 0 ∧ b.toNat < 128

/-- The byte of the first key where it parts from the second one is below `0x80`. -/
def PartsLow : List UInt8 → List UInt8 → Prop
  | [], _ => True
  | a :: _, [] => a.toNat < 128
  | a :: as, b :: bs => if a = b then PartsLow as bs else a.toNat < 128

instance decidablePartsLow : (as bs : List UInt8) → Decidable (PartsLow as bs)
  | [], _ => isTrue trivial
  | a :: _, [] => inferInstanceAs (Decidable (a.toNat < 128))
  | a :: as, b :: bs =>
    have := decidablePartsLow as bs
    inferInstanceAs (Decidable (if a = b then PartsLow as bs else a.toNat < 128))

/-- Every key parts from every other one, and from the empty key of the root, at a low byte. -/
def KeysPartLow (keys : List (List UInt8)) : Prop := ∀ a ∈ keys, ∀ b ∈ [] :: keys, PartsLow a b

section

variable {a b p : List UInt8} {x y : UInt8}

theorem PartsLow.append_iff : PartsLow (p ++ a) (p ++ b) ↔ PartsLow a b := by
  induction p with
  | nil => rfl
  | cons c p ih => rw [cons_append, cons_append, PartsLow, if_pos rfl, ih]

theorem PartsLow.append_right : PartsLow (p ++ a) p ↔ PartsLow a [] := by
  have h : PartsLow (p ++ a) (p ++ []) ↔ PartsLow a [] := PartsLow.append_iff
  rwa [append_nil] at h

theorem PartsLow.of_ne (h : x ≠ y) : PartsLow (x :: a) (y :: b) ↔ x.toNat < 128 := by
  rw [PartsLow, if_neg h]

end

/-! ## Literal trees -/

/-- A tree without parsers: the children are sorted, and only high first bytes are there twice. -/
inductive Literal : RNode V → Prop where
  | mk {n : RNode V} : n.pchildren = [] → n.children.Pairwise rNodeLe →
      n.children.Pairwise (fun a b => a.firstByte = b.firstByte → 128 ≤ a.firstByte.toNat) →
      (∀ c ∈ n.children, c.text ≠ [] ∧ 0 ∉ c.text) → (∀ c ∈ n.children, Literal c) → Literal n

section

variable {n c c' : RNode V} {key : List UInt8} {b : UInt8}

theorem Literal.pchildren (h : Literal n) : n.pchildren = [] := by
  cases h
  assumption

theorem Literal.sorted (h : Literal n) : n.children.Pairwise rNodeLe := by
  cases h
  assumption

theorem Literal.distinct (h : Literal n) :
    n.children.Pairwise fun a b => a.firstByte = b.firstByte → 128 ≤ a.firstByte.toNat := by
  cases h
  assumption

theorem Literal.text (h : Literal n) (hc : c ∈ n.children) : c.text ≠ [] ∧ 0 ∉ c.text := by
  obtain ⟨-, -, -, h, -⟩ := h
  exact h c hc

theorem Literal.child (h : Literal n) (hc : c ∈ n.children) : Literal c := by
  obtain ⟨-, -, -, -, h⟩ := h
  exact h c hc

theorem Literal.text_eq (h : Literal n) (hc : c ∈ n.children) : ∃ text, c.text = c.firstByte :: text := by
  obtain ⟨hne, -⟩ := h.text hc
  unfold RNode.firstByte
  cases htext : c.text with
  | nil => exact absurd htext hne
  | cons b text => exact ⟨text, rfl⟩

theorem Literal.visible_iff (h : Literal n) (hc : c ∈ n.children) :
    Visible c.firstByte ↔ c.firstByte.toNat < 128 := by
  refine ⟨And.right, fun hlow => ⟨fun h0 => ?_, hlow⟩⟩
  obtain ⟨text, htext⟩ := h.text_eq hc
  apply (h.text hc).2
  rw [htext, h0]
  exact mem_cons_self

theorem Literal.index_eq (h : Literal n) {i j : Nat} (hi : i < n.children.length)
    (hj : j < n.children.length) (heq : n.children[i].firstByte = n.children[j].firstByte)
    (hlow : n.children[i].firstByte.toNat < 128) : i = j := by
  have hdist := pairwise_iff_getElem.1 h.distinct
  rcases lt_trichotomy i j with hlt | heq' | hlt
  · have := hdist i j hi hj hlt heq
    omega
  · exact heq'
  · have := hdist j i hj hi hlt heq.symm
    rw [← heq] at this
    omega

theorem Literal.eq_of_firstByte (h : Literal n) (hc : c ∈ n.children) (hc' : c' ∈ n.children)
    (heq : c.firstByte = c'.firstByte) (hlow : c.firstByte.toNat < 128) : c = c' := by
  obtain ⟨i, hi, rfl⟩ := getElem_of_mem hc
  obtain ⟨j, hj, rfl⟩ := getElem_of_mem hc'
  obtain rfl := h.index_eq hi hj heq hlow
  rfl

theorem rFindChildLoop_of_mem (h : Literal n) {rounds l m t : Nat} (ht : t < n.children.length)
    (hlow : n.children[t].firstByte.toNat < 128) (hl : l ≤ t) (hm : t < m) (hlen : m ≤ n.children.length)
    (hrounds : m - l ≤ rounds) :
    rFindChildLoop n.children n.children[t].firstByte.toNat rounds l m = some t := by
  induction rounds generalizing l m with
  | zero => omega
  | succ rounds ih =>
    have hmid : (l + m) / 2 < n.children.length := by omega
    have hne : (l + m) / 2 ≠ t →
        n.children[(l + m) / 2].firstByte.toNat ≠ n.children[t].firstByte.toNat := by
      intro hne heq
      exact hne (h.index_eq ht hmid (UInt8.toNat_inj.1 heq.symm) hlow).symm
    have hsorted := pairwise_iff_getElem.1 h.sorted
    rw [rFindChildLoop, if_pos (by omega), getElem?_eq_getElem hmid]
    simp only
    rcases lt_trichotomy ((l + m) / 2) t with hlt | heq | hgt
    · have hle : n.children[(l + m) / 2].firstByte.toNat ≤ n.children[t].firstByte.toNat :=
        hsorted _ _ hmid ht hlt
      have := hne (by omega)
      rw [if_neg (by omega), if_pos (by omega)]
      exact ih (by omega) hm hlen (by omega)
    · subst heq
      rw [if_neg (by omega), if_neg (by omega)]
    · have hle : n.children[t].firstByte.toNat ≤ n.children[(l + m) / 2].firstByte.toNat :=
        hsorted _ _ ht hmid hgt
      have := hne (by omega)
      rw [if_pos (by omega)]
      exact ih hl hgt (by omega) (by omega)

theorem rFindChild_of_mem (h : Literal n) (hc : c ∈ n.children) (hlow : c.firstByte.toNat < 128) :
    ∃ ndx, rFindChild n c.firstByte = some ndx ∧ n.children[ndx]? = some c := by
  obtain ⟨t, ht, rfl⟩ := getElem_of_mem hc
  refine ⟨t, ?_, getElem?_eq_getElem ht⟩
  unfold rFindChild charOf
  rw [if_pos hlow]
  exact rFindChildLoop_of_mem h ht hlow (Nat.zero_le _) ht (le_refl _) (by omega)

end

/-! ## The keys of a literal tree -/

/-- A visible way down from a node spells the key. -/
def Holds (n : RNode V) (k : List UInt8) (v : V) : Prop := Route Visible n (k.map .byte) v

def HoldsIn (n : RNode V) (k : List UInt8) (v : V) : Prop := ∃ r, k = n.text ++ r ∧ Holds n r v

def HoldsBelow (n : RNode V) (k : List UInt8) (v : V) : Prop :=
  ∃ c ∈ n.children, Visible c.firstByte ∧ HoldsIn c k v

section

variable {n c : RNode V} {k r : List UInt8} {v : V}

theorem map_byte_injective : Function.Injective (map RItem.byte) :=
  map_injective_iff.2 fun _ _ h => by cases h; rfl

theorem holdsIn_of_routeIn (h : RouteIn Visible n (k.map .byte) v) : HoldsIn n k v := by
  obtain ⟨rest, heq, hr⟩ := h
  obtain ⟨l1, l2, rfl, h1, rfl⟩ := map_eq_append_iff.1 heq
  obtain rfl := map_byte_injective h1
  exact ⟨l2, rfl, hr⟩

theorem holds_iff (hp : n.pchildren = []) :
    Holds n k v ↔ (k = [] ∧ n.value = some v) ∨ HoldsBelow n k v := by
  constructor
  · intro h
    unfold Holds at h
    obtain ⟨key, p, value, cs, ps⟩ := n
    rcases h.cases_on_node with ⟨hk, hv⟩ | ⟨c, hc, hvis, hr⟩ | ⟨c, hc, -⟩
    · exact .inl ⟨map_eq_nil_iff.1 hk, hv⟩
    · exact .inr ⟨c, hc, hvis, holdsIn_of_routeIn hr⟩
    · rw [show ps = [] from hp] at hc
      cases hc
  · rintro (⟨rfl, hv⟩ | ⟨c, hc, hvis, r, rfl, hr⟩)
    · exact .here hv
    · unfold Holds at hr ⊢
      rw [map_append]
      exact .child hc hvis hr

theorem HoldsBelow.holds (h : HoldsBelow n k v) (hp : n.pchildren = []) : Holds n k v :=
  (holds_iff hp).2 (.inr h)

theorem HoldsBelow.intro (hc : c ∈ n.children) (hvis : Visible c.firstByte) (h : HoldsIn c k v) :
    HoldsBelow n k v := ⟨c, hc, hvis, h⟩

theorem HoldsIn.head (h : HoldsIn c k v) (hn : Literal n) (hc : c ∈ n.children) :
    ∃ k', k = c.firstByte :: k' := by
  obtain ⟨r, rfl, -⟩ := h
  obtain ⟨text, htext⟩ := hn.text_eq hc
  exact ⟨text ++ r, by rw [htext, cons_append]⟩

end

/-! ## Lookup -/

section

variable {parse : RParserFn → Option (List UInt8) → List UInt8 → Option RParse}
  {n : RNode V} {key : List UInt8}

/-- What a lookup of `key` among the keys `held` must return: the longest one that `key` begins
with. -/
def FoundKey (held : List UInt8 → V → Prop) (key : List UInt8) (ret : Option (RNode V)) : Prop :=
  match ret with
  | none => ∀ k v, held k v → ¬ k <+: key
  | some node => ∃ k v, node.value = some v ∧ held k v ∧ k <+: key ∧
      ∀ k' v', held k' v' → k' <+: key → k'.length ≤ k.length

theorem matchLen_append (text s : List UInt8) : matchLen false (text ++ s) text = text.length := by
  induction text with
  | nil => cases s <;> rfl
  | cons b text ih =>
    rw [cons_append, matchLen, if_neg (by simp), ih, length_cons]

theorem lookupLen_append (s : List UInt8) : lookupLen n (n.text ++ s) = n.text.length := by
  have hlen := keylen_cases n
  unfold lookupLen
  split
  · omega
  · cases htext : n.text with
    | nil =>
      rw [htext, length_nil] at hlen
      omega
    | cons b text =>
      rw [cons_append, drop_one, tail_cons, drop_one, tail_cons,
        matchLen_append, length_cons, Nat.add_comm]

theorem tryChild_foundKey (hn : Literal n) {ofs : Nat} {ms : Option (List RParserMatch)}
    {find : RNode V → Nat → List UInt8 → Option (List RParserMatch) → Option (RFound V)}
    (hfind : ∀ c ∈ n.children, key.head? = c.text.head? →
      ∃ ret, find c ofs key ms = some (ret, ms) ∧ FoundKey (HoldsIn c) key ret) :
    ∃ ret, tryChild find n ofs key ms = some (ret, ms) ∧ FoundKey (HoldsBelow n) key ret := by
  unfold tryChild
  -- a key below the node is found through the child that its first byte names
  have hwhere : ∀ k v, HoldsBelow n k v → k <+: key → ∃ c ndx,
      rFindChild n (key.headD 0) = some ndx ∧ n.children[ndx]? = some c ∧ HoldsIn c k v := by
    rintro k v ⟨c, hc, hvis, hheld⟩ ⟨s, rfl⟩
    obtain ⟨k', rfl⟩ := hheld.head hn hc
    obtain ⟨ndx, hndx, hget⟩ := rFindChild_of_mem hn hc hvis.2
    exact ⟨c, ndx, hndx, hget, hheld⟩
  cases hndx : rFindChild n (key.headD 0) with
  | none =>
    refine ⟨none, rfl, fun k v hheld hpre => ?_⟩
    obtain ⟨c, ndx, hsome, -⟩ := hwhere k v hheld hpre
    rw [hndx] at hsome
    cases hsome
  | some ndx =>
    obtain ⟨c, hget, hfirst, hlow⟩ := rFindChild_found hndx
    have hc := mem_of_getElem? hget
    have hheld : ∀ k v, HoldsBelow n k v → k <+: key → HoldsIn c k v := by
      intro k v hheld hpre
      obtain ⟨c', ndx', hndx', hget', hheld'⟩ := hwhere k v hheld hpre
      rw [hndx, some_inj] at hndx'
      rw [← hndx', hget, some_inj] at hget'
      exact hget' ▸ hheld'
    obtain ⟨text, htext⟩ := hn.text_eq hc
    have hhead : key.head? = c.text.head? := by
      rw [htext, head?_cons, hfirst]
      cases key with
      | nil =>
        exfalso
        apply (hn.text hc).2
        rw [htext, hfirst]
        exact mem_cons_self
      | cons b key => rfl
    obtain ⟨ret, heq, hfound⟩ := hfind c hc hhead
    refine ⟨ret, ?_, ?_⟩
    · simp only [bind_some, hget]
      exact heq
    · cases ret with
      | none => exact fun k v hk hpre => hfound k v (hheld k v hk hpre) hpre
      | some node =>
        obtain ⟨k, v, hv, hk, hpre, hmax⟩ := hfound
        refine ⟨k, v, hv, ⟨c, hc, ?_, hk⟩, hpre, fun k' v' hk' hp' =>
          hmax k' v' (hheld k' v' hk' hp') hp'⟩
        rw [hn.visible_iff hc, hfirst]
        exact hlow

/-- **A lookup** in a literal tree finds the longest key that it holds, and leaves `matches` as it
is. -/
theorem findNode_foundKey {depth ofs : Nat} {ms : Option (List RParserMatch)} (hdepth : n.height < depth)
    (hn : Literal n) (hfirst : n.text ≠ [] → key.head? = n.text.head?) :
    ∃ ret, findNode parse depth n ofs key ms = some (ret, ms) ∧ FoundKey (HoldsIn n) key ret := by
  induction depth generalizing n ofs key with
  | zero => omega
  | succ depth ih =>
    obtain ⟨hle, hle', htake⟩ := lookupLen_spec hfirst
    have hlen := keylen_cases n
    have hwhole : n.text <+: key → lookupLen n key = n.text.length := by
      rintro ⟨s, rfl⟩
      exact lookupLen_append s
    rw [findNode]
    simp only
    generalize lookupLen n key = i at *
    have hkey : i = n.text.length → key = n.text ++ key.drop i := by
      intro hi
      conv_lhs => rw [← take_append_drop i key, htake, hi, take_length]
      rw [hi]
    -- the value of the node is the last resort
    have hown : ∀ s, key = n.text ++ s → (∀ k v, HoldsBelow n k v → ¬ k <+: s) →
        FoundKey (HoldsIn n) key (if n.value.isSome then some n else none) := by
      rintro s rfl hnone
      have hroot : ∀ k v, HoldsIn n k v → k <+: n.text ++ s → k = n.text ∧ n.value = some v := by
        rintro k v ⟨r, rfl, hr⟩ hpre
        rcases (holds_iff hn.pchildren).1 hr with ⟨rfl, hv⟩ | hbelow
        · exact ⟨append_nil _, hv⟩
        · exact absurd ((prefix_append_right_inj _).1 hpre) (hnone r v hbelow)
      cases hv : n.value with
      | none =>
        intro k v hk hpre
        rw [hv] at hroot
        cases (hroot k v hk hpre).2
      | some v =>
        refine ⟨n.text, v, hv, ⟨[], (append_nil _).symm, .here hv⟩, prefix_append _ _, ?_⟩
        intro k' v' hk' hpre
        rw [(hroot k' v' hk' hpre).1]
    by_cases hend : i = key.length ∧ ((i : Int) = n.keylen ∨ n.keylen = -1)
    · rw [if_pos hend]
      have hi : i = n.text.length := by omega
      refine ⟨_, rfl, hown _ (hkey hi) ?_⟩
      rintro k v ⟨c, hc, -, hk⟩ hpre
      obtain ⟨k', rfl⟩ := hk.head hn hc
      rw [hend.1, drop_length, prefix_nil] at hpre
      cases hpre
    rw [if_neg hend]
    by_cases hdown : n.keylen < 1 ∨ i < key.length ∧ n.keylen ≤ i
    swap
    · rw [if_neg hdown]
      refine ⟨none, rfl, ?_⟩
      rintro k v ⟨r, rfl, -⟩ hpre
      have := hwhole ((prefix_append _ _).trans hpre)
      omega
    rw [if_pos hdown]
    have hi : i = n.text.length := by omega
    obtain ⟨ret, heq, hfound⟩ := @tryChild_foundKey V n (key.drop i) hn (ofs + i) ms
      (findNode parse depth) (fun c hc hhead =>
        ih (by have := RNode.height_child hc; omega) (hn.child hc) fun _ => hhead)
    rw [heq, bind_some]
    cases ret with
    | none =>
      simp only [isSome_none, Bool.false_eq_true, if_false, hn.pchildren, tryPchildren, map_some]
      refine ⟨_, ?_, hown _ (hkey hi) hfound⟩
      cases ms with
      | none => rfl
      | some ms => simp only [map_some, getD_some, take_left']
    | some node =>
      obtain ⟨k, v, hv, hk, hpre, hmax⟩ := hfound
      refine ⟨some node, rfl, n.text ++ k, v, hv, ⟨k, rfl, hk.holds hn.pchildren⟩, ?_, ?_⟩
      · rw [hkey hi, prefix_append_right_inj]
        exact hpre
      · rintro k' v' ⟨r, rfl, hr⟩ hpre'
        rw [length_append, length_append]
        rw [hkey hi, prefix_append_right_inj] at hpre'
        rcases (holds_iff hn.pchildren).1 hr with ⟨rfl, -⟩ | hbelow
        · rw [length_nil]
          omega
        · have := hmax r v' hbelow hpre'
          omega

end

/-! ## Insertion -/

section

variable {newPnode : List UInt8 → Option RParserNode} {n : RNode V} {key : List UInt8} {v : V}

theorem matchLen_split (key text : List UInt8) :
    ∃ p key' text', key = p ++ key' ∧ text = p ++ text' ∧ matchLen false key text = p.length ∧
    ∀ x xs y ys, text' = x :: xs → key' = y :: ys → x ≠ y := by
  induction key generalizing text with
  | nil => exact ⟨[], [], text, rfl, rfl, rfl, fun x xs y ys _ h => by cases h⟩
  | cons k key ih =>
    cases text with
    | nil => exact ⟨[], k :: key, [], rfl, rfl, rfl, fun x xs y ys h _ => by cases h⟩
    | cons t text =>
      by_cases hkt : k = t
      · subst hkt
        obtain ⟨p, key', text', rfl, rfl, hlen, hne⟩ := ih text
        refine ⟨k :: p, key', text', rfl, rfl, ?_, hne⟩
        rw [matchLen, if_neg (by simp), hlen, length_cons]
      · refine ⟨[], k :: key, t :: text, rfl, rfl, ?_, ?_⟩
        · rw [matchLen, if_pos (.inl hkt)]
          rfl
        · rintro x xs y ys h1 h2 rfl
          cases h1
          cases h2
          exact hkt rfl

inductive LiteralStep (insert : RNode V → List UInt8 → Option (RNode V)) (v : V) (n : RNode V)
    (key : List UInt8) : RNode V → Prop where
  | child {r : List UInt8} {ndx : Nat} {c c' : RNode V} : key = n.text ++ r → r ≠ [] →
      rFindChild n (r.headD 0) = some ndx → n.children[ndx]? = some c → insert c r = some c' →
      LiteralStep insert v n key (n.withChildren (n.children.set ndx c'))
  | leaf {r : List UInt8} : key = n.text ++ r → r ≠ [] → rFindChild n (r.headD 0) = none →
      LiteralStep insert v n key (rAddChild n (rNewNode r (some v)))
  | value : key = n.text → LiteralStep insert v n key (n.setValue v)
  | split {p text rest : List UInt8} {x y : UInt8} : p ≠ [] → n.text = p ++ x :: text →
      key = p ++ y :: rest → x ≠ y →
      LiteralStep insert v n key (rAddChild (rSplit n p.length) (rNewNode (y :: rest) (some v)))
  | cut {text : List UInt8} {x : UInt8} : n.text = key ++ x :: text →
      LiteralStep insert v n key ((rSplit n key.length).setValue v)

theorem insertNode_literalStep {depth : Nat} {n' : RNode V} (hkey : key ≠ [])
    (hfirst : n.text ≠ [] → key.head? = n.text.head?)
    (h : insertNode newPnode false v (depth + 1) n key = some n') :
    LiteralStep (insertNode newPnode false v depth) v n key n' := by
  have hlen := keylen_cases n
  rw [insertNode, if_neg (by simp), rInsertLiteral] at h
  obtain ⟨p, rest, text, hk, ht, hmatch, hne⟩ := matchLen_split key n.text
  have hp : p = [] → n.text = [] := by
    rintro rfl
    by_contra htext
    have hhead := hfirst htext
    rw [ht] at htext hhead
    rw [hk] at hkey hhead
    obtain ⟨x, xs, rfl⟩ := exists_cons_of_ne_nil htext
    obtain ⟨y, ys, rfl⟩ := exists_cons_of_ne_nil hkey
    exact hne x xs y ys rfl rfl (some.inj hhead).symm
  have hklen := congrArg length hk
  have htlen := congrArg length ht
  rw [length_append] at hklen htlen
  have hdrop : key.drop p.length = rest := by rw [hk, drop_left]
  have hnext : key.getD p.length 0 = rest.headD 0 := by
    rw [headD_eq_head?_getD, ← hdrop, head?_drop, getD_eq_getElem?_getD]
  simp only [hmatch, hdrop, hnext, Bool.false_eq_true, false_and, if_false, rAddChildCheck] at h
  by_cases hdown : n.keylen = 0 ∨ p.length = 0 ∨ p.length < key.length ∧ n.keylen ≤ p.length
  · rw [if_pos hdown] at h
    have htnil : n.text = p := by
      have hzero : p.length = 0 → n.text.length = 0 := fun h0 => by
        rw [hp (length_eq_zero_iff.1 h0), length_nil]
      have : text.length = 0 := by omega
      rw [ht, length_eq_zero_iff.1 this, append_nil]
    have hrest : rest ≠ [] := by
      rintro rfl
      rw [append_nil] at hk
      have hpos := length_pos_iff.2 hkey
      rw [htnil] at hlen
      rw [hk] at hdown hpos
      omega
    rw [← htnil] at hk
    cases hfind : rFindChild n (rest.headD 0) with
    | none =>
      rw [hfind] at h
      cases h
      exact .leaf hk hrest hfind
    | some ndx =>
      rw [hfind] at h
      obtain ⟨c, hc, -⟩ := rFindChild_found hfind
      simp only [hc, bind_some] at h
      obtain ⟨c', hc', rfl⟩ := map_eq_some_iff.1 h
      exact .child hk hrest hfind hc hc'
  · rw [if_neg hdown] at h
    by_cases hexact : p.length = key.length ∧ (p.length : Int) = n.keylen
    · rw [if_pos hexact] at h
      cases h
      apply LiteralStep.value
      rw [hk, ht, length_eq_zero_iff.1 (show rest.length = 0 by omega),
        length_eq_zero_iff.1 (show text.length = 0 by omega)]
    · rw [if_neg hexact, if_pos (by omega)] at h
      obtain ⟨x, xs, rfl⟩ := exists_cons_of_ne_nil
        (length_pos_iff.1 (show 0 < text.length by omega))
      by_cases hrest : p.length < key.length
      · rw [if_pos hrest] at h
        cases h
        obtain ⟨y, ys, rfl⟩ := exists_cons_of_ne_nil
          (length_pos_iff.1 (show 0 < rest.length by omega))
        exact .split (length_pos_iff.1 (by omega)) ht hk (hne x xs y ys rfl rfl)
      · rw [if_neg hrest] at h
        cases h
        rw [length_eq_zero_iff.1 (show rest.length = 0 by omega), append_nil] at hk
        rw [← hk] at ht ⊢
        exact .cut ht

end

/-! ## Literal trees stay literal -/

section

variable {newPnode : List UInt8 → Option RParserNode} {n c c' : RNode V} {key : List UInt8} {v : V}

theorem Literal.setValue (h : Literal n) : Literal (n.setValue v) :=
  .mk h.pchildren h.sorted h.distinct (fun _ hc => h.text hc) fun _ hc => h.child hc

theorem Literal.leaf {k : Option (List UInt8)} {p : Option RParserNode} {value : Option V} :
    Literal (.mk k p value [] []) :=
  .mk rfl .nil .nil (fun _ hc => by cases hc) fun _ hc => by cases hc

theorem Literal.rAddChild (h : Literal n) (hc : Literal c) (htext : c.text ≠ [] ∧ 0 ∉ c.text)
    (hnew : ∀ d ∈ n.children, d.firstByte = c.firstByte → 128 ≤ d.firstByte.toNat) :
    Literal (rAddChild n c) := by
  have hle : ∀ a b : RNode V, rNodeLe a b ∨ rNodeLe b a := fun a b =>
    le_total a.firstByte.toNat b.firstByte.toNat
  have htrans : ∀ a b d : RNode V, rNodeLe a b → rNodeLe b d → rNodeLe a d := fun a b d =>
    le_trans
  have : Std.Total (rNodeLe (V := V)) := ⟨hle⟩
  have : IsTrans (RNode V) rNodeLe := ⟨htrans⟩
  refine .mk h.pchildren (pairwise_insertionSort _ _) ?_ ?_ ?_
  · refine ((perm_insertionSort _ _).pairwise_iff ?_).2 ?_
    · intro a b hab heq
      rw [heq]
      exact hab heq.symm
    · rw [pairwise_append]
      refine ⟨h.distinct, pairwise_singleton _ _, fun a ha b hb => ?_⟩
      rw [mem_singleton.1 hb]
      exact hnew a ha
  · intro a ha
    rcases mem_children_rAddChild.1 ha with hold | rfl
    · exact h.text hold
    · exact htext
  · intro a ha
    rcases mem_children_rAddChild.1 ha with hold | rfl
    · exact h.child hold
    · exact hc

theorem Literal.setChild {ndx : Nat} (h : Literal n) (hget : n.children[ndx]? = some c) (hc : Literal c')
    (htext : c'.text ≠ [] ∧ 0 ∉ c'.text) (hfirst : c'.firstByte = c.firstByte) :
    Literal (n.withChildren (n.children.set ndx c')) := by
  -- the first bytes of the children are what they were
  have hmap : (n.children.set ndx c').map RNode.firstByte = n.children.map RNode.firstByte := by
    obtain ⟨hlt, hget⟩ := List.getElem?_eq_some_iff.1 hget
    apply ext_getElem
    · rw [length_map, length_map, length_set]
    · intro i h1 h2
      rw [getElem_map, getElem_map, getElem_set]
      split
      · rename_i hi
        subst hi
        rw [hget, hfirst]
      · rfl
  have hpair : ∀ (R : UInt8 → UInt8 → Prop),
      n.children.Pairwise (fun a b => R a.firstByte b.firstByte) →
      (n.children.set ndx c').Pairwise (fun a b => R a.firstByte b.firstByte) := by
    intro R hR
    rw [← pairwise_map, hmap, pairwise_map]
    exact hR
  refine .mk h.pchildren (hpair (fun a b => a.toNat ≤ b.toNat) h.sorted)
    (hpair (fun a b => a = b → 128 ≤ a.toNat) h.distinct) ?_ ?_
  · intro a ha
    rcases mem_or_eq_of_mem_set ha with hold | rfl
    · exact h.text hold
    · exact htext
  · intro a ha
    rcases mem_or_eq_of_mem_set ha with hold | rfl
    · exact h.child hold
    · exact hc

theorem Literal.rSplit {i : Nat} (h : Literal n) (hlt : i < n.text.length) (hnul : 0 ∉ n.text) :
    Literal (rSplit n i) := by
  refine Literal.leaf.rAddChild ?_ ⟨?_, fun hm => hnul (mem_of_mem_drop hm)⟩ ?_
  · exact .mk h.pchildren h.sorted h.distinct (fun _ hc => h.text hc) fun _ hc => h.child hc
  · intro hnil
    have := drop_eq_nil_iff.1 (show n.text.drop i = [] from hnil)
    omega
  · intro d hd
    cases hd

theorem firstByte_of_isPrefix (h : c'.text <+: c.text) (hne : c'.text ≠ []) :
    c'.firstByte = c.firstByte := by
  obtain ⟨s, hs⟩ := h
  obtain ⟨b, text, htext⟩ := exists_cons_of_ne_nil hne
  unfold RNode.firstByte
  rw [← hs, htext]
  rfl

theorem text_rAddChild (n c : RNode V) : (rAddChild n c).text = n.text := rfl

theorem text_rSplit (n : RNode V) (i : Nat) : (rSplit n i).text = n.text.take i := rfl

theorem insertNode_literal {depth : Nat} {n' : RNode V} (hn : Literal n) (hkey : key ≠ [])
    (hnul : 0 ∉ key) (hfirst : n.text ≠ [] → key.head? = n.text.head?) (hnul' : 0 ∉ n.text)
    (h : insertNode newPnode false v depth n key = some n') :
    Literal n' ∧ n'.text <+: n.text ∧ (n.text ≠ [] → n'.text ≠ []) := by
  induction depth generalizing n key n' with
  | zero => cases h
  | succ depth ih =>
    cases insertNode_literalStep hkey hfirst h with
    | @child r ndx c c' hr hne hfind hget hins =>
      obtain ⟨a, ha, hfb, -⟩ := rFindChild_found hfind
      rw [hget, some_inj] at ha
      subst ha
      have hc := mem_of_getElem? hget
      obtain ⟨text, htext⟩ := hn.text_eq hc
      obtain ⟨hlit, hpre, hne'⟩ := ih (hn.child hc) hne
        (fun hm => hnul (hr ▸ mem_append_right _ hm)) (fun _ => by
          rw [htext, hfb]
          obtain ⟨b, bs, rfl⟩ := exists_cons_of_ne_nil hne
          rfl) (hn.text hc).2 hins
      have hne' := hne' (hn.text hc).1
      refine ⟨hn.setChild hget hlit ⟨hne', fun hm => (hn.text hc).2 (hpre.subset hm)⟩
        (firstByte_of_isPrefix hpre hne'), prefix_rfl, id⟩
    | @leaf r hr hne hfind =>
      refine ⟨hn.rAddChild Literal.leaf ⟨hne, fun hm => hnul (hr ▸ mem_append_right _ hm)⟩ ?_,
        prefix_rfl, id⟩
      intro d hd hfb
      by_contra hlow
      obtain ⟨ndx, hndx, -⟩ := rFindChild_of_mem hn hd (by omega)
      rw [hfb] at hndx
      have : rFindChild n (r.headD 0) = some ndx := hndx
      rw [hfind] at this
      cases this
    | value _ => exact ⟨hn.setValue, prefix_rfl, id⟩
    | @split p text rest x y hp ht hk hxy =>
      have hlt : p.length < n.text.length := by
        rw [ht, length_append, length_cons]
        omega
      have htake : (rSplit n p.length).text = p := by rw [text_rSplit, ht, take_left']; rfl
      refine ⟨(hn.rSplit hlt hnul').rAddChild Literal.leaf
        ⟨cons_ne_nil _ _, fun hm => hnul (hk ▸ mem_append_right _ hm)⟩ ?_, ?_, fun _ => ?_⟩
      · intro d hd hfb
        rcases mem_children_rAddChild.1 hd with hd | rfl
        · cases hd
        · exfalso
          apply hxy
          have : (n.text.drop p.length).headD 0 = y := hfb
          rwa [ht, drop_left' rfl] at this
      · rw [text_rAddChild, htake, ht]
        exact prefix_append _ _
      · rw [text_rAddChild, htake]
        exact hp
    | @cut text x ht =>
      have hlt : key.length < n.text.length := by
        rw [ht, length_append, length_cons]
        omega
      have htake : (rSplit n key.length).text = key := by rw [text_rSplit, ht, take_left']; rfl
      refine ⟨(hn.rSplit hlt hnul').setValue, ?_, fun _ => ?_⟩
      · show (rSplit n key.length).text <+: n.text
        rw [htake, ht]
        exact prefix_append _ _
      · show (rSplit n key.length).text ≠ []
        rwa [htake]

theorem Holds.partsLow {a b : List UInt8} {w : V} (hn : Literal n) (ha : Holds n a v) (hb : Holds n b w) :
    PartsLow a b := by
  induction hn generalizing a b v w with
  | @mk n hp hs hd ht hl ih =>
    have hn : Literal n := .mk hp hs hd ht hl
    rcases (holds_iff hp).1 ha with ⟨rfl, -⟩ | ⟨c, hc, hvis, hca⟩
    · exact trivial
    rcases (holds_iff hp).1 hb with ⟨rfl, -⟩ | ⟨c', hc', -, hcb⟩
    · obtain ⟨a', rfl⟩ := hca.head hn hc
      exact hvis.2
    · by_cases hsame : c = c'
      · subst hsame
        obtain ⟨ra, rfl, hra⟩ := hca
        obtain ⟨rb, rfl, hrb⟩ := hcb
        exact PartsLow.append_iff.2 (ih c hc hra hrb)
      · obtain ⟨a', rfl⟩ := hca.head hn hc
        obtain ⟨b', rfl⟩ := hcb.head hn hc'
        exact (PartsLow.of_ne fun heq => hsame (hn.eq_of_firstByte hc hc' heq hvis.2)).2 hvis.2

/-! ## Keys that part at low bytes are kept -/

inductive Live : RNode V → Prop where
  | mk {n : RNode V} : (∀ c ∈ n.children, ∃ k v, HoldsIn c k v) → (∀ c ∈ n.children, Live c) →
      Live n

theorem Live.holds (h : Live n) (hc : c ∈ n.children) : ∃ k v, HoldsIn c k v := by
  obtain ⟨h, -⟩ := h
  exact h c hc

theorem Live.child (h : Live n) (hc : c ∈ n.children) : Live c := by
  obtain ⟨-, h⟩ := h
  exact h c hc

theorem Live.rAddChild (h : Live n) (hc : Live c) (hk : ∃ k v, HoldsIn c k v) : Live (rAddChild n c) := by
  constructor
  · intro a ha
    rcases mem_children_rAddChild.1 ha with hold | rfl
    · exact h.holds hold
    · exact hk
  · intro a ha
    rcases mem_children_rAddChild.1 ha with hold | rfl
    · exact h.child hold
    · exact hc

theorem Live.leaf {k : Option (List UInt8)} {p : Option RParserNode} {value : Option V} :
    Live (.mk k p value [] []) := .mk (fun _ hc => by cases hc) fun _ hc => by cases hc

theorem holdsIn_rNewNode (k : List UInt8) : HoldsIn (rNewNode k (some v)) k v :=
  ⟨[], (append_nil k).symm, .here rfl⟩

theorem Holds.mono {n' : RNode V} {k : List UInt8} {u : V} (h : Holds n k u) (hp : n.pchildren = [])
    (hp' : n'.pchildren = []) (hvalue : n.value = some u → n'.value = some u)
    (hbelow : HoldsBelow n k u → HoldsBelow n' k u) : Holds n' k u := by
  rcases (holds_iff hp).1 h with ⟨hk, hv⟩ | h
  · exact (holds_iff hp').2 (.inl ⟨hk, hvalue hv⟩)
  · exact (hbelow h).holds hp'

theorem Holds.rAddChild {k : List UInt8} {u : V} (h : Holds n k u) (hp : n.pchildren = []) :
    Holds (rAddChild n c) k u := by
  refine h.mono hp hp id ?_
  rintro ⟨a, ha, hvis, hk⟩
  exact ⟨a, mem_children_rAddChild.2 (.inl ha), hvis, hk⟩

theorem Holds.setValue {k : List UInt8} {u : V} (h : Holds n k u) (hp : n.pchildren = []) :
    Holds (n.setValue v) k u := by
  refine h.mono hp hp (fun hu => ?_) id
  show n.value.or (some v) = some u
  rw [hu]
  rfl

theorem holds_rNewNode_child {r : List UInt8} (hp : n.pchildren = []) (hvis : Visible (r.headD 0)) :
    Holds (DbParser.rAddChild n (rNewNode r (some v))) r v := by
  have h : HoldsBelow (DbParser.rAddChild n (rNewNode r (some v))) r v :=
    ⟨_, mem_children_rAddChild.2 (.inr rfl), hvis, holdsIn_rNewNode r⟩
  exact h.holds hp

theorem holds_setValue_nil (n : RNode V) (v : V) : ∃ u, Holds (n.setValue v) [] u := by
  have : ∃ u, (n.setValue v).value = some u := by
    show ∃ u, n.value.or (some v) = some u
    cases n.value with
    | none => exact ⟨v, rfl⟩
    | some u => exact ⟨u, rfl⟩
  obtain ⟨u, hu⟩ := this
  exact ⟨u, .here hu⟩

theorem holds_rSplit {p text : List UInt8} {x : UInt8} (hp : n.pchildren = [])
    (ht : n.text = p ++ x :: text) (hx : Visible x) {k : List UInt8} {u : V} (h : HoldsIn n k u) :
    ∃ r, k = p ++ r ∧ Holds (rSplit n p.length) r u := by
  obtain ⟨r, rfl, hr⟩ := h
  have hdrop : n.text.drop p.length = x :: text := by rw [ht, drop_left' rfl]
  refine ⟨x :: text ++ r, by rw [ht, append_assoc], ?_⟩
  refine (holds_iff rfl).2 (.inr ⟨_, mem_children_rAddChild.2 (.inr rfl), ?_, r, ?_, ?_⟩)
  · show Visible ((n.text.drop p.length).headD 0)
    rw [hdrop]
    exact hx
  · show x :: text ++ r = n.text.drop p.length ++ r
    rw [hdrop]
  · exact hr.mono hp hp id id

theorem Live.rSplit {i : Nat} (hp : n.pchildren = []) (h : Live n) (hk : ∃ k u, HoldsIn n k u) :
    Live (rSplit n i) := by
  refine Live.leaf.rAddChild (.mk (fun _ hc => h.holds hc) fun _ hc => h.child hc) ?_
  obtain ⟨k, u, r, -, hr⟩ := hk
  exact ⟨_, u, r, rfl, hr.mono hp hp id id⟩

theorem text_rSplit_of_append {p text : List UInt8} (ht : n.text = p ++ text) :
    (rSplit n p.length).text = p := by
  rw [text_rSplit, ht, take_left']
  rfl

/-- **An insertion** of a key that parts at low bytes from those that the node holds keeps them, and
the key is held as well. -/
theorem insertNode_keeps {depth : Nat} {n' : RNode V} (hn : Literal n) (hlive : Live n) (hkey : key ≠ [])
    (hnul : 0 ∉ key) (hfirst : n.text ≠ [] → key.head? = n.text.head?) (hnul' : 0 ∉ n.text)
    (hparts : ∀ k u, HoldsIn n k u → PartsLow key k ∧ PartsLow k key)
    (hsome : (n.text = [] ∧ PartsLow key []) ∨ ∃ k u, HoldsIn n k u)
    (h : insertNode newPnode false v depth n key = some n') :
    Live n' ∧ (∀ k u, HoldsIn n k u → HoldsIn n' k u) ∧ ∃ u, HoldsIn n' key u := by
  induction depth generalizing n key n' with
  | zero => cases h
  | succ depth ih =>
    have hstep := insertNode_literalStep hkey hfirst h
    cases hstep with
    | @child r ndx c c' hr hne hfind hget hins =>
      obtain ⟨a, ha, hfb, hlow⟩ := rFindChild_found hfind
      rw [hget, some_inj] at ha
      subst ha
      have hc := mem_of_getElem? hget
      have hvis : Visible c.firstByte := (hn.visible_iff hc).2 (hfb ▸ hlow)
      have hnulr : 0 ∉ r := fun hm => hnul (hr ▸ mem_append_right _ hm)
      obtain ⟨text, htext⟩ := hn.text_eq hc
      have hhead : c.text ≠ [] → r.head? = c.text.head? := fun _ => by
        rw [htext, hfb]
        obtain ⟨b, bs, rfl⟩ := exists_cons_of_ne_nil hne
        rfl
      obtain ⟨hlit, hpre, hne'⟩ :=
        insertNode_literal (hn.child hc) hne hnulr hhead (hn.text hc).2 hins
      have hfb' := firstByte_of_isPrefix hpre (hne' (hn.text hc).1)
      obtain ⟨hlive', hkeep, w, hw⟩ := ih (hn.child hc) (hlive.child hc) hne hnulr hhead
        (hn.text hc).2 (by
          intro k u hk
          have := hparts (n.text ++ k) u ⟨k, rfl, (HoldsBelow.intro hc hvis hk).holds hn.pchildren⟩
          rwa [hr, PartsLow.append_iff, PartsLow.append_iff] at this)
        (.inr (hlive.holds hc)) hins
      have hmem : c' ∈ n.children.set ndx c' :=
        mem_set (List.getElem?_eq_some_iff.1 hget).1 c'
      have hvis' : Visible c'.firstByte := hfb' ▸ hvis
      refine ⟨.mk ?_ ?_, ?_, w, r, hr, ?_⟩
      · intro d hd
        rcases mem_or_eq_of_mem_set hd with hold | rfl
        · exact hlive.holds hold
        · exact ⟨r, w, hw⟩
      · intro d hd
        rcases mem_or_eq_of_mem_set hd with hold | rfl
        · exact hlive.child hold
        · exact hlive'
      · rintro k u ⟨s, rfl, hs⟩
        refine ⟨s, rfl, hs.mono hn.pchildren hn.pchildren id ?_⟩
        rintro ⟨d, hd, hvisd, hk⟩
        by_cases hsame : d = c
        · subst hsame
          exact ⟨c', hmem, hvis', hkeep s u hk⟩
        · refine ⟨d, ?_, hvisd, hk⟩
          obtain ⟨i, hi, rfl⟩ := getElem_of_mem hd
          have hi' : i ≠ ndx := by
            rintro rfl
            exact hsame (some.inj ((getElem?_eq_getElem hi).symm.trans hget))
          refine mem_of_getElem? (i := i) ?_
          show (n.children.set ndx c')[i]? = _
          rw [getElem?_set_ne hi'.symm, getElem?_eq_getElem hi]
      · have hbelow : HoldsBelow (n.withChildren (n.children.set ndx c')) r w :=
          ⟨c', hmem, hvis', hw⟩
        exact hbelow.holds hn.pchildren
    | @leaf r hr hne hfind =>
      have hlow : Visible (r.headD 0) := by
        obtain ⟨b, bs, rfl⟩ := exists_cons_of_ne_nil hne
        refine ⟨fun h0 => hnul (hr ▸ mem_append_right _ (by simp at h0; simp [h0])), ?_⟩
        rcases hsome with ⟨htext, hlow⟩ | ⟨k, u, s, rfl, hs⟩
        · rw [hr, htext, nil_append] at hlow
          exact hlow
        · obtain ⟨hlow, -⟩ := hparts _ u ⟨s, rfl, hs⟩
          rw [hr, PartsLow.append_iff] at hlow
          -- a key that went on with the same high byte would not be held
          rcases (holds_iff hn.pchildren).1 hs with ⟨rfl, -⟩ | ⟨c, hc, hvis, hk⟩
          · exact hlow
          · obtain ⟨k', rfl⟩ := hk.head hn hc
            by_cases hb : b = c.firstByte
            · rw [hb]
              exact hvis.2
            · exact (PartsLow.of_ne hb).1 hlow
      refine ⟨hlive.rAddChild .leaf ⟨r, v, holdsIn_rNewNode r⟩, ?_, v, r, hr, ?_⟩
      · rintro k u ⟨s, rfl, hs⟩
        exact ⟨s, rfl, hs.rAddChild hn.pchildren⟩
      · exact holds_rNewNode_child hn.pchildren hlow
    | value hk =>
      refine ⟨.mk (fun _ hc => hlive.holds hc) fun _ hc => hlive.child hc, ?_, ?_⟩
      · rintro k u ⟨s, rfl, hs⟩
        exact ⟨s, rfl, hs.setValue hn.pchildren⟩
      · obtain ⟨u, hu⟩ := holds_setValue_nil n v
        exact ⟨u, [], by rw [append_nil, hk]; rfl, hu⟩
    | @split p text rest x y hp ht hk hxy =>
      obtain ⟨k, u, hku⟩ := hsome.resolve_left fun hnil => by
        rw [ht] at hnil
        exact append_ne_nil_of_right_ne_nil p (cons_ne_nil x text) hnil.1
      have hlow : y.toNat < 128 ∧ x.toNat < 128 := by
        have hlow := hparts k u hku
        obtain ⟨r, rfl, -⟩ := hku
        rw [ht, hk, append_assoc, PartsLow.append_iff, PartsLow.append_iff, cons_append,
          PartsLow.of_ne hxy.symm, PartsLow.of_ne hxy] at hlow
        exact hlow
      have hx : Visible x := ⟨fun h0 => hnul' (by simp [ht, h0]), hlow.2⟩
      have hy : Visible y := ⟨fun h0 => hnul (by simp [hk, h0]), hlow.1⟩
      refine ⟨(hlive.rSplit hn.pchildren ⟨k, u, hku⟩).rAddChild .leaf
        ⟨y :: rest, v, holdsIn_rNewNode _⟩, ?_, v, y :: rest, ?_, holds_rNewNode_child rfl hy⟩
      · intro k u hk
        obtain ⟨r, rfl, hr⟩ := holds_rSplit hn.pchildren ht hx hk
        exact ⟨r, by rw [text_rAddChild, text_rSplit_of_append ht], hr.rAddChild rfl⟩
      · rw [text_rAddChild, text_rSplit_of_append ht, hk]
    | @cut text x ht =>
      obtain ⟨k, u, hku⟩ := hsome.resolve_left fun hnil => by
        rw [ht] at hnil
        exact append_ne_nil_of_right_ne_nil key (cons_ne_nil x text) hnil.1
      have hlow : x.toNat < 128 := by
        have hlow := (hparts k u hku).2
        obtain ⟨r, rfl, -⟩ := hku
        rw [ht, append_assoc, PartsLow.append_right] at hlow
        exact hlow
      have hx : Visible x := ⟨fun h0 => hnul' (by simp [ht, h0]), hlow⟩
      have hlive' : Live (rSplit n key.length) := hlive.rSplit hn.pchildren ⟨k, u, hku⟩
      have htext : ((rSplit n key.length).setValue v).text = key := text_rSplit_of_append ht
      refine ⟨.mk (fun _ hc => hlive'.holds hc) fun _ hc => hlive'.child hc, ?_, ?_⟩
      · intro k u hk
        obtain ⟨r, rfl, hr⟩ := holds_rSplit hn.pchildren ht hx hk
        exact ⟨r, by rw [htext], hr.setValue rfl⟩
      · obtain ⟨w, hw⟩ := holds_setValue_nil (rSplit n key.length) v
        exact ⟨w, [], by rw [htext, append_nil], hw⟩

/-! ## Trees of literal keys -/

theorem Pattern.eq_key {items : List UInt8} (h : Pattern newPnode false key (items.map .byte)) :
    items = key := by
  generalize heq : items.map RItem.byte = l at h
  induction h generalizing items with
  | nil => exact map_eq_nil_iff.1 heq
  | byte _ _ ih =>
    obtain ⟨b, bs, rfl, hb, hbs⟩ := map_eq_cons_iff.1 heq
    cases hb
    rw [ih hbs]
  | escape hp => cases hp
  | parser hp => cases hp

theorem rBuild_holds {inserts : List (List UInt8 × V)} {root : RNode V}
    (hbuild : rBuild newPnode false inserts = some root) (h : Holds root key v) : (key, v) ∈ inserts := by
  obtain ⟨root', hbuild', -, -, hroutes⟩ :=
    @rBuild_routes V newPnode false Visible (fun h => h.1 rfl) inserts
  obtain rfl : root = root' := some.inj (hbuild.symm.trans hbuild')
  obtain ⟨k, hmem, hpat⟩ := hroutes _ v h
  rwa [hpat.eq_key]

theorem KeysPartLow.of_append {keys keys' : List (List UInt8)} (h : KeysPartLow (keys ++ keys')) :
    KeysPartLow keys := by
  intro a ha b hb
  refine h a (mem_append_left _ ha) b ?_
  rcases mem_cons.1 hb with rfl | hb
  · exact mem_cons_self
  · exact mem_cons_of_mem _ (mem_append_left _ hb)

theorem rBuild_literal (value : List UInt8 → V) {keys : List (List UInt8)}
    (hkeys : ∀ k ∈ keys, k ≠ [] ∧ 0 ∉ k) :
    ∃ root, rBuild newPnode false (keys.map fun k => (k, value k)) = some root ∧ Literal root ∧
      root.text = [] ∧ (KeysPartLow keys → Live root ∧ ∀ k ∈ keys, ∃ u, Holds root k u) := by
  induction keys using reverseRecOn with
  | nil => exact ⟨rNewNode [] none, rfl, .leaf, rfl, fun _ => ⟨.leaf, fun k hk => by cases hk⟩⟩
  | append_singleton keys key ih =>
    obtain ⟨root, hbuild, hlit, htext, hheld⟩ :=
      ih fun k hk => hkeys k (mem_append_left _ hk)
    obtain ⟨hne, hnul⟩ := hkeys key (mem_append_right _ mem_cons_self)
    have hnil : ∀ {k u}, HoldsIn root k u → Holds root k u := by
      rintro k u ⟨r, rfl, hr⟩
      rwa [htext]
    obtain ⟨root', hins⟩ := isSome_iff_exists.1
      (@insertNode_isSome V newPnode false (value key) root key _ (Nat.lt_succ_self _))
    have hfirst : root.text ≠ [] → key.head? = root.text.head? := fun h => absurd htext h
    have hnul' : 0 ∉ root.text := by
      rw [htext]
      exact not_mem_nil
    obtain ⟨hlit', hpre, -⟩ := insertNode_literal hlit hne hnul hfirst hnul' hins
    have htext' : root'.text = [] := by
      rw [htext] at hpre
      exact prefix_nil.1 hpre
    refine ⟨root', ?_, hlit', htext', fun hlow => ?_⟩
    · unfold rBuild at hbuild ⊢
      rw [map_append, foldlM_append, hbuild, map_singleton]
      show (rInsertNode newPnode root key (value key) false).bind _ = _
      rw [show rInsertNode newPnode root key (value key) false = some root' from hins]
      rfl
    · obtain ⟨hlive, hall⟩ := hheld hlow.of_append
      have hmem : ∀ k u, HoldsIn root k u → k ∈ keys := by
        intro k u hk
        obtain ⟨k', hk', heq⟩ := mem_map.1 (rBuild_holds hbuild (hnil hk))
        cases heq
        exact hk'
      have hlast : key ∈ keys ++ [key] := mem_append_right _ mem_cons_self
      obtain ⟨hlive', hkeep, w, hw⟩ := insertNode_keeps hlit hlive hne hnul hfirst hnul'
        (fun k u hk =>
          have hk := mem_append_left [key] (hmem k u hk)
          ⟨hlow key hlast k (mem_cons_of_mem _ hk), hlow k hk key (mem_cons_of_mem _ hlast)⟩)
        (.inl ⟨htext, hlow key hlast [] mem_cons_self⟩) hins
      have hroot : ∀ {k u}, HoldsIn root' k u → Holds root' k u := by
        rintro k u ⟨r, rfl, hr⟩
        rwa [htext']
      refine ⟨hlive', fun k hk => ?_⟩
      rcases mem_append.1 hk with hk | hk
      · obtain ⟨u, hu⟩ := hall k hk
        exact ⟨u, hroot (hkeep k u ⟨k, by rw [htext]; rfl, hu⟩)⟩
      · rw [mem_singleton.1 hk]
        exact ⟨w, hroot hw⟩

end

/-- **The literal tree is a longest-prefix map** for exactly those sets of keys that part from one
another, and from the root, at bytes below `0x80`: whatever the order of the insertions, a lookup
returns the node with the value of the longest key that the text begins with, or no node if there
is none. -/
theorem r_find_node_longest
    (parse : RParserFn → Option (List UInt8) → List UInt8 → Option RParse)
    (newPnode : List UInt8 → Option RParserNode) {keys : List (List UInt8)}
    (hkeys : ∀ k ∈ keys, k ≠ [] ∧ 0 ∉ k) :
    (∀ (V : Type) (value : List UInt8 → V) (text : List UInt8) (ms : Option (List RParserMatch)),
      ∃ root ret, rBuild newPnode false (keys.map fun k => (k, value k)) = some root ∧
        rFindNode parse root text ms = some (ret, ms) ∧
        FoundKey (fun k v => k ∈ keys ∧ v = value k) text ret) ↔ KeysPartLow keys := by
  constructor
  · intro h
    -- with the keys as their values, every key must be held
    obtain ⟨root, hbuild, hlit, htext, -⟩ := @rBuild_literal _ newPnode id keys hkeys
    have hheld : ∀ k ∈ keys, Holds root k k := by
      intro k hk
      obtain ⟨root', ret, hbuild', hfind, hfound⟩ := h _ id k none
      obtain rfl : root' = root := some.inj (hbuild'.symm.trans hbuild)
      obtain ⟨ret', hfind', hfound'⟩ := @findNode_foundKey _ parse root' k _ 0 none
        (Nat.lt_succ_self root'.height) hlit (fun h => absurd htext h)
      obtain rfl : ret' = ret := by
        have := hfind'.symm.trans hfind
        rw [some_inj, Prod.mk.injEq] at this
        exact this.1
      cases ret' with
      | none => exact absurd prefix_rfl (hfound k k ⟨hk, rfl⟩)
      | some node =>
        obtain ⟨k1, v1, hv1, ⟨-, hval⟩, hpre1, hmax⟩ := hfound
        obtain ⟨k2, v2, hv2, ⟨r, rfl, hr⟩, -, -⟩ := hfound'
        have hk1 : k1 = k := hpre1.eq_of_length_le (hmax k k ⟨hk, rfl⟩ prefix_rfl)
        have hv : v2 = k := (some.inj (hv2.symm.trans hv1)).trans (hval.trans hk1)
        obtain ⟨k3, -, heq⟩ := mem_map.1 (rBuild_holds hbuild hr)
        rw [Prod.mk.injEq] at heq
        have hr2 : r = v2 := heq.1.symm.trans heq.2
        rwa [hr2, hv] at hr
    intro a ha b hb
    rcases mem_cons.1 hb with rfl | hb
    · cases a with
      | nil => exact trivial
      | cons x a =>
        rcases (holds_iff hlit.pchildren).1 (hheld _ ha) with ⟨hnil, -⟩ | ⟨c, hc, hvis, hk⟩
        · cases hnil
        · obtain ⟨k', heq⟩ := hk.head hlit hc
          cases heq
          exact hvis.2
    · exact (hheld a ha).partsLow hlit (hheld b hb)
  · intro hlow V value text ms
    obtain ⟨root, hbuild, hlit, htext, hall⟩ := @rBuild_literal V newPnode value keys hkeys
    obtain ⟨ret, hfind, hfound⟩ := @findNode_foundKey V parse root text _ 0 ms
      (Nat.lt_succ_self root.height) hlit (fun h => absurd htext h)
    refine ⟨root, ret, hbuild, hfind, ?_⟩
    have hin : ∀ k v, HoldsIn root k v ↔ k ∈ keys ∧ v = value k := by
      intro k v
      have hsound : Holds root k v → k ∈ keys ∧ v = value k := by
        intro hk
        obtain ⟨k', hk', heq⟩ := mem_map.1 (rBuild_holds hbuild hk)
        cases heq
        exact ⟨hk', rfl⟩
      constructor
      · rintro ⟨r, rfl, hr⟩
        rw [htext] at hsound ⊢
        exact hsound hr
      · rintro ⟨hk, rfl⟩
        obtain ⟨u, hu⟩ := (hall hlow).2 k hk
        obtain ⟨k', -, heq⟩ := mem_map.1 (rBuild_holds hbuild hu)
        cases heq
        exact ⟨k, by rw [htext]; rfl, hu⟩
    rwa [show HoldsIn root = fun k v => k ∈ keys ∧ v = value k from
      funext fun k => funext fun v => propext (hin k v)] at hfound

/-- High bytes do no harm where keys go on together: `é1` and `é2` behind a letter. -/
theorem r_find_node_longest_shared : ∃ root ret,
    rBuild (fun _ => none) false [([97, 0xc3, 0xa9, 49], 1), ([97, 0xc3, 0xa9, 50], 2)] =
      some root ∧
    rFindNode (fun _ _ _ => none) root [97, 0xc3, 0xa9, 50, 0xff] none = some (ret, none) ∧
    FoundKey (fun k v => k ∈ [[97, 0xc3, 0xa9, 49], [97, 0xc3, 0xa9, 50]] ∧
      v = (k.getD 3 0).toNat - 48) [97, 0xc3, 0xa9, 50, 0xff] ret := by
  have hkeys : ∀ k ∈ [[97, 0xc3, 0xa9, 49], [97, 0xc3, 0xa9, 50]], k ≠ [] ∧ (0 : UInt8) ∉ k := by
    decide
  have hlow : KeysPartLow [[97, 0xc3, 0xa9, 49], [97, 0xc3, 0xa9, 50]] := by
    unfold KeysPartLow
    decide
  exact (r_find_node_longest (fun _ _ _ => none) (fun _ => none) hkeys).2 hlow Nat
    (fun k => (k.getD 3 0).toNat - 48) _ none

/-- A key that begins with the byte `0x80` is not found. -/
theorem r_find_node_misses_high_byte : ¬ ∃ root ret,
    rBuild (fun _ => none) false [([0x80], 1)] = some root ∧
    rFindNode (fun _ _ _ => none) root [0x80] none = some (ret, none) ∧
    FoundKey (fun k v => k ∈ [[(0x80 : UInt8)]] ∧ v = 1) [0x80] ret := by
  rintro ⟨root, ret, hbuild, hfind, hfound⟩
  have hrun : ((rBuild (fun _ => none) false [([0x80], 1)]).bind fun root =>
      rFindNode (fun _ _ _ => none) root [0x80] none).map (fun r => r.1.isSome) = some false := by
    decide
  rw [hbuild, bind_some, hfind, map_some, some_inj] at hrun
  cases ret with
  | some node => cases hrun
  | none => exact hfound [0x80] 1 ⟨mem_cons_self, rfl⟩ prefix_rfl

end SyslogNg.DbParser
