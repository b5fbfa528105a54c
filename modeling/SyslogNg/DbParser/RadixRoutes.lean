import SyslogNg.DbParser.Radix

/-!
# The routes of a radix tree

A route leads from a node down to a value: the bytes of the literal nodes and the parsers of the
parser nodes on the way. `insertNode_routes`: an insertion adds only routes that spell the
inserted pattern. Which children a route may enter is a parameter, because `r_find_child` does
not reach all of them.
-/

namespace SyslogNg.DbParser

open List Option

variable {V : Type}

inductive RItem where
  | byte (b : UInt8)
  | parser (p : RParserNode)

/-- The ways down from a node to its values, past the node itself. -/
inductive Route (vis : UInt8 → Prop) : RNode V → List RItem → V → Prop where
  | here {n : RNode V} {v : V} : n.value = some v → Route vis n [] v
  | child {n c : RNode V} {items : List RItem} {v : V} : c ∈ n.children → vis c.firstByte →
      Route vis c items v → Route vis n (c.text.map .byte ++ items) v
  | pchild {n c : RNode V} {p : RParserNode} {items : List RItem} {v : V} : c ∈ n.pchildren →
      c.parser = some p → Route vis c items v → Route vis n (.parser p :: items) v

/-- The ways down that begin with the bytes of the node itself. -/
def RouteIn (vis : UInt8 → Prop) (n : RNode V) (items : List RItem) (v : V) : Prop :=
  ∃ rest, items = n.text.map .byte ++ rest ∧ Route vis n rest v

/-- What a pattern says: bytes, with `@@` for `@`, and parsers. A parser of the tree may stand for
the one of the pattern if `r_equal_pnode` takes them for the same. -/
inductive Pattern (newPnode : List UInt8 → Option RParserNode) (parser : Bool) :
    List UInt8 → List RItem → Prop where
  | nil : Pattern newPnode parser [] []
  | byte {b : UInt8} {key : List UInt8} {items : List RItem} : (parser = true → b ≠ at_) →
      Pattern newPnode parser key items → Pattern newPnode parser (b :: key) (.byte b :: items)
  | escape {key : List UInt8} {items : List RItem} : parser = true →
      Pattern newPnode parser key items →
      Pattern newPnode parser (at_ :: at_ :: key) (.byte at_ :: items)
  | parser {spec key : List UInt8} {p q : RParserNode} {items : List RItem} : parser = true →
      spec ≠ [] → at_ ∉ spec → newPnode spec = some q → rEqualPnode p q = true →
      Pattern newPnode parser key items →
      Pattern newPnode parser (at_ :: spec ++ at_ :: key) (.parser p :: items)

/-- With parsers, an `@` in the key of a node is the whole key; a parser node has no key. -/
inductive Keyed (parser : Bool) : RNode V → Prop where
  | mk {n : RNode V} : (parser = true → n.text = [at_] ∨ at_ ∉ n.text) →
      (∀ c ∈ n.children, Keyed parser c) →
      (∀ c ∈ n.pchildren, c.text = [] ∧ c.parser.isSome = true) →
      (∀ c ∈ n.pchildren, Keyed parser c) → Keyed parser n

section

variable {vis : UInt8 → Prop} {newPnode : List UInt8 → Option RParserNode} {parser : Bool}
  {n c c' : RNode V} {items : List RItem} {u v : V} {key pre : List UInt8}

theorem Pattern.literal (hpre : ∀ b ∈ pre, parser = true → b ≠ at_)
    (h : Pattern newPnode parser key items) :
    Pattern newPnode parser (pre ++ key) (pre.map .byte ++ items) := by
  induction pre with
  | nil => exact h
  | cons b pre ih =>
    exact .byte (hpre b mem_cons_self) (ih fun a ha => hpre a (mem_cons_of_mem _ ha))

theorem Keyed.text (h : Keyed parser n) : parser = true → n.text = [at_] ∨ at_ ∉ n.text := by
  cases h
  assumption

theorem Keyed.child (h : Keyed parser n) (hc : c ∈ n.children) : Keyed parser c := by
  obtain ⟨-, h, -, -⟩ := h
  exact h c hc

theorem Keyed.pchild (h : Keyed parser n) (hc : c ∈ n.pchildren) :
    (c.text = [] ∧ c.parser.isSome = true) ∧ Keyed parser c := by
  obtain ⟨-, -, htext, h⟩ := h
  exact ⟨htext c hc, h c hc⟩

/-! ## The routes of the changed nodes -/

variable {cs ps : List (RNode V)}

theorem Route.cases_on_node {k : Option (List UInt8)} {p : Option RParserNode} {value : Option V}
    (h : Route vis (.mk k p value cs ps) items u) :
    (items = [] ∧ value = some u) ∨ (∃ c ∈ cs, vis c.firstByte ∧ RouteIn vis c items u) ∨
    ∃ c ∈ ps, ∃ q rest, c.parser = some q ∧ items = .parser q :: rest ∧ Route vis c rest u := by
  cases h with
  | here hv => exact .inl ⟨rfl, hv⟩
  | child hc hvis hr => exact .inr (.inl ⟨_, hc, hvis, _, rfl, hr⟩)
  | pchild hc hp hr => exact .inr (.inr ⟨_, hc, _, _, hp, rfl, hr⟩)

theorem RouteIn.enter (hc : c ∈ n.children) (hvis : vis c.firstByte) (h : RouteIn vis c items u) :
    Route vis n items u := by
  obtain ⟨rest, rfl, hr⟩ := h
  exact .child hc hvis hr

theorem route_withChildren (h : Route vis (n.withChildren cs) items u)
    (hcs : ∀ c ∈ cs, c ∉ n.children → vis c.firstByte → ∀ items u, RouteIn vis c items u →
      Route vis n items u ∨ u = v ∧ Pattern newPnode parser key items) :
    Route vis n items u ∨ u = v ∧ Pattern newPnode parser key items := by
  rcases h.cases_on_node with ⟨rfl, hv⟩ | ⟨c, hc, hvis, hr⟩ | ⟨c, hc, q, rest, hp, rfl, hr⟩
  · exact .inl (.here hv)
  · by_cases hold : c ∈ n.children
    · exact .inl (hr.enter hold hvis)
    · exact hcs c hc hold hvis items u hr
  · exact .inl (.pchild hc hp hr)

theorem route_withPchildren (h : Route vis (n.withPchildren ps) items u)
    (hps : ∀ c ∈ ps, c ∉ n.pchildren → ∀ q rest u, c.parser = some q → Route vis c rest u →
      Route vis n (.parser q :: rest) u ∨
        u = v ∧ Pattern newPnode parser key (.parser q :: rest)) :
    Route vis n items u ∨ u = v ∧ Pattern newPnode parser key items := by
  rcases h.cases_on_node with ⟨rfl, hv⟩ | ⟨c, hc, hvis, hr⟩ | ⟨c, hc, q, rest, hp, rfl, hr⟩
  · exact .inl (.here hv)
  · exact .inl (hr.enter hc hvis)
  · by_cases hold : c ∈ n.pchildren
    · exact .inl (.pchild hold hp hr)
    · exact hps c hc hold q rest u hp hr

theorem route_setValue (h : Route vis (n.setValue v) items u) :
    Route vis n items u ∨ u = v ∧ items = [] := by
  rcases h.cases_on_node with ⟨rfl, hv⟩ | ⟨c, hc, hvis, hr⟩ | ⟨c, hc, q, rest, hp, rfl, hr⟩
  · cases hold : n.value with
    | none =>
      rw [hold] at hv
      cases hv
      exact .inr ⟨rfl, rfl⟩
    | some w =>
      rw [hold] at hv
      cases hv
      exact .inl (.here hold)
  · exact .inl (hr.enter hc hvis)
  · exact .inl (.pchild hc hp hr)

theorem mem_children_rAddChild {parent child : RNode V} :
    c ∈ (rAddChild parent child).children ↔ c ∈ parent.children ∨ c = child := by
  show c ∈ (parent.children ++ [child]).insertionSort rNodeLe ↔ _
  rw [mem_insertionSort, mem_append, mem_singleton]

theorem route_rAddChild (h : Route vis (rAddChild n c) items u) :
    Route vis n items u ∨ vis c.firstByte ∧ RouteIn vis c items u := by
  rcases h.cases_on_node with ⟨rfl, hv⟩ | ⟨c', hc, hvis, hr⟩ | ⟨c', hc, q, rest, hp, rfl, hr⟩
  · exact .inl (.here hv)
  · rcases mem_children_rAddChild.1 hc with hold | rfl
    · exact .inl (hr.enter hold hvis)
    · exact .inr ⟨hvis, hr⟩
  · exact .inl (.pchild hc hp hr)

theorem route_rNewNode {value : Option V} (h : Route vis (rNewNode key value) items u) :
    items = [] ∧ value = some u := by
  rcases h.cases_on_node with h | ⟨c, hc, -⟩ | ⟨c, hc, -⟩
  · exact h
  · cases hc
  · cases hc

theorem routeIn_rSplit {i : Nat} (h : RouteIn vis (rSplit n i) items u) : RouteIn vis n items u := by
  obtain ⟨rest, rfl, hr⟩ := h
  rcases route_rAddChild hr with hr | ⟨-, hr⟩
  · rcases hr.cases_on_node with ⟨-, hv⟩ | ⟨c, hc, -⟩ | ⟨c, hc, -⟩
    · cases hv
    · cases hc
    · cases hc
  · obtain ⟨rest', rfl, hlow⟩ := hr
    refine ⟨rest', ?_, ?_⟩
    · rw [← append_assoc, ← map_append]
      exact congrArg (List.map RItem.byte · ++ rest') (take_append_drop i n.text)
    · rcases hlow.cases_on_node with ⟨rfl, hv⟩ | ⟨c, hc, hvis, h⟩ | ⟨c, hc, q, rest, hp, rfl, h⟩
      · exact .here hv
      · exact h.enter hc hvis
      · exact .pchild hc hp h

/-! ## Finding a child -/

theorem rFindChildLoop_found {children : List (RNode V)} {k : Int} {rounds l m ndx : Nat}
    (h : rFindChildLoop children k rounds l m = some ndx) :
    ∃ c, children[ndx]? = some c ∧ (c.firstByte.toNat : Int) = k := by
  induction rounds generalizing l m with
  | zero => cases h
  | succ rounds ih =>
    rw [rFindChildLoop] at h
    by_cases hlt : l < m
    · rw [if_pos hlt] at h
      cases hat : children[(l + m) / 2]? with
      | none =>
        rw [hat] at h
        cases h
      | some c =>
        rw [hat] at h
        simp only at h
        by_cases hgt : (c.firstByte.toNat : Int) > k
        · rw [if_pos hgt] at h
          exact ih h
        · rw [if_neg hgt] at h
          by_cases hlo : (c.firstByte.toNat : Int) < k
          · rw [if_pos hlo] at h
            exact ih h
          · rw [if_neg hlo] at h
            cases h
            exact ⟨c, hat, by omega⟩
    · rw [if_neg hlt] at h
      cases h

theorem rFindChild_found {b : UInt8} {ndx : Nat} (h : rFindChild n b = some ndx) :
    ∃ c, n.children[ndx]? = some c ∧ c.firstByte = b ∧ b.toNat < 128 := by
  obtain ⟨c, hc, hk⟩ := rFindChildLoop_found h
  have hb := b.toNat_lt
  unfold charOf at hk
  split at hk
  · rename_i hlow
    exact ⟨c, hc, UInt8.toNat_inj.1 (by omega), hlow⟩
  · omega

theorem matchLen_spec (key text : List UInt8) :
    key.take (matchLen parser key text) = text.take (matchLen parser key text) ∧
      matchLen parser key text ≤ key.length ∧ matchLen parser key text ≤ text.length ∧
      ∀ b ∈ key.take (matchLen parser key text), parser = true → b ≠ at_ := by
  induction key generalizing text with
  | nil => simp [matchLen]
  | cons k key ih =>
    cases text with
    | nil => simp [matchLen]
    | cons r text =>
      rw [matchLen]
      split
      · simp
      · rename_i h
        push Not at h
        obtain ⟨rfl, hat⟩ := h
        obtain ⟨h1, h2, h3, h4⟩ := ih text
        simp only [take_succ_cons, h1, length_cons, mem_cons, forall_eq_or_imp]
        rw [h1] at h4
        exact ⟨trivial, by omega, by omega, fun hp => hat hp, h4⟩

theorem matchLen_pos {b : UInt8} {text : List UInt8} (hb : parser = true → b ≠ at_) :
    matchLen parser (b :: key) (b :: text) ≠ 0 := by
  rw [matchLen, if_neg]
  · omega
  · push Not
    exact ⟨rfl, hb⟩

theorem split_at_at (h : at_ ∈ key) :
    ∃ rest, key.dropWhile (· ≠ at_) = at_ :: rest ∧
    key = key.takeWhile (· ≠ at_) ++ at_ :: rest ∧ at_ ∉ key.takeWhile (· ≠ at_) := by
  induction key with
  | nil => cases h
  | cons b key ih =>
    by_cases hb : b = at_
    · subst hb
      exact ⟨key, by simp, by simp, by simp⟩
    · obtain ⟨rest, hdrop, hsplit, hnot⟩ := ih ((mem_cons.1 h).resolve_left (Ne.symm hb))
      refine ⟨rest, ?_, ?_, ?_⟩
      · rw [dropWhile_cons_of_pos (by simpa using hb), hdrop]
      · rw [takeWhile_cons_of_pos (by simpa using hb), cons_append, ← hsplit]
      · rw [takeWhile_cons_of_pos (by simpa using hb), mem_cons]
        exact fun hm => hm.elim (fun heq => hb heq.symm) hnot

/-! ## Insertion -/

/-- The key goes on past the node; otherwise it begins with the bytes of the node. -/
def After (parser : Bool) (key text : List UInt8) : Prop :=
  parser = true ∧ key.head? = some at_ ∨ matchLen parser key text = 0

/-- What an insertion at a node leaves: no routes but those that were there, and those that spell
the key. -/
structure Inserted (vis : UInt8 → Prop) (newPnode : List UInt8 → Option RParserNode)
    (parser : Bool) (value : V) (n : RNode V) (key : List UInt8) (n' : RNode V) : Prop where
  keyed : Keyed parser n'
  after : After parser key n.text → n'.key = n.key ∧ n'.parser = n.parser ∧
    ∀ items u, Route vis n' items u →
      Route vis n items u ∨ u = value ∧ Pattern newPnode parser key items
  within : ¬ After parser key n.text → n'.firstByte = n.firstByte ∧
    ∀ items u, RouteIn vis n' items u →
      RouteIn vis n items u ∨ u = value ∧ Pattern newPnode parser key items

theorem Keyed.withChildren (h : Keyed parser n) (hcs : ∀ c ∈ cs, Keyed parser c) :
    Keyed parser (n.withChildren cs) :=
  .mk h.text hcs (fun _ hc => (h.pchild hc).1) fun _ hc => (h.pchild hc).2

theorem Keyed.withPchildren (h : Keyed parser n)
    (hps : ∀ c ∈ ps, (c.text = [] ∧ c.parser.isSome = true) ∧ Keyed parser c) :
    Keyed parser (n.withPchildren ps) :=
  .mk h.text (fun _ hc => h.child hc) (fun c hc => (hps c hc).1) fun c hc => (hps c hc).2

theorem Keyed.setValue (h : Keyed parser n) : Keyed parser (n.setValue v) :=
  .mk h.text (fun _ hc => h.child hc) (fun _ hc => (h.pchild hc).1) fun _ hc => (h.pchild hc).2

theorem Keyed.rAddChild (h : Keyed parser n) (hc : Keyed parser c) : Keyed parser (rAddChild n c) := by
  refine .mk h.text ?_ (fun _ hp => (h.pchild hp).1) fun _ hp => (h.pchild hp).2
  intro a ha
  rcases mem_children_rAddChild.1 ha with hold | rfl
  · exact h.child hold
  · exact hc

theorem Keyed.leaf {k : Option (List UInt8)} {p : Option RParserNode} {value : Option V}
    (hk : parser = true → k.getD [] = [at_] ∨ at_ ∉ k.getD []) : Keyed parser (.mk k p value [] []) :=
  .mk hk (fun _ hc => by cases hc) (fun _ hc => by cases hc) fun _ hc => by cases hc

theorem Keyed.setChild {ndx : Nat} (hn : Keyed parser n) (hc : Keyed parser c') :
    Keyed parser (n.withChildren (n.children.set ndx c')) := by
  refine hn.withChildren fun a ha => ?_
  rcases mem_or_eq_of_mem_set ha with hold | rfl
  · exact hn.child hold
  · exact hc

theorem Keyed.setPchild {ndx : Nat} (hn : Keyed parser n)
    (hc : (c'.text = [] ∧ c'.parser.isSome = true) ∧ Keyed parser c') :
    Keyed parser (n.withPchildren (n.pchildren.set ndx c')) := by
  refine hn.withPchildren fun a ha => ?_
  rcases mem_or_eq_of_mem_set ha with hold | rfl
  · exact hn.pchild hold
  · exact hc

variable {insert : RNode V → List UInt8 → Option (RNode V)}

section

variable (hvis : ¬ vis 0)
  (hins : ∀ {n key n'}, Keyed parser n → insert n key = some n' →
    Inserted vis newPnode parser v n key n')

include hvis hins

theorem routeIn_insert_child (hc : Keyed parser c) (hfirst : c.firstByte = key.headD 0)
    (hat : ¬ (parser = true ∧ key.headD 0 = at_)) (h : insert c key = some c') (hvis' : vis c'.firstByte) :
    vis c.firstByte ∧ ∀ items u, RouteIn vis c' items u →
      RouteIn vis c items u ∨ u = v ∧ Pattern newPnode parser key items := by
  have hi := hins hc h
  by_cases ha : After parser key c.text
  · obtain ⟨hkey, -, -⟩ := hi.after ha
    have hsame : c'.firstByte = c.firstByte := by unfold RNode.firstByte RNode.text; rw [hkey]
    rw [hsame, hfirst] at hvis'
    cases key with
    | nil => exact absurd hvis' hvis
    | cons b key =>
      rw [headD_cons] at hfirst hat hvis'
      rcases htext : c.text with - | ⟨t, text⟩
      · unfold RNode.firstByte at hfirst
        rw [htext] at hfirst
        rw [← hfirst] at hvis'
        exact absurd hvis' hvis
      · have htb : t = b := by
          unfold RNode.firstByte at hfirst
          rw [htext] at hfirst
          exact hfirst
        subst htb
        rcases ha with ⟨hp, hhead⟩ | hzero
        · exact absurd ⟨hp, some.inj hhead⟩ hat
        · rw [htext] at hzero
          exact absurd hzero (matchLen_pos fun hp hb => hat ⟨hp, hb⟩)
  · obtain ⟨hsame, hroutes⟩ := hi.within ha
    exact ⟨hsame ▸ hvis', hroutes⟩

omit hvis

variable {n' : RNode V}

theorem rAddChildCheck_routes (hn : Keyed parser n) (h : rAddChildCheck parser v insert n key = some n') :
    Keyed parser n' ∧ n'.key = n.key ∧ n'.parser = n.parser ∧ ∀ items u, Route vis n' items u →
      Route vis n items u ∨ u = v ∧ Pattern newPnode parser key items := by
  unfold rAddChildCheck at h
  by_cases hat : parser = true ∧ at_ ∈ key
  · rw [if_pos hat] at h
    obtain ⟨rest, hdrop, hsplit, hnot⟩ := split_at_at hat.2
    by_cases hnil : key.takeWhile (· ≠ at_) = []
    · rw [if_pos hnil] at h
      have hi := hins hn h
      have hhead : key.head? = some at_ := by
        rw [hsplit, hnil]
        rfl
      obtain ⟨hkey, hparser, hroutes⟩ := hi.after (.inl ⟨hat.1, hhead⟩)
      exact ⟨hi.keyed, hkey, hparser, hroutes⟩
    · rw [if_neg hnil, hdrop] at h
      obtain ⟨c', hc', rfl⟩ := map_eq_some_iff.1 h
      have hleaf : Keyed parser (rNewNode (V := V) (key.takeWhile (· ≠ at_)) none) :=
        .leaf fun _ => .inr hnot
      have hi := hins hleaf hc'
      obtain ⟨hkey, -, hroutes⟩ := hi.after (.inl ⟨hat.1, rfl⟩)
      refine ⟨hn.rAddChild hi.keyed, rfl, rfl, fun items u hr => ?_⟩
      rcases route_rAddChild hr with hold | ⟨-, low, rfl, hlow⟩
      · exact .inl hold
      · rcases hroutes low u hlow with hnew | ⟨rfl, hpat⟩
        · cases (route_rNewNode hnew).2
        · refine .inr ⟨rfl, ?_⟩
          have htext : c'.text = key.takeWhile (· ≠ at_) := by
            unfold RNode.text
            rw [hkey]
            rfl
          rw [htext]
          have hlit := @Pattern.literal _ _ _ _ (key.takeWhile (· ≠ at_))
            (fun b hb _ heq => hnot (heq ▸ hb)) hpat
          rwa [← hsplit] at hlit
  · rw [if_neg hat] at h
    cases h
    have hlit : ∀ b ∈ key, parser = true → b ≠ at_ :=
      fun b hb hp heq => hat ⟨hp, heq ▸ hb⟩
    refine ⟨hn.rAddChild (.leaf fun hp => .inr fun hm => hat ⟨hp, hm⟩), rfl, rfl, fun items u hr => ?_⟩
    rcases route_rAddChild hr with hold | ⟨-, low, rfl, hlow⟩
    · exact .inl hold
    · obtain ⟨rfl, hu⟩ := route_rNewNode hlow
      cases hu
      have hpat : Pattern newPnode parser (key ++ []) (key.map .byte ++ []) :=
        Pattern.literal hlit .nil
      rw [append_nil] at hpat
      exact .inr ⟨rfl, hpat⟩

theorem insert_past {rest : List UInt8} (hc : Keyed parser c) (hafter : After parser rest c.text)
    (h : (if rest = [] then some (c.setValue v) else insert c rest) = some c') :
    Keyed parser c' ∧ c'.key = c.key ∧ c'.parser = c.parser ∧ ∀ items u, Route vis c' items u →
      Route vis c items u ∨ u = v ∧ Pattern newPnode parser rest items := by
  by_cases hrest : rest = []
  · rw [if_pos hrest] at h
    cases h
    refine ⟨hc.setValue, rfl, rfl, fun items u hr => ?_⟩
    rcases route_setValue hr with hold | ⟨rfl, rfl⟩
    · exact .inl hold
    · exact .inr ⟨rfl, hrest ▸ .nil⟩
  · rw [if_neg hrest] at h
    have hi := hins hc h
    obtain ⟨hkey, hparser, hroutes⟩ := hi.after hafter
    exact ⟨hi.keyed, hkey, hparser, hroutes⟩

theorem rInsertEscape_routes {rest : List UInt8} (hp : parser = true) (hn : Keyed parser n)
    (h : rInsertEscape v insert n rest = some n') :
    Keyed parser n' ∧ n'.key = n.key ∧ n'.parser = n.parser ∧ ∀ items u, Route vis n' items u →
      Route vis n items u ∨ u = v ∧ Pattern newPnode parser (at_ :: at_ :: rest) items := by
  have hafter : ∀ {c : RNode V}, c.text = [at_] → After parser rest c.text := by
    intro c htext
    rw [htext]
    rcases rest with - | ⟨b, rest⟩
    · exact .inr rfl
    · by_cases hb : b = at_
      · exact .inl ⟨hp, hb ▸ rfl⟩
      · exact .inr (if_pos (.inl hb))
  unfold rInsertEscape at h
  cases hfind : rFindChild n at_ with
  | none =>
    rw [hfind] at h
    -- the new node `@` is a leaf without a value that takes the rest
    have hnew : ∃ c', (if rest = [] then some ((rNewNode [at_] none).setValue v)
        else insert (rNewNode [at_] none) rest) = some c' ∧ n' = rAddChild n c' := by
      by_cases hrest : rest = []
      · simp only [hrest, if_true] at h ⊢
        exact ⟨_, rfl, (some.inj h).symm⟩
      · simp only [hrest, if_false] at h ⊢
        obtain ⟨c', hc', rfl⟩ := map_eq_some_iff.1 h
        exact ⟨c', hc', rfl⟩
    obtain ⟨c', hc', rfl⟩ := hnew
    obtain ⟨hkeyed, hkey, -, hroutes⟩ :=
      insert_past hins (.leaf fun _ => .inl rfl) (hafter rfl) hc'
    refine ⟨hn.rAddChild hkeyed, rfl, rfl, fun items u hr => ?_⟩
    rcases route_rAddChild hr with hold | ⟨-, low, rfl, hlow⟩
    · exact .inl hold
    · rcases hroutes low u hlow with hold | ⟨rfl, hpat⟩
      · have hnone : (none : Option V) = some u := (route_rNewNode hold).2
        cases hnone
      · have htext : c'.text = [at_] := by
          unfold RNode.text
          rw [hkey]
          rfl
        rw [htext]
        exact .inr ⟨rfl, .escape hp hpat⟩
  | some ndx =>
    rw [hfind] at h
    obtain ⟨c, hc, hfirst, -⟩ := rFindChild_found hfind
    simp only [hc, bind_some] at h
    obtain ⟨c', hc', rfl⟩ := map_eq_some_iff.1 h
    have hmem := mem_of_getElem? hc
    have hckeyed := hn.child hmem
    have htext : c.text = [at_] := by
      rcases hckeyed.text hp with htext | hnot
      · exact htext
      · unfold RNode.firstByte at hfirst
        rcases htext : c.text with - | ⟨b, text⟩
        · rw [htext] at hfirst
          exact absurd hfirst (by decide)
        · rw [htext] at hfirst hnot
          exact absurd (mem_cons.2 (.inl hfirst.symm)) hnot
    obtain ⟨hkeyed, hkey, -, hroutes⟩ := insert_past hins hckeyed (hafter htext) hc'
    have htext' : c'.text = [at_] := by
      unfold RNode.text at htext ⊢
      rw [hkey, htext]
    refine ⟨hn.setChild hkeyed, rfl, rfl, fun items u hr => route_withChildren hr ?_⟩
    intro a ha hnew hvisa items u hin
    rcases mem_or_eq_of_mem_set ha with hold | rfl
    · exact absurd hold hnew
    obtain ⟨low, rfl, hlow⟩ := hin
    rcases hroutes low u hlow with hold | ⟨rfl, hpat⟩
    · refine .inl (RouteIn.enter hmem ?_ ⟨low, by rw [htext, htext'], hold⟩)
      unfold RNode.firstByte at hvisa ⊢
      rw [htext'] at hvisa
      rw [htext]
      exact hvisa
    · rw [htext']
      exact .inr ⟨rfl, .escape hp hpat⟩

theorem rInsertParser_routes {spec rest : List UInt8} (hp : parser = true) (hspec : spec ≠ [])
    (hnot : at_ ∉ spec) (hn : Keyed parser n) (h : rInsertParser newPnode v insert n spec rest = some n') :
    Keyed parser n' ∧ n'.key = n.key ∧ n'.parser = n.parser ∧ ∀ items u, Route vis n' items u →
      Route vis n items u ∨ u = v ∧ Pattern newPnode parser (at_ :: spec ++ at_ :: rest) items := by
  unfold rInsertParser at h
  cases hnew : newPnode spec with
  | none =>
    rw [hnew] at h
    cases h
    exact ⟨hn, rfl, rfl, fun items u hr => .inl hr⟩
  | some q =>
  rw [hnew] at h
  simp only at h
  cases hfind : rFindPchild n q with
  | none =>
    rw [hfind] at h
    have hleaf : ∃ c', (if rest = [] then some ((RNode.mk none (some q) none [] []).setValue v)
        else insert (.mk none (some q) none [] []) rest) = some c' ∧ n' = rAddPchild n c' := by
      obtain ⟨c', hc', rfl⟩ := map_eq_some_iff.1 h
      exact ⟨c', hc', rfl⟩
    obtain ⟨c', hc', rfl⟩ := hleaf
    obtain ⟨hkeyed, hkey, hparser, hroutes⟩ :=
      insert_past hins (.leaf fun _ => .inr not_mem_nil) (.inr (by cases rest <;> rfl)) hc'
    have htext : c'.text = [] := by
      unfold RNode.text
      rw [hkey]
      rfl
    refine ⟨hn.withPchildren ?_, rfl, rfl, fun items u hr => route_withPchildren hr ?_⟩
    · intro a ha
      rcases mem_append.1 ha with hold | ha
      · exact hn.pchild hold
      · rw [mem_singleton.1 ha]
        exact ⟨⟨htext, by rw [hparser]; rfl⟩, hkeyed⟩
    · intro a ha hnot' p low u hp' hlow
      rcases mem_append.1 ha with hold | ha
      · exact absurd hold hnot'
      rw [mem_singleton.1 ha] at hp' hlow
      rw [hparser] at hp'
      cases hp'
      rcases hroutes low u hlow with hold | ⟨rfl, hpat⟩
      · rcases hold.cases_on_node with ⟨-, hv⟩ | ⟨c, hc, -⟩ | ⟨c, hc, -⟩
        · cases hv
        · cases hc
        · cases hc
      · exact .inr ⟨rfl, .parser hp hspec hnot hnew (by simp [rEqualPnode]) hpat⟩
  | some ndx =>
    rw [hfind] at h
    obtain ⟨hlt, heq, -⟩ := findIdx?_eq_some_iff_getElem.1 hfind
    have hc : n.pchildren[ndx]? = some n.pchildren[ndx] := getElem?_eq_getElem hlt
    generalize n.pchildren[ndx] = c at hc heq
    simp only [hc, bind_some] at h
    obtain ⟨c', hc', rfl⟩ := map_eq_some_iff.1 h
    have hmem := mem_of_getElem? hc
    obtain ⟨⟨htext, hsome⟩, hckeyed⟩ := hn.pchild hmem
    obtain ⟨hkeyed, hkey, hparser, hroutes⟩ :=
      insert_past hins hckeyed (.inr (by rw [htext]; cases rest <;> rfl)) hc'
    have htext' : c'.text = [] := by
      unfold RNode.text at htext ⊢
      rw [hkey, htext]
    refine ⟨hn.setPchild ⟨⟨htext', hparser ▸ hsome⟩, hkeyed⟩, rfl, rfl, fun items u hr => route_withPchildren hr ?_⟩
    intro a ha hnot' p low u hp' hlow
    rcases mem_or_eq_of_mem_set ha with hold | rfl
    · exact absurd hold hnot'
    rw [hparser] at hp'
    rcases hroutes low u hlow with hold | ⟨rfl, hpat⟩
    · exact .inl (.pchild hmem hp' hold)
    · rw [hp', any_some] at heq
      exact .inr ⟨rfl, .parser hp hspec hnot hnew heq hpat⟩

omit hins

theorem Inserted.past {i : Nat} (hafter : After parser key n.text ↔ i = 0)
    (htake : key.take i = n.text.take i) (hi : i = 0 ∨ i = n.text.length)
    (hlit : ∀ b ∈ key.take i, parser = true → b ≠ at_)
    (h : Keyed parser n' ∧ n'.key = n.key ∧ n'.parser = n.parser ∧ ∀ items u, Route vis n' items u →
      Route vis n items u ∨ u = v ∧ Pattern newPnode parser (key.drop i) items) :
    Inserted vis newPnode parser v n key n' := by
  obtain ⟨hkeyed, hkey, hparser, hroutes⟩ := h
  have htext : n'.text = n.text := by unfold RNode.text; rw [hkey]
  refine ⟨hkeyed, fun ha => ?_, fun ha => ?_⟩
  · rw [hafter.1 ha, drop_zero] at hroutes
    exact ⟨hkey, hparser, hroutes⟩
  · refine ⟨by unfold RNode.firstByte; rw [htext], ?_⟩
    rintro items u ⟨rest, rfl, hr⟩
    rw [htext]
    rcases hroutes rest u hr with hold | ⟨rfl, hpat⟩
    · exact .inl ⟨rest, rfl, hold⟩
    · have hfull : n.text = key.take i := by
        rcases hi with hi | hi
        · exact absurd (hafter.2 hi) ha
        · rw [htake, hi, take_length]
      have := hpat.literal hlit
      rw [take_append_drop] at this
      exact .inr ⟨rfl, by rw [hfull]; exact this⟩

theorem keylen_cases (n : RNode V) : n.keylen = n.text.length ∨ n.keylen = -1 ∧ n.text.length = 0 := by
  unfold RNode.keylen RNode.text
  cases n.key with
  | none => exact .inr ⟨rfl, rfl⟩
  | some k => exact .inl rfl

theorem Keyed.rSplit {i : Nat} (hn : Keyed parser n) (hi : 0 < i) (hlt : i < n.text.length) :
    Keyed parser (rSplit n i) := by
  have hnot : parser = true → at_ ∉ n.text := by
    intro hp
    rcases hn.text hp with htext | hnot
    · rw [htext, length_singleton] at hlt
      omega
    · exact hnot
  refine .rAddChild (.leaf fun hp => .inr fun hm => hnot hp (mem_of_mem_take hm)) ?_
  exact .mk (fun hp => .inr fun hm => hnot hp (mem_of_mem_drop hm)) (fun _ hc => hn.child hc)
    (fun _ hc => (hn.pchild hc).1) fun _ hc => (hn.pchild hc).2

theorem Inserted.split {n' : RNode V} {i : Nat} (hafter : ¬ After parser key n.text) (hpos : 0 < i)
    (htake : key.take i = n.text.take i) (hlit : ∀ b ∈ key.take i, parser = true → b ≠ at_)
    (h : Keyed parser n' ∧ n'.key = (rSplit n i).key ∧ ∀ items u, Route vis n' items u →
      Route vis (rSplit n i) items u ∨ u = v ∧ Pattern newPnode parser (key.drop i) items) :
    Inserted vis newPnode parser v n key n' := by
  obtain ⟨hkeyed, hkey, hroutes⟩ := h
  have htext : n'.text = n.text.take i := by
    unfold RNode.text
    rw [hkey]
    rfl
  refine ⟨hkeyed, fun ha => absurd ha hafter, fun _ => ⟨?_, ?_⟩⟩
  · unfold RNode.firstByte
    rw [htext]
    cases i with
    | zero => omega
    | succ i => cases n.text <;> rfl
  · rintro items u ⟨rest, rfl, hr⟩
    rw [htext]
    rcases hroutes rest u hr with hold | ⟨rfl, hpat⟩
    · exact .inl (routeIn_rSplit ⟨rest, rfl, hold⟩)
    · have := hpat.literal hlit
      rw [take_append_drop] at this
      exact .inr ⟨rfl, by rw [← htake]; exact this⟩

include hvis hins

theorem rInsertLiteral_inserted (hn : Keyed parser n) (hhead : ¬ (parser = true ∧ key.head? = some at_))
    (h : rInsertLiteral parser v insert n key = some n') : Inserted vis newPnode parser v n key n' := by
  unfold rInsertLiteral at h
  obtain ⟨htake, hle, hle', hlit⟩ := @matchLen_spec parser key n.text
  have hafter : After parser key n.text ↔ matchLen parser key n.text = 0 := by
    constructor
    · rintro (ha | ha)
      · exact absurd ha hhead
      · exact ha
    · exact .inr
  simp only at h
  generalize matchLen parser key n.text = i at h htake hle hle' hlit hafter
  have hlen := keylen_cases n
  by_cases hdown : n.keylen = 0 ∨ i = 0 ∨ i < key.length ∧ n.keylen ≤ i
  · rw [if_pos hdown] at h
    refine .past hafter htake (by omega) hlit ?_
    have hnext : (key.drop i).headD 0 = key.getD i 0 := by
      rw [headD_eq_head?_getD, head?_drop, getD_eq_getElem?_getD]
    cases hfind : rFindChild n (key.getD i 0) with
    | none =>
      rw [hfind] at h
      exact rAddChildCheck_routes hins hn h
    | some ndx =>
      rw [hfind] at h
      simp only at h
      by_cases hat : parser = true ∧ key.getD i 0 = at_
      · rw [if_pos hat] at h
        have hi := hins hn h
        have hh : (key.drop i).head? = some at_ := by
          cases hd : key.drop i with
          | nil =>
            rw [hd] at hnext
            exact absurd (hnext.trans hat.2) (by decide)
          | cons b rest =>
            rw [hd] at hnext
            rw [← hat.2, ← hnext]
            rfl
        obtain ⟨hkey, hparser, hroutes⟩ := hi.after (.inl ⟨hat.1, hh⟩)
        exact ⟨hi.keyed, hkey, hparser, hroutes⟩
      · rw [if_neg hat] at h
        obtain ⟨c, hc, hfirst, -⟩ := rFindChild_found hfind
        simp only [hc, bind_some] at h
        obtain ⟨c', hc', rfl⟩ := map_eq_some_iff.1 h
        have hmem := mem_of_getElem? hc
        have hckeyed := hn.child hmem
        refine ⟨hn.setChild (hins hckeyed hc').keyed, rfl, rfl, fun items u hr => route_withChildren hr ?_⟩
        intro a ha hnew hvisa items u hin
        rcases mem_or_eq_of_mem_set ha with hold | rfl
        · exact absurd hold hnew
        obtain ⟨hvisc, hroutes⟩ :=
          routeIn_insert_child hvis hins hckeyed (hfirst.trans hnext.symm) (hnext.symm ▸ hat) hc' hvisa
        rcases hroutes items u hin with hold | hpat
        · exact .inl (hold.enter hmem hvisc)
        · exact .inr hpat
  · rw [if_neg hdown] at h
    have hnot : ¬ After parser key n.text := fun ha => hdown (.inr (.inl (hafter.1 ha)))
    by_cases hexact : i = key.length ∧ (i : Int) = n.keylen
    · rw [if_pos hexact] at h
      cases h
      refine .past hafter htake (by omega) hlit ⟨hn.setValue, rfl, rfl, fun items u hr => ?_⟩
      rcases route_setValue hr with hold | ⟨rfl, rfl⟩
      · exact .inl hold
      · rw [hexact.1, drop_length]
        exact .inr ⟨rfl, .nil⟩
    · rw [if_neg hexact] at h
      by_cases hsplit : 0 < i ∧ (i : Int) < n.keylen
      · rw [if_pos hsplit] at h
        have hkeyed := hn.rSplit hsplit.1 (by omega)
        refine .split hnot hsplit.1 htake hlit ?_
        by_cases hrest : i < key.length
        · rw [if_pos hrest] at h
          obtain ⟨hkeyed', hkey, -, hroutes⟩ := rAddChildCheck_routes hins hkeyed h
          exact ⟨hkeyed', hkey, hroutes⟩
        · rw [if_neg hrest] at h
          cases h
          refine ⟨hkeyed.setValue, rfl, fun items u hr => ?_⟩
          rcases route_setValue hr with hold | ⟨rfl, rfl⟩
          · exact .inl hold
          · rw [drop_eq_nil_of_le (by omega)]
            exact .inr ⟨rfl, .nil⟩
      · -- the key agrees with the whole node and is over: an exact match
        omega

end

/-- **Insertion** adds only routes that spell the inserted pattern. -/
theorem insertNode_inserted (hvis : ¬ vis 0) {depth : Nat} {n' : RNode V} (hn : Keyed parser n)
    (h : insertNode newPnode parser v depth n key = some n') : Inserted vis newPnode parser v n key n' := by
  induction depth generalizing n key n' with
  | zero => cases h
  | succ depth ih =>
    rw [insertNode] at h
    by_cases hat : parser = true ∧ key.head? = some at_
    · rw [if_pos hat] at h
      obtain ⟨hp, hhead⟩ := hat
      obtain ⟨rest, rfl⟩ : ∃ rest, key = at_ :: rest := by
        cases key with
        | nil => cases hhead
        | cons b rest => exact ⟨rest, by rw [some.inj hhead]⟩
      have hafter : After parser (at_ :: rest) n.text := .inl ⟨hp, rfl⟩
      rw [drop_one, tail_cons] at h
      suffices hpast : Keyed parser n' ∧ n'.key = n.key ∧ n'.parser = n.parser ∧
          ∀ items u, Route vis n' items u →
            Route vis n items u ∨ u = v ∧ Pattern newPnode parser (at_ :: rest) items from
        ⟨hpast.1, fun _ => hpast.2, fun hna => absurd hafter hna⟩
      cases rest with
      | nil =>
        cases h
        exact ⟨hn, rfl, rfl, fun items u hr => .inl hr⟩
      | cons c rest =>
        simp only at h
        by_cases hc : c = at_
        · rw [if_pos hc] at h
          subst hc
          exact rInsertEscape_routes ih hp hn h
        · rw [if_neg hc] at h
          by_cases hend : at_ ∈ rest
          · rw [if_pos hend] at h
            obtain ⟨low, hdrop, hsplit, hnot⟩ := split_at_at (mem_cons_of_mem c hend)
            rw [hdrop] at h
            have hspec : (c :: rest).takeWhile (· ≠ at_) ≠ [] := by
              rw [takeWhile_cons_of_pos (by simpa using hc)]
              exact cons_ne_nil _ _
            have hpast := rInsertParser_routes ih hp hspec hnot hn h
            rw [cons_append, drop_one, tail_cons, ← hsplit] at hpast
            exact hpast
          · rw [if_neg hend] at h
            cases h
            exact ⟨hn, rfl, rfl, fun items u hr => .inl hr⟩
    · rw [if_neg hat] at h
      exact rInsertLiteral_inserted hvis ih hn hat h

end

end SyslogNg.DbParser
