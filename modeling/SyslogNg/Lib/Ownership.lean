import Mathlib.Tactic

/-!
# Copy-on-write ownership

A handle refers to an object of a memory, which it owns, or which it borrows from its parent. Two
handles do not own the same object. A handle without children may write to what it owns, or take a
new object of its own: `Owned.touch` keeps the discipline, and by `Owned.frame` no other handle
sees the change.
-/

namespace SyslogNg.Lib

open List hiding getElem?_eq_some_iff

/-- `obj` is the object, `none` for nothing; `len` is how much of it the handle sees. -/
structure Handle where
  parent : Option Nat
  own : Bool
  obj : Option Nat
  len : Nat

/-- The discipline of a list of handles over a memory of `size` objects. -/
structure Owned (handles : List Handle) (size : Nat) : Prop where
  parent_lt : ∀ {i : Nat} {c : Handle} {p : Nat}, handles[i]? = some c → c.parent = some p → p < i
  borrowed : ∀ {i : Nat} {c : Handle}, handles[i]? = some c → c.own = false →
    ∃ (p : Nat) (d : Handle), c.parent = some p ∧ handles[p]? = some d ∧ d.obj = c.obj ∧ d.len = c.len
  unique : ∀ {i j a : Nat} {c d : Handle}, handles[i]? = some c → handles[j]? = some d →
    c.own = true → d.own = true → c.obj = some a → d.obj = some a → i = j
  bound : ∀ {i a : Nat} {c : Handle}, handles[i]? = some c → c.obj = some a → a < size

/-- What a write through the handle `c` does to the memory and to the handle. -/
structure Touch {α : Type} (mem mem' : List α) (c c' : Handle) : Prop where
  parent : c'.parent = c.parent
  le : mem.length ≤ mem'.length
  same : ∀ {a : Nat}, a < mem.length → (c.own = true → c.obj ≠ some a) → mem'[a]? = mem[a]?
  handle : c' = c ∨ c'.own = true ∧ (c'.obj = none ∨ c.own = true ∧ c'.obj = c.obj ∨
    ∃ a, c'.obj = some a ∧ mem.length ≤ a ∧ a < mem'.length)

section

variable {α : Type} {handles : List Handle} {size i : Nat} {c c' : Handle} {mem mem' : List α}

theorem Touch.refl : Touch mem mem c c := ⟨rfl, le_refl _, fun _ _ => rfl, .inl rfl⟩

theorem Touch.trans {mem'' : List α} {c'' : Handle} (h : Touch mem mem' c c')
    (h' : Touch mem' mem'' c' c'') : Touch mem mem'' c c'' := by
  have hle := h.le
  have hle' := h'.le
  refine ⟨h'.parent.trans h.parent, hle.trans hle', fun ha hc => ?_, ?_⟩
  · rw [← h.same ha hc]
    refine h'.same (by omega) fun hown hobj => ?_
    rcases h.handle with rfl | ⟨-, hnone | ⟨hown', heq⟩ | ⟨b, hb, hlt, -⟩⟩
    · exact hc hown hobj
    · rw [hnone] at hobj
      cases hobj
    · exact hc hown' (heq ▸ hobj)
    · rw [hb] at hobj
      cases hobj
      omega
  · rcases h'.handle with rfl | ⟨hown, hnone | ⟨hown', heq⟩ | ⟨b, hb, hlt, hlt'⟩⟩
    · rcases h.handle with rfl | ⟨hown, hnone | hsame | ⟨b, hb, hlt, hlt'⟩⟩
      · exact .inl rfl
      · exact .inr ⟨hown, .inl hnone⟩
      · exact .inr ⟨hown, .inr (.inl hsame)⟩
      · exact .inr ⟨hown, .inr (.inr ⟨b, hb, hlt, by omega⟩)⟩
    · exact .inr ⟨hown, .inl hnone⟩
    · rcases h.handle with rfl | ⟨-, hnone | ⟨hc, hsame⟩ | ⟨b, hb, hlt, hlt'⟩⟩
      · exact .inr ⟨hown, .inr (.inl ⟨hown', heq⟩)⟩
      · exact .inr ⟨hown, .inl (heq.trans hnone)⟩
      · exact .inr ⟨hown, .inr (.inl ⟨hc, heq.trans hsame⟩)⟩
      · exact .inr ⟨hown, .inr (.inr ⟨b, heq.trans hb, hlt, by omega⟩)⟩
    · exact .inr ⟨hown, .inr (.inr ⟨b, hb, by omega, hlt'⟩)⟩

theorem Touch.own {a : Nat} {x : α} (hparent : c'.parent = c.parent) (hown : c.own = true)
    (hobj : c.obj = some a) (hown' : c'.own = true) (hobj' : c'.obj = some a) :
    Touch mem (mem.set a x) c c' := by
  refine ⟨hparent, by rw [length_set], fun _ hc => ?_,
    .inr ⟨hown', .inr (.inl ⟨hown, hobj'.trans hobj.symm⟩)⟩⟩
  rw [getElem?_set_ne]
  rintro rfl
  exact hc hown hobj

theorem Touch.fresh {x : α} (hparent : c'.parent = c.parent) (hown' : c'.own = true)
    (hobj' : c'.obj = some mem.length) : Touch mem (mem ++ [x]) c c' := by
  refine ⟨hparent, by simp, fun ha _ => getElem?_append_left ha,
    .inr ⟨hown', .inr (.inr ⟨_, hobj', le_refl _, by simp⟩)⟩⟩

theorem Owned.exclusive (h : Owned handles size) {j a : Nat} {d : Handle}
    (hi : handles[i]? = some c) (hown : c.own = true) (hc : c.obj = some a)
    (hj : handles[j]? = some d) (hd : d.obj = some a) (hne : j ≠ i) :
    ∃ (k : Nat) (e : Handle), handles[k]? = some e ∧ e.parent = some i := by
  induction j using Nat.strongRecOn generalizing d with
  | ind j ih =>
    cases hdown : d.own with
    | true => exact absurd (h.unique hj hi hdown hown hd hc) hne
    | false =>
      obtain ⟨p, e, hp, he, hobj, -⟩ := h.borrowed hj hdown
      by_cases hpi : p = i
      · exact ⟨j, d, hj, hpi ▸ hp⟩
      · exact ih p (h.parent_lt hj hp) he (hobj.trans hd) hpi

theorem Owned.frame (h : Owned handles mem.length) (hi : handles[i]? = some c)
    (hchild : ∀ (k : Nat) (e : Handle), handles[k]? = some e → e.parent ≠ some i) (ht : Touch mem mem' c c')
    {j a : Nat} {d : Handle} (hj : handles[j]? = some d) (hne : j ≠ i) (hd : d.obj = some a) :
    mem'[a]? = mem[a]? := by
  refine ht.same (h.bound hj hd) fun hown hc => ?_
  obtain ⟨k, e, hk, he⟩ := h.exclusive hi hown hc hj hd hne
  exact hchild k e hk he

theorem Owned.touch (h : Owned handles mem.length) (hi : handles[i]? = some c)
    (hchild : ∀ (k : Nat) (e : Handle), handles[k]? = some e → e.parent ≠ some i) (ht : Touch mem mem' c c') :
    Owned (handles.set i c') mem'.length := by
  have hlt := (List.getElem?_eq_some_iff.1 hi).1
  have hget : ∀ {j : Nat} {d : Handle}, (handles.set i c')[j]? = some d →
      j = i ∧ d = c' ∨ j ≠ i ∧ handles[j]? = some d := by
    intro j d hj
    by_cases hji : j = i
    · subst hji
      rw [getElem?_set_self hlt] at hj
      exact .inl ⟨rfl, (Option.some.inj hj).symm⟩
    · rw [getElem?_set_ne (Ne.symm hji)] at hj
      exact .inr ⟨hji, hj⟩
  -- an object of the changed handle was its own, or is new
  have hfresh : ∀ {j a : Nat} {d : Handle}, j ≠ i → handles[j]? = some d → d.own = true → d.obj = some a →
      c'.own = true → c'.obj ≠ some a := by
    intro j a d hji hj hown hd hown' hc'
    rcases ht.handle with rfl | ⟨-, hnone | ⟨hc, heq⟩ | ⟨b, hb, hle, -⟩⟩
    · exact hji (h.unique hj hi hown hown' hd hc')
    · rw [hnone] at hc'
      cases hc'
    · exact hji (h.unique hj hi hown hc hd (heq ▸ hc'))
    · have := h.bound hj hd
      rw [hb] at hc'
      cases hc'
      omega
  refine ⟨?_, ?_, ?_, ?_⟩
  · intro j d p hj hp
    rcases hget hj with ⟨rfl, rfl⟩ | ⟨-, hj⟩
    · exact h.parent_lt hi (ht.parent ▸ hp)
    · exact h.parent_lt hj hp
  · intro j d hj hown
    have hold : ∃ e, handles[j]? = some e ∧ e.own = false ∧ d = e := by
      rcases hget hj with ⟨rfl, rfl⟩ | ⟨-, hj⟩
      · rcases ht.handle with rfl | ⟨hown', -⟩
        · exact ⟨_, hi, hown, rfl⟩
        · rw [hown] at hown'
          cases hown'
      · exact ⟨d, hj, hown, rfl⟩
    obtain ⟨e, he, hown, rfl⟩ := hold
    obtain ⟨p, f, hp, hf, hobj, hlen⟩ := h.borrowed he hown
    have hpi : p ≠ i := by
      rintro rfl
      exact hchild j d he hp
    exact ⟨p, f, hp, by rwa [getElem?_set_ne (Ne.symm hpi)], hobj, hlen⟩
  · intro j k a d e hj hk hd he hda hea
    rcases hget hj with ⟨rfl, rfl⟩ | ⟨hji, hj'⟩
    · rcases hget hk with ⟨rfl, rfl⟩ | ⟨hki, hk⟩
      · rfl
      · exact absurd hda (hfresh hki hk he hea hd)
    · rcases hget hk with ⟨rfl, rfl⟩ | ⟨hki, hk⟩
      · exact absurd hea (hfresh hji hj' hd hda he)
      · exact h.unique hj' hk hd he hda hea
  · intro j a d hj hd
    have hle := ht.le
    rcases hget hj with ⟨rfl, rfl⟩ | ⟨-, hj⟩
    · rcases ht.handle with rfl | ⟨-, hnone | ⟨-, heq⟩ | ⟨b, hb, -, hlt'⟩⟩
      · exact (h.bound hi hd).trans_le hle
      · rw [hnone] at hd
        cases hd
      · exact (h.bound hi (heq ▸ hd)).trans_le hle
      · rw [hb] at hd
        cases hd
        exact hlt'
    · exact (h.bound hj hd).trans_le hle

theorem Owned.orphan (h : Owned handles size) (hi : handles[i]? = some c) (hown : c.own = true) :
    Owned (handles.set i { c with parent := none }) size := by
  have hget : ∀ {j : Nat} {d : Handle}, (handles.set i { c with parent := none })[j]? = some d →
      ∃ e, handles[j]? = some e ∧ e.own = d.own ∧ e.obj = d.obj ∧ e.len = d.len ∧
        (d.parent = none ∧ d.own = true ∨ d = e) := by
    intro j d hj
    by_cases hji : i = j
    · subst hji
      rw [getElem?_set_self (List.getElem?_eq_some_iff.1 hi).1] at hj
      cases hj
      exact ⟨c, hi, rfl, rfl, rfl, .inl ⟨rfl, hown⟩⟩
    · rw [getElem?_set_ne hji] at hj
      exact ⟨d, hj, rfl, rfl, rfl, .inr rfl⟩
  refine ⟨?_, ?_, ?_, ?_⟩
  · intro j d p hj hp
    obtain ⟨e, he, -, -, -, ⟨hnone, -⟩ | rfl⟩ := hget hj
    · rw [hnone] at hp
      cases hp
    · exact h.parent_lt he hp
  · intro j d hj hborrow
    obtain ⟨e, he, -, -, -, ⟨-, htrue⟩ | rfl⟩ := hget hj
    · rw [hborrow] at htrue
      cases htrue
    · obtain ⟨p, f, hp, hf, hobj, hlen⟩ := h.borrowed he hborrow
      by_cases hpi : i = p
      · subst hpi
        rw [hi] at hf
        cases hf
        exact ⟨i, { c with parent := none }, hp,
          getElem?_set_self (List.getElem?_eq_some_iff.1 hi).1, hobj, hlen⟩
      · exact ⟨p, f, hp, by rwa [getElem?_set_ne hpi], hobj, hlen⟩
  · intro j k a d f hj hk hd hf hda hfa
    obtain ⟨d', hd', hdown, hdobj, -, -⟩ := hget hj
    obtain ⟨f', hf', hfown, hfobj, -, -⟩ := hget hk
    exact h.unique hd' hf' (hdown.trans hd) (hfown.trans hf) (hdobj.trans hda) (hfobj.trans hfa)
  · intro j a d hj hd
    obtain ⟨e, he, -, hobj, -, -⟩ := hget hj
    exact h.bound he (hobj.trans hd)

theorem Owned.append (h : Owned handles size) {p : Nat} {d : Handle} (hp : handles[p]? = some d)
    (hparent : c.parent = some p) (hc : c.own = false ∧ c.obj = d.obj ∧ c.len = d.len ∨
      c.own = true ∧ c.obj = none) : Owned (handles ++ [c]) size := by
  have hlt := (List.getElem?_eq_some_iff.1 hp).1
  have hget : ∀ {j : Nat} {e : Handle}, (handles ++ [c])[j]? = some e →
      handles[j]? = some e ∨ j = handles.length ∧ e = c := by
    intro j e hj
    rcases lt_or_ge j handles.length with hjl | hjl
    · rw [getElem?_append_left hjl] at hj
      exact .inl hj
    · rw [getElem?_append_right hjl] at hj
      obtain ⟨hz, heq⟩ := List.getElem?_eq_some_iff.1 hj
      rw [length_singleton] at hz
      rw [getElem_singleton] at heq
      exact .inr ⟨by omega, heq.symm⟩
  have hold : ∀ {j : Nat} {e : Handle}, handles[j]? = some e → (handles ++ [c])[j]? = some e := by
    intro j e hj
    rwa [getElem?_append_left (List.getElem?_eq_some_iff.1 hj).1]
  refine ⟨?_, ?_, ?_, ?_⟩
  · intro j e q hj hq
    rcases hget hj with hj | ⟨rfl, rfl⟩
    · exact h.parent_lt hj hq
    · rw [hparent] at hq
      cases hq
      exact hlt
  · intro j e hj hown
    rcases hget hj with hj | ⟨rfl, rfl⟩
    · obtain ⟨q, f, hq, hf, hobj, hlen⟩ := h.borrowed hj hown
      exact ⟨q, f, hq, hold hf, hobj, hlen⟩
    · rcases hc with ⟨-, hobj, hlen⟩ | ⟨hown', -⟩
      · exact ⟨p, d, hparent, hold hp, hobj.symm, hlen.symm⟩
      · rw [hown] at hown'
        cases hown'
  · intro j k a e f hj hk he hf hea hfa
    have hnew : ∀ {g : Handle}, g = c → g.own = true → g.obj = some a → False := by
      rintro g rfl hg hga
      rcases hc with ⟨hown, -⟩ | ⟨-, hnone⟩
      · rw [hg] at hown
        cases hown
      · rw [hga] at hnone
        cases hnone
    rcases hget hj with hj | ⟨-, rfl⟩
    · rcases hget hk with hk | ⟨-, rfl⟩
      · exact h.unique hj hk he hf hea hfa
      · exact (hnew rfl hf hfa).elim
    · exact (hnew rfl he hea).elim
  · intro j a e hj hea
    rcases hget hj with hj | ⟨rfl, rfl⟩
    · exact h.bound hj hea
    · rcases hc with ⟨-, hobj, -⟩ | ⟨-, hnone⟩
      · exact h.bound hp (hobj ▸ hea)
      · rw [hnone] at hea
        cases hea

end

end SyslogNg.Lib
