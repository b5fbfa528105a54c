import SyslogNg.SyslogFormat.Bounds
import SyslogNg.SyslogFormat.SdRead

/-!
# Reading structured data inside a data block

`log_msg_parse_sd` reads behind the text if the text ends in an id, or where an id or the name of a
parameter is to start; and it reads behind its buffer if an id and a name do not fit into it
(`ElementsCut`).
-/

namespace SyslogNg.SyslogFormat

open List
open Option hiding all all_eq_true or or_self

/-! ## The parts of an element -/

def WordOk (word : List UInt8) : Prop :=
  word ≠ [] ∧ word.length ≤ 32 ∧ ∀ b ∈ word, isSdNameChar b = true

def valueEnd : (quote : Bool) → List UInt8 → Option (List UInt8)
  | _, [] => some []
  | quote, b :: rest =>
    if b = 34 ∧ quote = false then some (b :: rest)
    else if quote = false ∧ b = 92 then valueEnd true rest
    else if quote = false ∧ b = 93 then none
    else valueEnd false rest

inductive ParamEnd : List UInt8 → List UInt8 → List UInt8 → Prop where
  | mk {name value behind : List UInt8} (hname : WordOk name)
      (hvalue : valueEnd false value = some (34 :: behind)) :
      ParamEnd (name ++ 61 :: 34 :: value) name behind

inductive ParamsEnd (id : List UInt8) : List UInt8 → List UInt8 → Prop where
  | done {rest : List UInt8} (h : rest.head?.all (· == 93) = true) : ParamsEnd id rest rest
  | next {rest name behind last : List UInt8} (hparam : ParamEnd rest name behind)
      (hfits : FitsBuffer id name) (hmore : ParamsEnd id behind last) : ParamsEnd id (32 :: rest) last

/-- Parameters that are read too far: the text ends behind a space, or a name does not fit into the
buffer. -/
inductive ParamsCut (tail id : List UInt8) : List UInt8 → Prop where
  | space (htail : tail = []) : ParamsCut tail id [32]
  | buffer {rest name behind : List UInt8} (hparam : ParamEnd rest name behind)
      (hlong : ¬ FitsBuffer id name) : ParamsCut tail id (32 :: rest)
  | next {rest name behind : List UInt8} (hparam : ParamEnd rest name behind)
      (hfits : FitsBuffer id name) (hmore : ParamsCut tail id behind) : ParamsCut tail id (32 :: rest)

inductive ElementEnd : List UInt8 → List UInt8 → Prop where
  | mk {id rest behind : List UInt8} (hid : WordOk id) (hparams : ParamsEnd id rest (93 :: behind)) :
      ElementEnd (id ++ rest) behind

/-- Elements that are read too far: the text ends in front of an id or in it, or in the parameters. -/
inductive ElementsCut (tail : List UInt8) : List UInt8 → Prop where
  | empty (htail : tail = []) : ElementsCut tail []
  | word {id : List UInt8} (hid : WordOk id) (htail : tail = []) : ElementsCut tail id
  | params {id rest : List UInt8} (hid : WordOk id) (hparams : ParamsCut tail id rest) :
      ElementsCut tail (id ++ rest)
  | next {rest more : List UInt8} (helement : ElementEnd rest (91 :: more)) (hmore : more ≠ [])
      (hcut : ElementsCut tail more) : ElementsCut tail rest

section

variable {rest tail : List UInt8}

theorem WordOk.stops {word : List UInt8} {stop : UInt8 → Bool}
    (hstop : ∀ b, stop b = true → isSdNameChar b = false) (h : WordOk word) :
    ∀ b ∈ word, (!stop b) = true := by
  intro b hb
  rw [Bool.not_eq_true', ← Bool.not_eq_true]
  intro hs
  have := h.2.2 b hb
  rw [hstop b hs] at this
  cases this

theorem WordOk.split {word behind : List UInt8} {stop : UInt8 → Bool} (h : WordOk word)
    (hstop : ∀ b, stop b = true → isSdNameChar b = false) (hbehind : behind.head?.all stop = true) :
    ((word ++ behind).takeWhile fun b => !stop b) = word ∧
      ((word ++ behind).dropWhile fun b => !stop b) = behind := by
  have hall := h.stops hstop
  rw [takeWhile_append_of_pos hall, dropWhile_append_of_pos hall]
  cases behind with
  | nil => simp
  | cons b behind =>
    have hb : stop b = true := by simpa using hbehind
    rw [takeWhile_cons_of_neg (by simp [hb]), dropWhile_cons_of_neg (by simp [hb])]
    simp

theorem ParamEnd.unique {name name' behind behind' : List UInt8} (h : ParamEnd rest name behind)
    (h' : ParamEnd rest name' behind') : name = name' ∧ behind = behind' := by
  have hstop : ∀ b : UInt8, (b == 61) = true → isSdNameChar b = false := by
    intro b hb
    rw [beq_iff_eq] at hb
    rw [hb]
    rfl
  obtain ⟨hname, hvalue⟩ := h
  rename_i value
  generalize htext : name ++ 61 :: 34 :: value = text at h'
  obtain ⟨hname', hvalue'⟩ := h'
  rename_i value'
  obtain ⟨htake, hdrop⟩ := @WordOk.split name (61 :: 34 :: value) (· == 61) hname hstop rfl
  obtain ⟨htake', hdrop'⟩ := @WordOk.split name' (61 :: 34 :: value') (· == 61) hname' hstop rfl
  rw [htext] at htake hdrop
  have hsame : 61 :: 34 :: value = 61 :: 34 :: value' := hdrop.symm.trans hdrop'
  simp only [List.cons.injEq, true_and] at hsame
  rw [hsame, hvalue', some.injEq, List.cons.injEq] at hvalue
  exact ⟨htake.symm.trans htake', hvalue.2.symm⟩

theorem ParamEnd.inv {word behind name last : List UInt8} (h : ParamEnd (word ++ behind) name last)
    (hword : WordOk word ∨ word = [] ∧ word ++ behind = []) (hbehind : behind.head?.all (· == 61) = true) :
    name = word ∧ ∃ value, behind = 61 :: 34 :: value ∧ valueEnd false value = some (34 :: last) := by
  have hstop : ∀ b : UInt8, (b == 61) = true → isSdNameChar b = false := by
    intro b hb
    rw [beq_iff_eq] at hb
    rw [hb]
    rfl
  generalize htext : word ++ behind = text at h
  obtain ⟨hname, hvalue⟩ := h
  rename_i value
  rcases hword with hword | ⟨rfl, hnil⟩
  · obtain ⟨htake, hdrop⟩ := @WordOk.split name (61 :: 34 :: value) (· == 61) hname hstop rfl
    obtain ⟨htake', hdrop'⟩ := @WordOk.split word behind (· == 61) hword hstop hbehind
    rw [htext] at htake' hdrop'
    exact ⟨htake.symm.trans htake', value, hdrop'.symm.trans hdrop, hvalue⟩
  · rw [htext] at hnil
    simp at hnil

theorem valueEnd_length {quote : Bool} {behind : List UInt8} (h : valueEnd quote rest = some behind) :
    behind <:+ rest := by
  induction rest generalizing quote with
  | nil =>
    rw [valueEnd, some.injEq] at h
    rw [← h]
  | cons b rest ih =>
    rw [valueEnd] at h
    split at h
    · rw [← some.inj h]
    · split at h
      · exact (ih h).trans (suffix_cons b rest)
      · split at h
        · cases h
        · exact (ih h).trans (suffix_cons b rest)

theorem ParamEnd.suffix {name behind : List UInt8} (h : ParamEnd rest name behind) : behind <:+ rest := by
  obtain ⟨-, hvalue⟩ := h
  refine (suffix_cons 34 behind).trans ((valueEnd_length hvalue).trans ?_)
  exact (suffix_cons 34 _).trans ((suffix_cons 61 _).trans (suffix_append _ _))

theorem not_done_space (more : List UInt8) : ¬ (32 :: more).head?.all (· == 93) = true := by
  simp

theorem ParamEnd.ne_nil {name behind : List UInt8} (h : ParamEnd rest name behind) : rest ≠ [] := by
  obtain ⟨hname, -⟩ := h
  simp

section

variable {id more name behind : List UInt8}

theorem paramsEnd_iff {last : List UInt8} (hend : ParamEnd more name behind) (hfits : FitsBuffer id name) :
    ParamsEnd id (32 :: more) last ↔ ParamsEnd id behind last := by
  refine ⟨fun h => ?_, .next hend hfits⟩
  cases h with
  | done hdone => exact absurd hdone (not_done_space more)
  | next hend' _ hmore =>
    obtain ⟨-, rfl⟩ := hend.unique hend'
    exact hmore

end

theorem ParamsEnd.unique {id last last' : List UInt8} (h : ParamsEnd id rest last)
    (h' : ParamsEnd id rest last') : last = last' := by
  induction h generalizing last' with
  | done hdone =>
    cases h' with
    | done => rfl
    | next => exact absurd hdone (not_done_space _)
  | next hparam hfits _ ih => exact ih ((paramsEnd_iff hparam hfits).1 h')

theorem ParamsEnd.suffix {id last : List UInt8} (h : ParamsEnd id rest last) : last <:+ rest := by
  induction h with
  | done => exact suffix_rfl
  | next hparam _ _ ih => exact ih.trans (hparam.suffix.trans (suffix_cons 32 _))

theorem idStop_char {b : UInt8} (h : (b == 32 || b == 93) = true) : isSdNameChar b = false := by
  rw [Bool.or_eq_true, beq_iff_eq, beq_iff_eq] at h
  rcases h with rfl | rfl
  · rfl
  · rfl

def BehindId (rest : List UInt8) : Prop := rest.head?.all (fun b => b == 32 || b == 93) = true

theorem ParamsEnd.behindId {id last : List UInt8} (h : ParamsEnd id rest last) : BehindId rest := by
  cases h with
  | done hdone =>
    cases rest with
    | nil => rfl
    | cons b rest =>
      have hb : b = 93 := by simpa using hdone
      rw [hb]
      rfl
  | next => rfl

theorem ParamsCut.behindId {id : List UInt8} (h : ParamsCut tail id rest) : BehindId rest := by
  cases h with
  | space => rfl
  | buffer => rfl
  | next => rfl

section

variable {id behind : List UInt8}

theorem id_unique {id' behind' : List UInt8} (hid : WordOk id) (hid' : WordOk id')
    (hbehind : BehindId behind) (hbehind' : BehindId behind') (heq : id ++ behind = id' ++ behind') :
    id = id' ∧ behind = behind' := by
  obtain ⟨htake, hdrop⟩ := hid.split (fun _ => idStop_char) hbehind
  obtain ⟨htake', hdrop'⟩ := hid'.split (fun _ => idStop_char) hbehind'
  rw [heq] at htake hdrop
  exact ⟨htake.symm.trans htake', hdrop.symm.trans hdrop'⟩

theorem elementEnd_iff {last : List UInt8} (hid : WordOk id) (hbehind : BehindId behind) :
    ElementEnd (id ++ behind) last ↔ ParamsEnd id behind (93 :: last) := by
  refine ⟨fun h => ?_, .mk hid⟩
  generalize htext : id ++ behind = text at h
  obtain ⟨hid', hparams⟩ := h
  obtain ⟨rfl, rfl⟩ := id_unique hid hid' hbehind hparams.behindId htext
  exact hparams

end

theorem ElementEnd.suffix {behind : List UInt8} (h : ElementEnd rest behind) : 93 :: behind <:+ rest := by
  obtain ⟨hid, hparams⟩ := h
  exact hparams.suffix.trans (suffix_append _ _)

def ElementCut (tail rest : List UInt8) : Prop :=
  (rest = [] ∧ tail = []) ∨ (WordOk rest ∧ tail = []) ∨
    ∃ id params, WordOk id ∧ rest = id ++ params ∧ ParamsCut tail id params

theorem ElementsCut.cases (h : ElementsCut tail rest) :
    ElementCut tail rest ∨ ∃ more, ElementEnd rest (91 :: more) ∧ more ≠ [] ∧ ElementsCut tail more := by
  cases h with
  | empty htail => exact .inl (.inl ⟨rfl, htail⟩)
  | word hid htail => exact .inl (.inr (.inl ⟨hid, htail⟩))
  | params hid hparams => exact .inl (.inr (.inr ⟨_, _, hid, rfl, hparams⟩))
  | next helement hmore hcut => exact .inr ⟨_, helement, hmore, hcut⟩

theorem ElementEnd.unique {behind behind' : List UInt8} (h : ElementEnd rest behind)
    (h' : ElementEnd rest behind') : behind = behind' := by
  obtain ⟨hid, hparams⟩ := h
  have := hparams.unique ((elementEnd_iff hid hparams.behindId).1 h')
  exact (List.cons.inj this).2

end

end SyslogNg.SyslogFormat
