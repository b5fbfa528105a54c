import SyslogNg.Lib.Contiguous
import SyslogNg.SyslogFormat.SdWrite

/-!
# Blocks that are written

Where the names of one block stand together, `log_msg_append_format_sdata` opens every block once, with
all of its parameters. A sequence number goes to the first block that starts with `meta.`, or to a
block of its own behind them.
-/

namespace SyslogNg.SyslogFormat

open Lib List

/-- The block of a name, without the prefix. -/
def blockOf (name : List UInt8) : List UInt8 := (splitName name).1

/-- `.SDATA.<block>.<param>`. -/
def SdataName (name : List UInt8) : Prop :=
  ∃ block param, name = logmsgSdPrefix ++ block ++ 46 :: param ∧ 46 ∉ param

def isMeta (name : List UInt8) : Bool := (name.drop 7).take 5 == "meta.".toUTF8.toList

def needsSeqNum (msg : LogMessage) (seqNum : Nat) : Bool :=
  !decide ((msg.getValue metaSeqid).headD 0 ≠ 0) && seqNum != 0

def sequenceParam (seqNum : Nat) : SdParam where
  name := "sequenceId".toUTF8.toList
  value := if seqNum < 2 ^ 31 then decimal seqNum else 45 :: decimal (2 ^ 32 - seqNum)

def sequenceBlock (names : List (List UInt8)) : List UInt8 :=
  ((names.find? isMeta).map blockOf).getD "meta".toUTF8.toList

def generatedParams (msg : LogMessage) (seqNum : Nat) (names : List (List UInt8))
    (block : List UInt8) : List SdParam :=
  if needsSeqNum msg seqNum = true ∧ block = sequenceBlock names then [sequenceParam seqNum] else []

/-- What is written: every block once, with the parameters of its names. -/
structure WritesBlocks (msg : LogMessage) (seqNum : Nat) (elements : List SdElement) : Prop where
  text : logMsgAppendFormatSdata msg seqNum = elementsText elements
  once : (elements.map SdElement.id).Nodup
  blocks : ∀ id, id ∈ elements.map SdElement.id ↔
    (∃ name ∈ msg.sdata, blockOf name = id) ∨ generatedParams msg seqNum msg.sdata id ≠ []
  params : ∀ element ∈ elements, element.params = generatedParams msg seqNum msg.sdata element.id ++
    (msg.sdata.filter fun name => blockOf name = element.id).flatMap (nameParams msg)

section

variable {msg : LogMessage} {st : SdataState} {seqNum : Nat} {name : List UInt8}

/-! ## Names -/

theorem blockOf_eq {block param : List UInt8} (hdot : 46 ∉ param) :
    blockOf (logmsgSdPrefix ++ block ++ 46 :: param) = block := by
  have hdrop : (logmsgSdPrefix ++ block ++ 46 :: param).drop 7 = block ++ 46 :: param := by
    rw [append_assoc]
    rfl
  rw [blockOf, splitName_of_dot hdrop hdot]

theorem isMeta_iff (hname : SdataName name) :
    isMeta name = ((blockOf name ++ [46]).take 5 == [109, 101, 116, 97, 46]) := by
  obtain ⟨block, param, rfl, hdot⟩ := hname
  rw [blockOf_eq hdot]
  have htext : "meta.".toUTF8.toList = [109, 101, 116, 97, 46] := by decide +kernel
  have hdrop : (logmsgSdPrefix ++ block ++ 46 :: param).drop 7 = block ++ 46 :: param := by
    rw [append_assoc]
    rfl
  unfold isMeta
  rw [htext, hdrop]
  match block with
  | [] => cases param <;> simp
  | [a] => simp
  | [a, b] => simp
  | [a, b, c] => simp
  | a :: b :: c :: d :: rest => cases rest <;> simp

theorem isMeta_congr {name' : List UInt8} (hname : SdataName name) (hname' : SdataName name')
    (hblock : blockOf name = blockOf name') : isMeta name = isMeta name' := by
  rw [isMeta_iff hname, isMeta_iff hname', hblock]

theorem isMeta_of_meta (hname : SdataName name) (hblock : blockOf name = "meta".toUTF8.toList) :
    isMeta name = true := by
  rw [isMeta_iff hname, hblock]
  decide +kernel

/-! ## One name -/

def addParams (groups : List SdElement) (id : List UInt8) (params : List SdParam) : List SdElement :=
  match groups with
  | [] => [⟨id, params⟩]
  | group :: groups =>
    if group.id = id then { group with params := group.params ++ params } :: groups
    else ⟨id, params⟩ :: group :: groups

theorem openText_add {groups : List SdElement} (h : OpenText groups st) (id : List UInt8)
    (params : List SdParam) (hasSeqNum : Bool) :
    OpenText (addParams groups id params)
      ⟨st.opened id ++ params.flatMap SdParam.text, some id, hasSeqNum⟩ := by
  have hclosed := h.closed
  cases groups with
  | nil =>
    obtain ⟨hresult, hcur⟩ := h
    simp [addParams, OpenText, SdataState.opened, hresult, hcur, elementsText]
  | cons group groups =>
    obtain ⟨hresult, hcur⟩ := h
    rw [addParams]
    by_cases hsame : group.id = id
    · rw [if_pos hsame]
      refine ⟨?_, by simp [hsame]⟩
      rw [SdataState.opened, if_pos (by rw [hcur, hsame]), hresult]
      simp
    · have hopened : st.opened id = st.closed ++ 91 :: id := by
        rw [SdataState.opened, if_neg (by rw [hcur]; simpa using hsame), SdataState.closed]
      rw [if_neg hsame]
      refine ⟨?_, rfl⟩
      rw [hopened, hclosed]
      simp

def writtenParams (msg : LogMessage) (seqNum : Nat) (pending : Bool) (name : List UInt8) :
    List SdParam :=
  (if pending && isMeta name then [sequenceParam seqNum] else []) ++ nameParams msg name

theorem escaped_of_digits {value : List UInt8} (h : ∀ b ∈ value, b ≠ 34 ∧ b ≠ 92 ∧ b ≠ 93) :
    sdataAppendEscaped value = value := by
  induction value with
  | nil => rfl
  | cons b value ih =>
    obtain ⟨h1, h2, h3⟩ := h b mem_cons_self
    have hone : sdataAppendEscaped (b :: value) = b :: sdataAppendEscaped value := by
      simp [sdataAppendEscaped, h1, h2, h3]
    rw [hone, ih fun c hc => h c (mem_cons_of_mem b hc)]

theorem sequenceParam_text (seqNum : Nat) : (sequenceParam seqNum).text = 32 :: sequenceId seqNum := by
  have hdigit : ∀ n, ∀ b ∈ decimal n, b ≠ 34 ∧ b ≠ 92 ∧ b ≠ 93 := by
    intro n b hb
    obtain ⟨h1, h2⟩ := decimal_digit hb
    refine ⟨?_, ?_, ?_⟩
    · rintro rfl
      exact absurd h1 (by decide)
    · rintro rfl
      exact absurd h2 (by decide)
    · rintro rfl
      exact absurd h2 (by decide)
  have hvalue : sdataAppendEscaped (sequenceParam seqNum).value = (sequenceParam seqNum).value := by
    refine escaped_of_digits fun b hb => ?_
    unfold sequenceParam at hb
    dsimp only at hb
    split at hb
    · exact hdigit _ b hb
    · rcases mem_cons.1 hb with rfl | hb
      · decide
      · exact hdigit _ b hb
  have hname : (sequenceParam seqNum).name ++ [61, 34] = "sequenceId=\"".toUTF8.toList := by
    show "sequenceId".toUTF8.toList ++ [61, 34] = _
    decide +kernel
  unfold SdParam.text sequenceId
  rw [hvalue, ← hname]
  simp [sequenceParam]

/-- **A name** is written in its block. -/
theorem openText_name {groups : List SdElement} {pending : Bool} (h : OpenText groups st)
    (hpending : pending = (!st.hasSeqNum && seqNum != 0)) (name : List UInt8) :
    OpenText (addParams groups (blockOf name) (writtenParams msg seqNum pending name))
        (formatSdataStep msg seqNum st name) ∧ (pending && !isMeta name) =
        (!(formatSdataStep msg seqNum st name).hasSeqNum && seqNum != 0) := by
  subst hpending
  have hwritten : formatSdataStep msg seqNum st name = ⟨st.opened (blockOf name) ++
      (writtenParams msg seqNum (!st.hasSeqNum && seqNum != 0) name).flatMap SdParam.text,
      some (blockOf name), st.hasSeqNum || (!st.hasSeqNum && seqNum != 0 && isMeta name)⟩ := by
    unfold formatSdataStep writtenParams nameParams blockOf isMeta SdataState.opened
    have hseq := sequenceParam_text seqNum
    cases hsplit : splitName name with
    | mk elem param =>
      have htext : ∀ value, SdParam.text ⟨param, value⟩ =
          32 :: (param ++ 61 :: 34 :: (sdataAppendEscaped value ++ [34])) := fun _ => by
        simp [SdParam.text]
      by_cases hparam : param = []
      · by_cases hadd : (!st.hasSeqNum && seqNum != 0 &&
            (name.drop 7).take 5 == "meta.".toUTF8.toList) = true
        · simp only [hadd, hparam, ↓reduceIte]
          simp [hseq]
        · simp only [hadd, hparam, ↓reduceIte]
          simp
      · by_cases hadd : (!st.hasSeqNum && seqNum != 0 &&
            (name.drop 7).take 5 == "meta.".toUTF8.toList) = true
        · simp only [hadd, hparam, ↓reduceIte]
          simp [hseq, htext]
        · simp only [hadd, hparam, ↓reduceIte]
          simp [htext]
  rw [hwritten]
  refine ⟨openText_add h _ _ _, ?_⟩
  cases st.hasSeqNum <;> cases seqNum != 0 <;> cases isMeta name <;> rfl

/-! ## All names -/

/-- The elements so far, the last one first, and whether the sequence number is pending. -/
def blocksStep (msg : LogMessage) (seqNum : Nat) (s : List SdElement × Bool) (name : List UInt8) :
    List SdElement × Bool :=
  (addParams s.1 (blockOf name) (writtenParams msg seqNum s.2 name), s.2 && !isMeta name)

theorem openText_names {s : List SdElement × Bool} (h : OpenText s.1 st)
    (hpending : s.2 = (!st.hasSeqNum && seqNum != 0)) (names : List (List UInt8)) :
    OpenText (names.foldl (blocksStep msg seqNum) s).1 (names.foldl (formatSdataStep msg seqNum) st) ∧
      (names.foldl (blocksStep msg seqNum) s).2 =
        (!(names.foldl (formatSdataStep msg seqNum) st).hasSeqNum && seqNum != 0) := by
  induction names generalizing s st with
  | nil => exact ⟨h, hpending⟩
  | cons name names ih =>
    obtain ⟨h1, hpending1⟩ := openText_name h hpending name
    exact ih h1 hpending1

structure BlocksOf (msg : LogMessage) (seqNum : Nat) (names : List (List UInt8))
    (s : List SdElement × Bool) : Prop where
  pending : s.2 = (needsSeqNum msg seqNum && !names.any isMeta)
  last : s.1.head?.map SdElement.id = names.getLast?.map blockOf
  once : (s.1.map SdElement.id).Nodup
  blocks : ∀ id, id ∈ s.1.map SdElement.id ↔ ∃ name ∈ names, blockOf name = id
  params : ∀ group ∈ s.1, group.params = generatedParams msg seqNum names group.id ++
    (names.filter fun name => blockOf name = group.id).flatMap (nameParams msg)

theorem sequenceBlock_append (names : List (List UInt8)) (name : List UInt8) :
    sequenceBlock (names ++ [name]) =
      if names.any isMeta = false ∧ isMeta name = true then blockOf name else sequenceBlock names := by
  unfold sequenceBlock
  rw [find?_append]
  cases hfind : names.find? isMeta with
  | some n =>
    have hany : names.any isMeta = true :=
      any_eq_true.2 ⟨n, mem_of_find?_eq_some hfind, find?_some hfind⟩
    simp [hany]
  | none =>
    have hnone := find?_eq_none.1 hfind
    have hany : names.any isMeta = false := by
      rw [any_eq_false]
      exact fun n hn => by simpa using hnone n hn
    cases hmeta : isMeta name <;> simp [hany, hmeta]

variable {names : List (List UInt8)}

theorem sequenceBlock_mem (hany : names.any isMeta = true) :
    ∃ name ∈ names, isMeta name = true ∧ blockOf name = sequenceBlock names := by
  obtain ⟨n, hn, hmeta⟩ := any_eq_true.1 hany
  cases hfind : names.find? isMeta with
  | none => exact absurd hmeta (find?_eq_none.1 hfind n hn)
  | some found =>
    refine ⟨found, mem_of_find?_eq_some hfind, find?_some hfind, ?_⟩
    rw [sequenceBlock, hfind]
    rfl

theorem sequenceBlock_of_none (hany : names.any isMeta = false) :
    sequenceBlock names = "meta".toUTF8.toList := by
  have hfind : names.find? isMeta = none := by
    rw [find?_eq_none]
    exact fun n hn => by simpa using any_eq_false.1 hany n hn
  rw [sequenceBlock, hfind]
  rfl

theorem generatedParams_append {id : List UInt8} (hvalid : ∀ n ∈ names ++ [name], SdataName n)
    (hid : ∃ n ∈ names, blockOf n = id) :
    generatedParams msg seqNum (names ++ [name]) id = generatedParams msg seqNum names id := by
  unfold generatedParams
  rw [sequenceBlock_append]
  split
  case isFalse => rfl
  case isTrue hnew =>
    obtain ⟨n, hn, rfl⟩ := hid
    have hmeta : isMeta n = false := by simpa using any_eq_false.1 hnew.1 n hn
    have hn' := hvalid n (mem_append_left _ hn)
    have hname := hvalid name (mem_append_right _ mem_cons_self)
    have hne : blockOf n ≠ blockOf name := by
      intro heq
      rw [isMeta_congr hn' hname heq, hnew.2] at hmeta
      cases hmeta
    have hne' : blockOf n ≠ sequenceBlock names := by
      rw [sequenceBlock_of_none hnew.1]
      intro heq
      rw [isMeta_of_meta hn' heq] at hmeta
      cases hmeta
    simp [hne, hne']

theorem filter_append_self (names : List (List UInt8)) (name : List UInt8) :
    (names ++ [name]).filter (fun n => blockOf n = blockOf name) =
      names.filter (fun n => blockOf n = blockOf name) ++ [name] := by
  simp [filter_append]

theorem filter_append_ne {id : List UInt8} (hne : id ≠ blockOf name) :
    (names ++ [name]).filter (fun n => blockOf n = id) = names.filter fun n => blockOf n = id := by
  simp [filter_append, Ne.symm hne]

theorem generatedParams_new (hname : SdataName name) (hnew : ∀ n ∈ names, blockOf n ≠ blockOf name) :
    generatedParams msg seqNum (names ++ [name]) (blockOf name) =
      if (needsSeqNum msg seqNum && !names.any isMeta && isMeta name) = true then
        [sequenceParam seqNum] else [] := by
  unfold generatedParams
  rw [sequenceBlock_append]
  cases hany : names.any isMeta with
  | true =>
    obtain ⟨n, hn, -, hblock⟩ := sequenceBlock_mem hany
    have hne : blockOf name ≠ sequenceBlock names := fun heq => hnew n hn (hblock.trans heq.symm)
    simp [hne]
  | false =>
    cases hmeta : isMeta name with
    | true => simp
    | false =>
      have hne : blockOf name ≠ sequenceBlock names := by
        rw [sequenceBlock_of_none hany]
        intro heq
        rw [isMeta_of_meta hname heq] at hmeta
        cases hmeta
      simp [hne]

theorem blocksOf_step {s : List SdElement × Bool} (h : BlocksOf msg seqNum names s)
    (hvalid : ∀ n ∈ names ++ [name], SdataName n) (hcont : Contiguous ((names ++ [name]).map blockOf)) :
    BlocksOf msg seqNum (names ++ [name]) (blocksStep msg seqNum s name) := by
  have hname := hvalid name (mem_append_right _ mem_cons_self)
  have hpending : (blocksStep msg seqNum s name).2 =
      (needsSeqNum msg seqNum && !(names ++ [name]).any isMeta) := by
    show (s.2 && !isMeta name) = _
    rw [h.pending, any_append]
    cases names.any isMeta <;> simp
  -- the block of the name is the last one, or it is new
  have hlast : (∃ n ∈ names, blockOf n = blockOf name) →
      s.1.head?.map SdElement.id = some (blockOf name) := by
    rintro ⟨n, hn, heq⟩
    rw [map_append] at hcont
    obtain ⟨hold, -, hcross⟩ := contiguous_append.1 hcont
    have := (hcross (blockOf name) (heq ▸ mem_map_of_mem hn) mem_cons_self).1
    rw [h.last, ← getLast?_map]
    exact this
  have hgetLast : ((names ++ [name]).getLast?).map blockOf = some (blockOf name) := by
    rw [getLast?_concat]
    rfl
  have hblocks : ∀ id, (∃ n ∈ names ++ [name], blockOf n = id) ↔
      (∃ n ∈ names, blockOf n = id) ∨ blockOf name = id := by
    intro id
    simp [or_and_right, exists_or]
  have hkept : ∀ group ∈ s.1, group.id ≠ blockOf name → group.params =
      generatedParams msg seqNum (names ++ [name]) group.id ++
        ((names ++ [name]).filter fun n => blockOf n = group.id).flatMap (nameParams msg) := by
    intro group hgroup hne
    have hid := (h.blocks group.id).1 (mem_map_of_mem hgroup)
    rw [generatedParams_append hvalid hid, filter_append_ne hne]
    exact h.params group hgroup
  obtain ⟨groups, pending⟩ := s
  by_cases hold : ∃ n ∈ names, blockOf n = blockOf name
  · obtain ⟨group, hhead, hid⟩ := Option.map_eq_some_iff.1 (hlast hold)
    obtain ⟨groups, rfl⟩ : ∃ rest, groups = group :: rest := by
      cases groups with
      | nil => cases hhead
      | cons g rest => exact ⟨rest, by rw [Option.some.inj hhead]⟩
    have hwritten : writtenParams msg seqNum pending name = nameParams msg name := by
      obtain ⟨n, hn, heq⟩ := hold
      have hquiet : (pending && isMeta name) = false := by
        rw [show pending = _ from h.pending, ← isMeta_congr (hvalid n (mem_append_left _ hn)) hname heq]
        cases hmeta : isMeta n with
        | false => simp
        | true =>
          have : names.any isMeta = true := any_eq_true.2 ⟨n, hn, hmeta⟩
          simp [this]
      simp [writtenParams, hquiet]
    have hstep : (blocksStep msg seqNum (group :: groups, pending) name).1 =
        { group with params := group.params ++ nameParams msg name } :: groups := by
      show addParams (group :: groups) (blockOf name) (writtenParams msg seqNum pending name) = _
      rw [hwritten, addParams, if_pos hid]
    refine ⟨hpending, ?_, ?_, fun id => ?_, fun g hg => ?_⟩
    · rw [hstep, hgetLast]
      exact congrArg some hid
    · rw [hstep]
      exact h.once
    · rw [hstep, hblocks]
      refine (h.blocks id).trans ⟨.inl, ?_⟩
      rintro (hmem | rfl)
      · exact hmem
      · exact hold
    · rw [hstep] at hg
      have honce := h.once
      rw [map_cons, nodup_cons] at honce
      rcases mem_cons.1 hg with rfl | hg
      · have hparams := h.params group mem_cons_self
        dsimp only
        rw [hid] at hparams ⊢
        rw [generatedParams_append hvalid hold, filter_append_self, flatMap_append, hparams]
        simp
      · refine hkept g (mem_cons_of_mem _ hg) fun heq => honce.1 ?_
        rw [hid, ← heq]
        exact mem_map_of_mem hg
  · have hnew : ∀ n ∈ names, blockOf n ≠ blockOf name := fun n hn heq => hold ⟨n, hn, heq⟩
    have habsent : ∀ g ∈ groups, g.id ≠ blockOf name := by
      intro g hg heq
      exact hold (heq ▸ (h.blocks g.id).1 (mem_map_of_mem hg))
    have hstep : (blocksStep msg seqNum (groups, pending) name).1 =
        ⟨blockOf name, writtenParams msg seqNum pending name⟩ :: groups := by
      show addParams groups (blockOf name) (writtenParams msg seqNum pending name) = _
      cases groups with
      | nil => rfl
      | cons g rest => rw [addParams, if_neg (habsent g mem_cons_self)]
    refine ⟨hpending, ?_, ?_, fun id => ?_, fun g hg => ?_⟩
    · rw [hstep, hgetLast]
      rfl
    · rw [hstep, map_cons, nodup_cons]
      refine ⟨fun hmem => ?_, h.once⟩
      obtain ⟨g, hg, heq⟩ := mem_map.1 hmem
      exact habsent g hg heq
    · rw [hstep, hblocks, map_cons, mem_cons, h.blocks]
      exact ⟨fun hor => hor.symm.imp_right Eq.symm, fun hor => hor.symm.imp_left Eq.symm⟩
    · rw [hstep] at hg
      rcases mem_cons.1 hg with rfl | hg
      · have hnone : (names.filter fun n => blockOf n = blockOf name) = [] :=
          filter_eq_nil_iff.2 fun n hn => by simpa using hnew n hn
        dsimp only
        rw [generatedParams_new hname hnew, filter_append_self, hnone, writtenParams,
          show pending = _ from h.pending]
        simp
      · exact hkept g hg (habsent g hg)

/-- **The blocks** of names whose blocks stand together. -/
theorem blocksOf_names (msg : LogMessage) (seqNum : Nat) (names : List (List UInt8))
    (hvalid : ∀ n ∈ names, SdataName n) (hcont : Contiguous (names.map blockOf)) :
    BlocksOf msg seqNum names (names.foldl (blocksStep msg seqNum) ([], needsSeqNum msg seqNum)) := by
  induction names using List.reverseRecOn with
  | nil => exact ⟨by simp, rfl, nodup_nil, by simp, by simp⟩
  | append_singleton names name ih =>
    have hfirst : Contiguous (names.map blockOf) := by
      rw [map_append] at hcont
      exact (contiguous_append.1 hcont).1
    rw [foldl_append]
    exact blocksOf_step (ih (fun n hn => hvalid n (mem_append_left _ hn)) hfirst) hvalid hcont

/-- **`log_msg_append_format_sdata`** opens every block once. -/
theorem writesBlocks_of_contiguous (msg : LogMessage) (seqNum : Nat)
    (hvalid : ∀ n ∈ msg.sdata, SdataName n) (hcont : Contiguous (msg.sdata.map blockOf)) :
    ∃ elements, WritesBlocks msg seqNum elements := by
  have hblocks := blocksOf_names msg seqNum msg.sdata hvalid hcont
  obtain ⟨hopen, hpending⟩ := @openText_names msg
    ⟨[], none, decide ((msg.getValue metaSeqid).headD 0 ≠ 0)⟩ seqNum
    ([], needsSeqNum msg seqNum) ⟨rfl, rfl⟩ rfl msg.sdata
  have hwritten : logMsgAppendFormatSdata msg seqNum =
      elementsText (msg.sdata.foldl (blocksStep msg seqNum) ([], needsSeqNum msg seqNum)).1.reverse ++
        if (msg.sdata.foldl (blocksStep msg seqNum) ([], needsSeqNum msg seqNum)).2 = true then
          "[meta ".toUTF8.toList ++ sequenceId seqNum ++ [93] else [] := by
    rw [← hopen.closed, hpending, logMsgAppendFormatSdata, SdataState.closed]
    generalize msg.sdata.foldl (formatSdataStep msg seqNum)
      ⟨[], none, decide ((msg.getValue metaSeqid).headD 0 ≠ 0)⟩ = st
    cases hcur : st.curElem <;> by_cases hadd : (!st.hasSeqNum && seqNum != 0) = true <;>
      simp [hadd]
  generalize msg.sdata.foldl (blocksStep msg seqNum) ([], needsSeqNum msg seqNum) = s at hblocks hwritten
  obtain ⟨groups, pending⟩ := s
  have hmem : ∀ id, id ∈ groups.reverse.map SdElement.id ↔ ∃ name ∈ msg.sdata, blockOf name = id := by
    intro id
    rw [map_reverse, mem_reverse]
    exact hblocks.blocks id
  have honce : (groups.reverse.map SdElement.id).Nodup := by
    rw [map_reverse, nodup_reverse]
    exact hblocks.once
  have hparams : ∀ element ∈ groups.reverse, element.params =
      generatedParams msg seqNum msg.sdata element.id ++
        (msg.sdata.filter fun name => blockOf name = element.id).flatMap (nameParams msg) :=
    fun element he => hblocks.params element (mem_reverse.1 he)
  have hquiet : pending = (needsSeqNum msg seqNum && !msg.sdata.any isMeta) := hblocks.pending
  cases pending with
  | false =>
    refine ⟨groups.reverse, by simpa using hwritten, honce, fun id => ?_, hparams⟩
    rw [hmem]
    refine ⟨.inl, ?_⟩
    rintro (hname | hgenerated)
    · exact hname
    · -- the sequence number has gone to a block that is there
      unfold generatedParams at hgenerated
      split at hgenerated
      case isFalse => exact absurd rfl hgenerated
      case isTrue hneeds =>
        rw [hneeds.1, Bool.true_and] at hquiet
        obtain ⟨n, hn, -, hblock⟩ := sequenceBlock_mem (by simpa using hquiet.symm)
        exact ⟨n, hn, hblock.trans hneeds.2.symm⟩
  | true =>
    obtain ⟨hneeds, hnone⟩ : needsSeqNum msg seqNum = true ∧ msg.sdata.any isMeta = false := by
      simpa using hquiet.symm
    have hblock := sequenceBlock_of_none hnone
    have hfree : ∀ n ∈ msg.sdata, blockOf n ≠ "meta".toUTF8.toList := by
      intro n hn heq
      have hmeta := isMeta_of_meta (hvalid n hn) heq
      rw [any_eq_false.1 hnone n hn |> eq_false_of_ne_true] at hmeta
      cases hmeta
    have hgenerated : ∀ id, generatedParams msg seqNum msg.sdata id =
        if id = "meta".toUTF8.toList then [sequenceParam seqNum] else [] := by
      intro id
      rw [generatedParams, hblock]
      simp only [hneeds, true_and]
    refine ⟨groups.reverse ++ [⟨"meta".toUTF8.toList, [sequenceParam seqNum]⟩], ?_, ?_, fun id => ?_,
      fun element he => ?_⟩
    · rw [hwritten, if_pos rfl, elementsText, elementsText, flatMap_append, flatMap_singleton,
        SdElement.text, flatMap_singleton, sequenceParam_text]
      have htext : "[meta ".toUTF8.toList = 91 :: ("meta".toUTF8.toList ++ [32]) := by decide +kernel
      rw [htext]
      simp
    · rw [map_append, nodup_append]
      refine ⟨honce, by simp, ?_⟩
      rintro id hid _ hlast rfl
      obtain ⟨n, hn, heq⟩ := (hmem id).1 hid
      exact hfree n hn (heq.trans (mem_singleton.1 hlast))
    · rw [map_append, mem_append, hmem, hgenerated]
      refine or_congr_right ?_
      simp
    · rcases mem_append.1 he with he | he
      · exact hparams element he
      · rw [mem_singleton.1 he]
        dsimp only
        have hfilter : (msg.sdata.filter fun name => blockOf name = "meta".toUTF8.toList) = [] :=
          filter_eq_nil_iff.2 fun n hn => by simpa using hfree n hn
        rw [hgenerated, if_pos rfl, hfilter]
        rfl

end

end SyslogNg.SyslogFormat
