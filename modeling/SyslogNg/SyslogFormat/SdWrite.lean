import SyslogNg.SyslogFormat.SdRead

/-!
# Writing structured data

`log_msg_append_format_sdata` writes the elements that the names of a message are taken apart to. The
text of elements says which elements they are.
-/

namespace SyslogNg.SyslogFormat

open List
open SdElement hiding id

/-! ## What is written -/

theorem splitName_of_dot {name id param : List UInt8} (hname : name.drop 7 = id ++ 46 :: param)
    (hdot : 46 ∉ param) : splitName name = (id, param) := by
  have hrev : (id ++ 46 :: param).reverse.dropWhile (· ≠ 46) = 46 :: id.reverse := by
    rw [reverse_append, reverse_cons, append_assoc, dropWhile_append_of_pos (by
        intro b hb
        have : b ≠ 46 := by
          rintro rfl
          exact hdot (mem_reverse.1 hb)
        simpa using this)]
    rfl
  rw [splitName, hname, hrev]
  simp

variable {name : List UInt8}

theorem splitName_of_no_dot (hne : name.drop 7 ≠ []) (hdot : 46 ∉ name.drop 7) :
    splitName name = (name.drop 7, []) := by
  have hrev : (name.drop 7).reverse.dropWhile (· ≠ 46) = [] := by
    rw [← append_nil (name.drop 7).reverse, dropWhile_append_of_pos (by
      intro b hb
      have : b ≠ 46 := by
        rintro rfl
        exact hdot (mem_reverse.1 hb)
      simpa using this)]
    rfl
  rw [splitName, hrev]
  simp [hne]

theorem splitName_cases (hne : name.drop 7 ≠ []) :
    (46 ∉ name.drop 7 ∧ splitName name = (name.drop 7, [])) ∨
      ∃ id param, name.drop 7 = id ++ 46 :: param ∧ 46 ∉ param ∧ splitName name = (id, param) := by
  by_cases hmem : 46 ∈ name.drop 7
  · right
    obtain ⟨param, id, hrev, hdot⟩ := eq_append_cons_of_mem (mem_reverse.2 hmem)
    have hname : name.drop 7 = id.reverse ++ 46 :: param.reverse := by
      rw [← reverse_reverse (name.drop 7), hrev]
      simp
    have hdot' : 46 ∉ param.reverse := by
      simpa using hdot
    exact ⟨id.reverse, param.reverse, hname, hdot', splitName_of_dot hname hdot'⟩
  · exact .inl ⟨hmem, splitName_of_no_dot hne hmem⟩

theorem splitName_param {id name : List UInt8} (hdot : 46 ∉ name) :
    splitName (paramName id name) = (id, name) :=
  splitName_of_dot rfl hdot

theorem splitName_id {id : List UInt8} (hne : id ≠ []) (hdot : 46 ∉ id) :
    splitName (logmsgSdPrefix ++ id) = (id, []) :=
  splitName_of_no_dot hne hdot

/-- The names of an element can be taken apart: the last dot is the one that joins them. -/
def SdElement.Separable (element : SdElement) : Prop :=
  if element.params = [] then 46 ∉ element.id else ∀ param ∈ element.params, 46 ∉ param.name

/-- The result with the last element closed. -/
def SdataState.closed (st : SdataState) : List UInt8 :=
  st.result ++ (if st.curElem.isSome then [93] else [])

section

variable {msg : LogMessage} {st : SdataState}

/-- The start of an element. -/
def SdataState.opened (st : SdataState) (elem : List UInt8) : List UInt8 :=
  if st.curElem = some elem then st.result
  else st.result ++ (if st.curElem.isSome then [93] else []) ++ 91 :: elem

theorem formatSdataStep_param {id : List UInt8} {param : SdParam} (hdot : 46 ∉ param.name)
    (hne : param.name ≠ [])
    (hvalue : msg.values (.sdata (paramName id param.name)) = some param.value) :
    formatSdataStep msg 0 st (paramName id param.name) =
      ⟨st.opened id ++ param.text, some id, st.hasSeqNum⟩ := by
  unfold formatSdataStep
  rw [splitName_param hdot]
  simp [LogMessage.getValue, hvalue, hne, SdataState.opened, SdParam.text]

theorem formatSdataStep_id {id : List UInt8} (hdot : 46 ∉ id) (hne : id ≠ []) :
    formatSdataStep msg 0 st (logmsgSdPrefix ++ id) = ⟨st.opened id, some id, st.hasSeqNum⟩ := by
  unfold formatSdataStep
  rw [splitName_id hne hdot]
  simp [SdataState.opened]

theorem foldl_params {id : List UInt8} {params : List SdParam}
    (hdot : ∀ param ∈ params, 46 ∉ param.name) (hne : ∀ param ∈ params, param.name ≠ [])
    (hvalues : ∀ param ∈ params, msg.values (.sdata (paramName id param.name)) = some param.value)
    (hcur : st.curElem = some id) :
    (params.map fun param => paramName id param.name).foldl (formatSdataStep msg 0) st =
      ⟨st.result ++ params.flatMap SdParam.text, some id, st.hasSeqNum⟩ := by
  induction params generalizing st with
  | nil =>
    cases st
    simp_all
  | cons param params ih =>
    rw [map_cons, foldl_cons, formatSdataStep_param (hdot param mem_cons_self)
      (hne param mem_cons_self) (hvalues param mem_cons_self),
      ih (fun p hp => hdot p (mem_cons_of_mem _ hp)) (fun p hp => hne p (mem_cons_of_mem _ hp))
        (fun p hp => hvalues p (mem_cons_of_mem _ hp)) rfl]
    simp [SdataState.opened, hcur]

theorem foldl_element {element : SdElement} (hsep : element.Separable) (hid : element.id ≠ [])
    (hne : ∀ param ∈ element.params, param.name ≠ [])
    (hvalues : ∀ entry ∈ element.entries, msg.values (.sdata entry.1) = some entry.2)
    (hcur : st.curElem ≠ some element.id) :
    ∃ st', (element.entries.map Prod.fst).foldl (formatSdataStep msg 0) st = st' ∧
      st'.curElem = some element.id ∧ st'.hasSeqNum = st.hasSeqNum ∧
      st'.closed = st.closed ++ element.text := by
  have hopened : st.opened element.id = st.closed ++ 91 :: element.id := by
    simp [SdataState.opened, hcur, SdataState.closed]
  refine ⟨_, rfl, ?_⟩
  unfold SdElement.Separable at hsep
  cases hparams : element.params with
  | nil =>
    rw [hparams, if_pos rfl] at hsep
    have hentries : element.entries = [(logmsgSdPrefix ++ element.id, [])] := by
      rw [entries, if_pos hparams]
    rw [hentries, map_cons, foldl_cons, formatSdataStep_id hsep hid]
    refine ⟨rfl, rfl, ?_⟩
    simp [SdataState.closed, hopened, text, hparams]
  | cons param params =>
    have hnil : element.params ≠ [] := by simp [hparams]
    rw [if_neg hnil] at hsep
    have hentries : element.entries =
        (param :: params).map fun p => (paramName element.id p.name, p.value) := by
      rw [entries, if_neg hnil, hparams]
    have hvalue : ∀ p ∈ param :: params,
        msg.values (.sdata (paramName element.id p.name)) = some p.value := fun p hp =>
      hvalues (paramName element.id p.name, p.value) (hentries ▸ mem_map_of_mem hp)
    rw [hparams] at hsep hne
    rw [hentries, map_map, map_cons, foldl_cons]
    have hfirst := @formatSdataStep_param msg st element.id param (hsep param mem_cons_self)
      (hne param mem_cons_self) (hvalue param mem_cons_self)
    have hrest := @foldl_params msg ⟨st.opened element.id ++ param.text, some element.id, st.hasSeqNum⟩
      element.id params (fun p hp => hsep p (mem_cons_of_mem _ hp))
      (fun p hp => hne p (mem_cons_of_mem _ hp)) (fun p hp => hvalue p (mem_cons_of_mem _ hp))
      rfl
    rw [← hfirst] at hrest
    have hfold : (params.map (Prod.fst ∘ fun p => (paramName element.id p.name, p.value))).foldl
        (formatSdataStep msg 0) (formatSdataStep msg 0 st (paramName element.id param.name)) =
        ⟨st.opened element.id ++ param.text ++ params.flatMap SdParam.text, some element.id,
          st.hasSeqNum⟩ := by
      rw [hfirst] at hrest ⊢
      exact hrest
    rw [show (Prod.fst ∘ fun p => (paramName element.id p.name, p.value)) param =
      paramName element.id param.name from rfl, hfold]
    refine ⟨rfl, rfl, ?_⟩
    simp [SdataState.closed, hopened, text, hparams]

theorem foldl_elements {elements : List SdElement} (hnodup : (elements.map SdElement.id).Nodup)
    (hsep : ∀ element ∈ elements, element.Separable) (hid : ∀ element ∈ elements, element.id ≠ [])
    (hne : ∀ element ∈ elements, ∀ param ∈ element.params, param.name ≠ [])
    (hvalues : ∀ element ∈ elements, ∀ entry ∈ element.entries, msg.values (.sdata entry.1) = some entry.2)
    (hcur : ∀ element ∈ elements, st.curElem ≠ some element.id) :
    ∃ st', ((elements.flatMap entries).map Prod.fst).foldl (formatSdataStep msg 0) st = st' ∧
      st'.closed = st.closed ++ elementsText elements := by
  induction elements generalizing st with
  | nil => exact ⟨st, rfl, by simp [elementsText]⟩
  | cons element elements ih =>
    rw [map_cons, nodup_cons] at hnodup
    obtain ⟨st1, hfold, hcur1, -, hclosed⟩ := foldl_element (hsep element mem_cons_self)
      (hid element mem_cons_self) (hne element mem_cons_self)
      (hvalues element mem_cons_self) (hcur element mem_cons_self)
    obtain ⟨st2, hfold2, hclosed2⟩ := @ih st1 hnodup.2
      (fun e he => hsep e (mem_cons_of_mem _ he)) (fun e he => hid e (mem_cons_of_mem _ he))
      (fun e he => hne e (mem_cons_of_mem _ he)) (fun e he => hvalues e (mem_cons_of_mem _ he))
      (fun e he heq => by
        rw [hcur1] at heq
        exact hnodup.1 (Option.some.inj heq ▸ mem_map_of_mem he))
    refine ⟨st2, ?_, ?_⟩
    · rw [flatMap_cons, map_append, foldl_append, hfold]
      exact hfold2
    · rw [hclosed2, hclosed, elementsText, elementsText, flatMap_cons, append_assoc]

theorem logMsgAppendFormatSdata_eq {elements : List SdElement}
    (hnodup : (elements.map SdElement.id).Nodup)
    (hsep : ∀ element ∈ elements, element.Separable) (hid : ∀ element ∈ elements, element.id ≠ [])
    (hne : ∀ element ∈ elements, ∀ param ∈ element.params, param.name ≠ [])
    (hvalues : ∀ element ∈ elements, ∀ entry ∈ element.entries, msg.values (.sdata entry.1) = some entry.2)
    (hsdata : msg.sdata = (elements.flatMap entries).map Prod.fst) :
    logMsgAppendFormatSdata msg 0 = elementsText elements := by
  obtain ⟨st, hfold, hclosed⟩ := @foldl_elements msg
    ⟨[], none, decide ((msg.getValue metaSeqid).headD 0 ≠ 0)⟩ elements hnodup hsep hid hne hvalues
    (by simp)
  unfold logMsgAppendFormatSdata
  simp only [hsdata, hfold]
  have hnil : SdataState.closed ⟨[], none, decide ((msg.getValue metaSeqid).headD 0 ≠ 0)⟩ = [] := rfl
  rw [hnil, nil_append] at hclosed
  rw [← hclosed, SdataState.closed]
  cases st.curElem <;> simp

end

/-! ## The text of elements is unique -/

theorem append_stop_inj {stop : UInt8 → Bool} {name name' src src' : List UInt8} {b b' : UInt8}
    (hname : ∀ c ∈ name, stop c = false) (hname' : ∀ c ∈ name', stop c = false) (hb : stop b = true)
    (hb' : stop b' = true) (h : name ++ b :: src = name' ++ b' :: src') :
    name = name' ∧ b :: src = b' :: src' := by
  induction name generalizing name' with
  | nil =>
    cases name' with
    | nil => exact ⟨rfl, h⟩
    | cons c name' =>
      have hc := hname' c mem_cons_self
      rw [nil_append, cons_append, List.cons.injEq] at h
      rw [← h.1, hb] at hc
      cases hc
  | cons c name ih =>
    have hc := hname c mem_cons_self
    cases name' with
    | nil =>
      rw [nil_append, cons_append, List.cons.injEq] at h
      rw [h.1, hb'] at hc
      cases hc
    | cons c' name' =>
      rw [cons_append, cons_append, List.cons.injEq] at h
      obtain ⟨hrest, hsrc⟩ := ih (fun d hd => hname d (mem_cons_of_mem _ hd))
        (fun d hd => hname' d (mem_cons_of_mem _ hd)) h.2
      exact ⟨by rw [h.1, hrest], hsrc⟩

theorem escaped_inj {value value' src src' : List UInt8}
    (h : sdataAppendEscaped value ++ 34 :: src = sdataAppendEscaped value' ++ 34 :: src') :
    value = value' ∧ src = src' := by
  have hread := @sdValueLoop_value (value.length + value'.length) value [] src
    ((sdataAppendEscaped value).length + (sdataAppendEscaped value').length + 1) (by simp) (by omega)
  have hread' := @sdValueLoop_value (value.length + value'.length) value' [] src'
    ((sdataAppendEscaped value).length + (sdataAppendEscaped value').length + 1) (by simp) (by omega)
  rw [h, hread'] at hread
  simp only [nil_append, Res.ok.injEq, Prod.mk.injEq, Cursor.mk.injEq, List.cons.injEq, true_and]
    at hread
  exact ⟨hread.1.symm, hread.2.1.symm⟩

/-- Names without the bytes that end them. -/
def SdElement.Clean (element : SdElement) : Prop :=
  (∀ c ∈ element.id, isSdNameChar c = true) ∧
    ∀ param ∈ element.params, ∀ c ∈ param.name, isSdNameChar c = true

theorem idStop_of_char {c : UInt8} (h : isSdNameChar c = true) : (c == 32 || c == 93) = false := by
  simp only [isSdNameChar, Bool.and_eq_true, bne_iff_ne] at h
  simp [h.1.1.2, h.1.2]

theorem paramsText_inj {params params' : List SdParam} {src src' : List UInt8}
    (hclean : ∀ param ∈ params, ∀ c ∈ param.name, isSdNameChar c = true)
    (hclean' : ∀ param ∈ params', ∀ c ∈ param.name, isSdNameChar c = true)
    (h : params.flatMap SdParam.text ++ 93 :: src = params'.flatMap SdParam.text ++ 93 :: src') :
    params = params' ∧ src = src' := by
  have hstop : ∀ {c : UInt8}, isSdNameChar c = true → (c == 61) = false := by
    intro c hc
    simp only [isSdNameChar, Bool.and_eq_true, bne_iff_ne] at hc
    simp [hc.1.1.1.2]
  induction params generalizing params' with
  | nil =>
    cases params' with
    | nil => exact ⟨rfl, (List.cons.inj h).2⟩
    | cons param' params' => exact absurd (List.cons.inj h).1 (by decide)
  | cons param params ih =>
    cases params' with
    | nil => exact absurd (List.cons.inj h).1 (by decide)
    | cons param' params' =>
      have htext : param.name ++ 61 :: 34 :: (sdataAppendEscaped param.value ++
          34 :: (params.flatMap SdParam.text ++ 93 :: src)) = param'.name ++ 61 :: 34 ::
          (sdataAppendEscaped param'.value ++ 34 :: (params'.flatMap SdParam.text ++ 93 :: src')) := by
        simpa [SdParam.text] using h
      obtain ⟨hname, hrest⟩ := @append_stop_inj (· == 61) _ _ _ _ _ _
        (fun c hc => hstop (hclean param mem_cons_self c hc))
        (fun c hc => hstop (hclean' param' mem_cons_self c hc)) rfl rfl htext
      rw [List.cons.injEq, List.cons.injEq] at hrest
      obtain ⟨hvalue, hrest⟩ := escaped_inj hrest.2.2
      obtain ⟨hparams, hsrc⟩ := ih (fun p hp => hclean p (mem_cons_of_mem _ hp))
        (fun p hp => hclean' p (mem_cons_of_mem _ hp)) hrest
      refine ⟨?_, hsrc⟩
      cases param
      cases param'
      simp only at hname hvalue
      rw [hname, hvalue, hparams]

theorem elementsText_inj {elements elements' : List SdElement} (hclean : ∀ e ∈ elements, e.Clean)
    (hclean' : ∀ e ∈ elements', e.Clean) (h : elementsText elements = elementsText elements') :
    elements = elements' := by
  induction elements generalizing elements' with
  | nil =>
    cases elements' with
    | nil => rfl
    | cons e' elements' => exact absurd h (by simp [elementsText, text])
  | cons e elements ih =>
    cases elements' with
    | nil => exact absurd h (by simp [elementsText, text])
    | cons e' elements' =>
      -- what is behind an id starts with a space or with the closing bracket
      have hbehind : ∀ (params : List SdParam) (src : List UInt8), ∃ b rest,
          params.flatMap SdParam.text ++ 93 :: src = b :: rest ∧ (b == 32 || b == 93) = true := by
        intro params src
        cases params with
        | nil => exact ⟨93, src, rfl, rfl⟩
        | cons param params => exact ⟨32, _, rfl, rfl⟩
      have htext : e.id ++ (e.params.flatMap SdParam.text ++ 93 :: elementsText elements) =
          e'.id ++ (e'.params.flatMap SdParam.text ++ 93 :: elementsText elements') := by
        simpa [elementsText, text] using h
      obtain ⟨b, rest, hb, hstop⟩ := hbehind e.params (elementsText elements)
      obtain ⟨b', rest', hb', hstop'⟩ := hbehind e'.params (elementsText elements')
      have he := hclean e mem_cons_self
      have he' := hclean' e' mem_cons_self
      rw [hb, hb'] at htext
      obtain ⟨hid, hparams⟩ := @append_stop_inj (fun b => b == 32 || b == 93) _ _ _ _ _ _
        (fun c hc => idStop_of_char (he.1 c hc)) (fun c hc => idStop_of_char (he'.1 c hc)) hstop hstop'
        htext
      rw [← hb, ← hb'] at hparams
      obtain ⟨hparams, hrest⟩ := paramsText_inj he.2 he'.2 hparams
      have := ih (fun x hx => hclean x (mem_cons_of_mem _ hx))
        (fun x hx => hclean' x (mem_cons_of_mem _ hx)) hrest
      cases e
      cases e'
      simp only at hid hparams
      rw [hid, hparams, this]

/-! ## What is written in general -/

/-- The parameter of a name: a name that ends with a dot has none. -/
def nameParams (msg : LogMessage) (name : List UInt8) : List SdParam :=
  if (splitName name).2 = [] then [] else [⟨(splitName name).2, msg.getValue (.sdata name)⟩]

/-- The elements that are written, the last one first: a name goes on with the last element if it has
the same id. -/
def groupStep (msg : LogMessage) (groups : List SdElement) (name : List UInt8) : List SdElement :=
  match groups with
  | [] => [⟨(splitName name).1, nameParams msg name⟩]
  | group :: groups =>
    if group.id = (splitName name).1 then
      { group with params := group.params ++ nameParams msg name } :: groups
    else ⟨(splitName name).1, nameParams msg name⟩ :: group :: groups

def groupsOf (msg : LogMessage) (names : List (List UInt8)) : List SdElement :=
  (names.foldl (groupStep msg) []).reverse

section

variable {msg : LogMessage}

/-- What the result is while the last of the elements is open. -/
def OpenText (groups : List SdElement) (st : SdataState) : Prop :=
  match groups with
  | [] => st.result = [] ∧ st.curElem = none
  | group :: groups =>
    st.result = elementsText groups.reverse ++ 91 :: (group.id ++ group.params.flatMap SdParam.text) ∧
      st.curElem = some group.id

theorem OpenText.closed {groups : List SdElement} {st : SdataState} (h : OpenText groups st) :
    st.closed = elementsText groups.reverse := by
  cases groups with
  | nil =>
    obtain ⟨hresult, hcur⟩ := h
    simp [SdataState.closed, hresult, hcur, elementsText]
  | cons group groups =>
    obtain ⟨hresult, hcur⟩ := h
    simp [SdataState.closed, hresult, hcur, elementsText, text]

theorem openText_step {groups : List SdElement} {st : SdataState} (h : OpenText groups st)
    (name : List UInt8) : OpenText (groupStep msg groups name) (formatSdataStep msg 0 st name) := by
  have hwritten : formatSdataStep msg 0 st name = ⟨st.opened (splitName name).1 ++
      (nameParams msg name).flatMap SdParam.text, some (splitName name).1, st.hasSeqNum⟩ := by
    unfold formatSdataStep nameParams
    cases hsplit : splitName name with
    | mk elem param =>
      by_cases hparam : param = []
      · simp [hparam, SdataState.opened]
      · simp [hparam, SdataState.opened, SdParam.text]
  rw [hwritten]
  have hclosed := h.closed
  cases groups with
  | nil =>
    obtain ⟨hresult, hcur⟩ := h
    simp [groupStep, OpenText, SdataState.opened, hresult, hcur, elementsText]
  | cons group groups =>
    obtain ⟨hresult, hcur⟩ := h
    by_cases hsame : group.id = (splitName name).1
    · have hgroup : groupStep msg (group :: groups) name =
          { group with params := group.params ++ nameParams msg name } :: groups := by
        rw [groupStep, if_pos hsame]
      rw [hgroup]
      refine ⟨?_, by simp [hsame]⟩
      rw [SdataState.opened, if_pos (by rw [hcur, hsame]), hresult]
      simp
    · have hgroup : groupStep msg (group :: groups) name =
          ⟨(splitName name).1, nameParams msg name⟩ :: group :: groups := by
        rw [groupStep, if_neg hsame]
      have hopened : st.opened (splitName name).1 = st.closed ++ 91 :: (splitName name).1 := by
        rw [SdataState.opened, if_neg (by rw [hcur]; simpa using hsame), SdataState.closed]
      rw [hgroup]
      refine ⟨?_, rfl⟩
      rw [hopened, hclosed]
      simp

theorem logMsgAppendFormatSdata_groups (msg : LogMessage) :
    logMsgAppendFormatSdata msg 0 = elementsText (groupsOf msg msg.sdata) := by
  have hfold : ∀ (names : List (List UInt8)) (groups : List SdElement) (st : SdataState),
      OpenText groups st →
        OpenText (names.foldl (groupStep msg) groups) (names.foldl (formatSdataStep msg 0) st) := by
    intro names
    induction names with
    | nil => exact fun _ _ h => h
    | cons name names ih => exact fun groups st h => ih _ _ (openText_step h name)
  have hopen := hfold msg.sdata [] ⟨[], none, decide ((msg.getValue metaSeqid).headD 0 ≠ 0)⟩ ⟨rfl, rfl⟩
  rw [groupsOf, ← hopen.closed, logMsgAppendFormatSdata, SdataState.closed]
  generalize msg.sdata.foldl (formatSdataStep msg 0)
    ⟨[], none, decide ((msg.getValue metaSeqid).headD 0 ≠ 0)⟩ = st
  cases hcur : st.curElem <;> simp [hcur]

/-- What the groups of some names have: their parts are parts of the names, and there are not more of
them. -/
structure GroupsFrom (names : List (List UInt8)) (groups : List SdElement) : Prop where
  ids : ∀ group ∈ groups, ∃ name ∈ names, (splitName name).1 = group.id
  params : ∀ group ∈ groups, ∀ param ∈ group.params, param.name ≠ [] ∧
    ∃ name ∈ names, splitName name = (group.id, param.name)
  alone : ∀ group ∈ groups, group.params = [] → ∃ name ∈ names, splitName name = (group.id, [])
  count : (groups.flatMap entries).length ≤ names.length

theorem GroupsFrom.mono {names names' : List (List UInt8)} {groups : List SdElement}
    (h : GroupsFrom names groups) (hsub : ∀ name ∈ names, name ∈ names')
    (hcount : names.length ≤ names'.length) : GroupsFrom names' groups where
  ids group hg := by
    obtain ⟨name, hname, heq⟩ := h.ids group hg
    exact ⟨name, hsub name hname, heq⟩
  params group hg param hp := by
    obtain ⟨hne, name, hname, heq⟩ := h.params group hg param hp
    exact ⟨hne, name, hsub name hname, heq⟩
  alone group hg hp := by
    obtain ⟨name, hname, heq⟩ := h.alone group hg hp
    exact ⟨name, hsub name hname, heq⟩
  count := Nat.le_trans h.count hcount

theorem length_entries (element : SdElement) :
    element.entries.length = if element.params = [] then 1 else element.params.length := by
  unfold entries
  split
  · rfl
  · rw [length_map]

theorem mem_nameParams {param : SdParam} (h : param ∈ nameParams msg name) :
    param.name ≠ [] ∧ splitName name = ((splitName name).1, param.name) := by
  unfold nameParams at h
  split at h
  · cases h
  case isFalse hne =>
    rw [mem_singleton.1 h]
    exact ⟨hne, rfl⟩

theorem splitName_of_nameParams_nil (h : nameParams msg name = []) :
    splitName name = ((splitName name).1, []) := by
  unfold nameParams at h
  split at h
  case isTrue hnil => rw [← hnil]
  case isFalse => cases h

theorem groupsFrom_step {names : List (List UInt8)} {groups : List SdElement}
    (h : GroupsFrom names groups) (name : List UInt8) :
    GroupsFrom (names ++ [name]) (groupStep msg groups name) := by
  have hmono := @GroupsFrom.mono names (names ++ [name]) groups h (fun n hn => mem_append_left _ hn) (by simp)
  have hlast : name ∈ names ++ [name] := by simp
  -- the element that is new
  have hnew : ∀ groups : List SdElement, GroupsFrom (names ++ [name]) groups →
      (groups.flatMap entries).length ≤ names.length →
      GroupsFrom (names ++ [name]) (⟨(splitName name).1, nameParams msg name⟩ :: groups) := by
    intro groups hg hcount
    refine ⟨?_, ?_, ?_, ?_⟩
    · rintro group hgroup
      rcases mem_cons.1 hgroup with rfl | hgroup
      · exact ⟨name, hlast, rfl⟩
      · exact hg.ids group hgroup
    · rintro group hgroup param hparam
      rcases mem_cons.1 hgroup with rfl | hgroup
      · exact ⟨(mem_nameParams hparam).1, name, hlast, (mem_nameParams hparam).2⟩
      · exact hg.params group hgroup param hparam
    · rintro group hgroup hparams
      rcases mem_cons.1 hgroup with rfl | hgroup
      · exact ⟨name, hlast, splitName_of_nameParams_nil hparams⟩
      · exact hg.alone group hgroup hparams
    · have hone : (entries ⟨(splitName name).1, nameParams msg name⟩).length = 1 := by
        rw [length_entries]
        unfold nameParams
        split
        · rfl
        · rfl
      rw [flatMap_cons, length_append, hone, length_append, length_singleton]
      omega
  cases groups with
  | nil => exact hnew [] hmono (Nat.zero_le _)
  | cons group groups =>
    rw [groupStep]
    split
    case isFalse => exact hnew _ hmono h.count
    case isTrue hsame =>
      refine ⟨?_, ?_, ?_, ?_⟩
      · rintro g hg
        rcases mem_cons.1 hg with rfl | hg
        · exact hmono.ids group mem_cons_self
        · exact hmono.ids g (mem_cons_of_mem _ hg)
      · rintro g hg param hparam
        rcases mem_cons.1 hg with rfl | hg
        · rcases mem_append.1 hparam with hparam | hparam
          · exact hmono.params group mem_cons_self param hparam
          · obtain ⟨hne, hsplit⟩ := mem_nameParams hparam
            exact ⟨hne, name, hlast, by rw [hsplit, hsame]⟩
        · exact hmono.params g (mem_cons_of_mem _ hg) param hparam
      · rintro g hg hparams
        rcases mem_cons.1 hg with rfl | hg
        · exact hmono.alone group mem_cons_self (append_eq_nil_iff.1 hparams).1
        · exact hmono.alone g (mem_cons_of_mem _ hg) hparams
      · have hcount := h.count
        have hle : (nameParams msg name).length ≤ 1 := by
          unfold nameParams
          split
          · exact Nat.zero_le _
          · exact Nat.le_refl _
        rw [flatMap_cons, length_append, length_entries] at hcount ⊢
        simp only [length_append, length_singleton]
        split
        · split at hcount
          · omega
          case isFalse hnil =>
            have := length_pos_iff.2 hnil
            omega
        · split at hcount
          case isTrue hnil =>
            rw [hnil, length_nil]
            omega
          · omega

theorem groupsFrom_groupsOf (names : List (List UInt8)) : GroupsFrom names (groupsOf msg names) := by
  have hfold : ∀ (rest seen : List (List UInt8)) (groups : List SdElement), GroupsFrom seen groups →
      GroupsFrom (seen ++ rest) (rest.foldl (groupStep msg) groups) := by
    intro rest
    induction rest with
    | nil => exact fun seen groups h => by simpa using h
    | cons name rest ih =>
      intro seen groups h
      have := ih (seen ++ [name]) _ (@groupsFrom_step msg seen groups h name)
      rwa [append_assoc] at this
  have h := hfold names [] [] ⟨by simp, by simp, by simp, by simp⟩
  rw [nil_append] at h
  unfold groupsOf
  refine ⟨fun g hg => h.ids g (mem_reverse.1 hg), fun g hg => h.params g (mem_reverse.1 hg),
    fun g hg => h.alone g (mem_reverse.1 hg), ?_⟩
  have hlen : ((names.foldl (groupStep msg) []).reverse.flatMap entries).length =
      ((names.foldl (groupStep msg) []).flatMap entries).length := by
    rw [length_flatMap, length_flatMap, map_reverse, sum_reverse]
  rw [hlen]
  exact h.count

end

end SyslogNg.SyslogFormat
