import SyslogNg.SyslogFormat.ParseSd

/-!
# Reading structured data

The structured data of RFC 5424 is read by `log_msg_parse_sd` as it was written, and its values are
stored one after another under the names of their elements and parameters.
-/

namespace SyslogNg.SyslogFormat

open List

structure SdParam where
  name : List UInt8
  value : List UInt8
  deriving DecidableEq

structure SdElement where
  id : List UInt8
  params : List SdParam
  deriving DecidableEq

/-- `SD-NAME`: 1 to 32 printable characters, but not `=`, `]` or `"`. -/
def SdName (name : List UInt8) : Prop :=
  (name ≠ [] ∧ name.length ≤ 32) ∧ ∀ b ∈ name, (33 ≤ b ∧ b ≤ 126) ∧ b ≠ 61 ∧ b ≠ 93 ∧ b ≠ 34

/-- ` name="value"`. -/
def SdParam.text (param : SdParam) : List UInt8 :=
  32 :: param.name ++ 61 :: 34 :: (sdataAppendEscaped param.value ++ [34])

/-- `[id name="value"]`. -/
def SdElement.text (element : SdElement) : List UInt8 :=
  91 :: (element.id ++ element.params.flatMap SdParam.text ++ [93])

def elementsText (elements : List SdElement) : List UInt8 := elements.flatMap SdElement.text

/-- `STRUCTURED-DATA`. -/
def sdText (elements : List SdElement) : List UInt8 :=
  if elements = [] then [45] else elementsText elements

/-- The name a value is stored under. -/
def paramName (id name : List UInt8) : List UInt8 := logmsgSdPrefix ++ id ++ 46 :: name

def SdElement.entries (element : SdElement) : List (List UInt8 × List UInt8) :=
  if element.params = [] then [(logmsgSdPrefix ++ element.id, [])]
  else element.params.map fun param => (paramName element.id param.name, param.value)

/-- Valid structured data: no element and no parameter of an element is there twice. -/
structure SdValid (max : Nat) (elements : List SdElement) : Prop where
  ids : (elements.map SdElement.id).Nodup
  idName : ∀ element ∈ elements, SdName element.id
  names : ∀ element ∈ elements, (element.params.map SdParam.name).Nodup
  paramName : ∀ element ∈ elements, ∀ param ∈ element.params, SdName param.name
  valueLength : ∀ element ∈ elements, ∀ param ∈ element.params, param.value.length ≤ max

/-! ## Reading back -/

theorem isSdNameChar_of_name {name : List UInt8} (h : SdName name) {b : UInt8} (hb : b ∈ name) :
    isSdNameChar b = true := by
  obtain ⟨⟨_, hle⟩, h61, h93, h34⟩ := h.2 b hb
  have h32 : b ≠ 32 := by
    rintro rfl
    have := (h.2 32 hb).1.1
    exact absurd this (by decide)
  have hascii : b < 128 := by
    rw [UInt8.lt_iff_toNat_lt]
    rw [UInt8.le_iff_toNat_le] at hle
    exact Nat.lt_of_le_of_lt hle (by decide)
  simp [isSdNameChar, isAscii, hascii, h61, h93, h34, h32]

theorem sdNameLoop_name {stop : UInt8 → Bool} {name src : List UInt8} {b : UInt8} {room : Nat}
    {left : Int} (hchars : ∀ c ∈ name, isSdNameChar c = true ∧ stop c = false)
    (hroom : name.length ≤ room) (hstop : stop b = true) (hleft : name.length < left) :
    sdNameLoop stop room (name ++ b :: src) left = .ok (name, ⟨b :: src, left - name.length⟩) := by
  induction name generalizing room left with
  | nil =>
    rw [nil_append, sdNameLoop, if_pos (.inr hstop), length_nil, Nat.cast_zero, Int.sub_zero]
  | cons c name ih =>
    obtain ⟨hchar, hnot⟩ := hchars c mem_cons_self
    rw [length_cons] at hroom hleft
    have hne : left ≠ 0 := by omega
    have hroom0 : room ≠ 0 := by omega
    rw [cons_append, sdNameLoop, if_neg (by simp [hne, hnot]), if_neg (by simp [hroom0, hchar]),
      ih (fun d hd => hchars d (mem_cons_of_mem _ hd)) (by omega) (by push_cast at hleft; omega)]
    simp only [Res.ok_bind, Res.pure_eq, Res.ok.injEq, Prod.mk.injEq, Cursor.mk.injEq, true_and,
      length_cons]
    push_cast
    omega

theorem sdValueLoop_value {max : Nat} {value stored src : List UInt8} {left : Int}
    (hmax : stored.length + value.length ≤ max) (hleft : (sdataAppendEscaped value).length < left) :
    sdValueLoop max false stored (sdataAppendEscaped value ++ 34 :: src) left =
      .ok (stored ++ value, ⟨34 :: src, left - (sdataAppendEscaped value).length⟩) := by
  induction value generalizing stored left with
  | nil =>
    show sdValueLoop max false stored (34 :: src) left = _
    rw [sdValueLoop, if_pos (.inr ⟨rfl, rfl⟩), append_nil]
    simp [sdataAppendEscaped]
  | cons b value ih =>
    have hstore : storeByte max stored b = stored ++ [b] := by
      rw [storeByte, if_pos (by rw [length_cons] at hmax; omega)]
    have hnext : (stored ++ [b]).length + value.length ≤ max := by
      rw [length_append, length_singleton]
      rw [length_cons] at hmax
      omega
    have happend : stored ++ b :: value = stored ++ [b] ++ value := by simp
    by_cases hspecial : b = 34 ∨ b = 92 ∨ b = 93
    · -- a backslash, and the byte behind it
      have htext : sdataAppendEscaped (b :: value) = 92 :: b :: sdataAppendEscaped value := by
        rw [sdataAppendEscaped, flatMap_cons, if_pos hspecial]
        rfl
      rw [htext] at hleft ⊢
      simp only [length_cons] at hleft ⊢
      have hkeep : ¬ (True ∧ b ≠ 34 ∧ b ≠ 93 ∧ b ≠ 92) := by
        rintro ⟨-, h1, h2, h3⟩
        rcases hspecial with h | h | h
        · exact h1 h
        · exact h3 h
        · exact h2 h
      simp only [cons_append]
      rw [sdValueLoop, if_neg (by simp; omega), if_pos ⟨rfl, rfl⟩, sdValueLoop,
        if_neg (by simp; omega), if_neg (by simp), if_neg (by simp)]
      simp only
      rw [if_neg hkeep, hstore, ih hnext (by push_cast at hleft; omega), happend]
      simp only [Res.ok.injEq, Prod.mk.injEq, Cursor.mk.injEq, true_and]
      push_cast
      omega
    · have htext : sdataAppendEscaped (b :: value) = b :: sdataAppendEscaped value := by
        rw [sdataAppendEscaped, flatMap_cons, if_neg hspecial]
        rfl
      obtain ⟨h34, h92, h93⟩ : b ≠ 34 ∧ b ≠ 92 ∧ b ≠ 93 := by
        push Not at hspecial
        exact hspecial
      rw [htext] at hleft ⊢
      rw [length_cons] at hleft
      simp only [cons_append]
      rw [sdValueLoop, if_neg (by simp [h34]; omega), if_neg (by simp [h92]), if_neg (by simp [h93])]
      simp only
      rw [if_neg (by simp), hstore, ih hnext (by push_cast at hleft; omega), happend]
      simp only [Res.ok.injEq, Prod.mk.injEq, Cursor.mk.injEq, true_and, length_cons]
      push_cast
      omega

theorem sdExpect_eq {b : UInt8} {src : List UInt8} {left : Int} (hleft : left ≠ 0) :
    sdExpect b ⟨b :: src, left⟩ = .ok ⟨src, left - 1⟩ := by
  rw [sdExpect, if_neg hleft]
  simp [peek, Cursor.advance]

theorem sdCheckName_name {name src : List UInt8} {left : Int} (h : SdName name) :
    sdCheckName ⟨name ++ src, left⟩ = .ok () := by
  obtain ⟨b, rest, rfl⟩ := exists_cons_of_ne_nil h.1.1
  have hchar := isSdNameChar_of_name h mem_cons_self
  simp [sdCheckName, peek, hchar]

/-- The id of an element and the name of a parameter fit into the buffer. -/
def FitsBuffer (id name : List UInt8) : Prop := id.length + name.length ≤ 57

theorem sdValueName_eq {id name : List UInt8} (h : FitsBuffer id name) :
    sdValueName id name = .ok (paramName id name) := by
  unfold FitsBuffer at h
  rw [sdValueName, if_pos]
  · rfl
  · show name.length < 66 - 7 - 1 - id.length
    omega

theorem sdValueName_outside {id name : List UInt8} (h : ¬ FitsBuffer id name) :
    sdValueName id name = .outside := by
  unfold FitsBuffer at h
  rw [sdValueName, if_neg]
  show ¬ name.length < 66 - 7 - 1 - id.length
  omega

def storeParam (id : List UInt8) (msg : LogMessage) (param : SdParam) : Res LogMessage := do
  let name ← sdValueName id param.name
  return msg.setValue (.sdata name) param.value

def storeParams (id : List UInt8) : List SdParam → LogMessage → Res LogMessage
  | [], msg => .ok msg
  | param :: params, msg => storeParam id msg param >>= storeParams id params

def storeElement (msg : LogMessage) (element : SdElement) : Res LogMessage :=
  if element.params = [] then .ok (msg.setValue (.sdata (logmsgSdPrefix ++ element.id)) [])
  else storeParams element.id element.params msg

def storeElements : List SdElement → LogMessage → Res LogMessage
  | [], msg => .ok msg
  | element :: elements, msg => storeElement msg element >>= storeElements elements

section

variable {options : MsgFormatOptions} {id src : List UInt8} {msg : LogMessage} {left : Int}

theorem sdParam_text {param : SdParam} (hname : SdName param.name)
    (hvalue : param.value.length ≤ options.sdataParamValueMax) (hleft : 0 ≤ left) :
    sdParam options id msg ⟨param.text ++ src, param.text.length + left⟩ =
      storeParam id msg param >>= fun msg => .ok (msg, ⟨src, left⟩) := by
  have hlen : (param.text.length : Int) =
      param.name.length + (sdataAppendEscaped param.value).length + 4 := by
    simp only [SdParam.text, length_cons, length_append, length_nil]
    push_cast
    omega
  have htext : param.text ++ src =
      32 :: (param.name ++ 61 :: 34 :: (sdataAppendEscaped param.value ++ 34 :: src)) := by
    simp [SdParam.text]
  have hchars : ∀ c ∈ param.name, isSdNameChar c = true ∧ (c == 61) = false := fun c hc =>
    ⟨isSdNameChar_of_name hname hc, by simpa using (hname.2 c hc).2.1⟩
  rw [sdParam, htext, hlen, sdExpect_eq (by omega), Res.ok_bind, sdCheckName_name hname, Res.ok_bind,
    sdNameLoop_name hchars hname.1.2 rfl (by dsimp only; omega), Res.ok_bind]
  simp only
  rw [sdExpect_eq (by omega), Res.ok_bind, sdExpect_eq (by omega), Res.ok_bind,
    sdValueLoop_value (by simpa using hvalue) (by dsimp only; omega), Res.ok_bind]
  simp only
  rw [sdExpect_eq (by omega), Res.ok_bind, nil_append, storeParam, Res.bind_assoc]
  have hrest : (param.name.length : Int) + (sdataAppendEscaped param.value).length + 4 + left - 1 -
      param.name.length - 1 - 1 - (sdataAppendEscaped param.value).length - 1 = left := by
    omega
  rw [hrest]
  rfl

/-- Names and values are stored one after another. -/
def storeAll (msg : LogMessage) (entries : List (List UInt8 × List UInt8)) : LogMessage :=
  entries.foldl (fun msg entry => msg.setValue (.sdata entry.1) entry.2) msg

theorem storeAll_append (msg : LogMessage) (xs ys : List (List UInt8 × List UInt8)) :
    storeAll msg (xs ++ ys) = storeAll (storeAll msg xs) ys := foldl_append

theorem sdParams_text {params : List SdParam} {fuel : Nat} (hname : ∀ param ∈ params, SdName param.name)
    (hvalue : ∀ param ∈ params, param.value.length ≤ options.sdataParamValueMax)
    (hfuel : params.length < fuel) (hleft : 0 < left) :
    sdParams options id fuel msg
        ⟨params.flatMap SdParam.text ++ 93 :: src, (params.flatMap SdParam.text).length + left⟩ =
      storeParams id params msg >>= fun msg => .ok (msg, ⟨93 :: src, left⟩) := by
  induction params generalizing msg fuel with
  | nil =>
    obtain ⟨n, rfl⟩ : ∃ n, fuel = n + 1 := ⟨fuel - 1, by omega⟩
    have hne : left ≠ 0 := by omega
    simp [sdParams, leftAnd, hne, testAt, storeParams]
  | cons param params ih =>
    obtain ⟨n, rfl⟩ : ∃ n, fuel = n + 1 := ⟨fuel - 1, by omega⟩
    have hcons : (param :: params).flatMap SdParam.text ++ 93 :: src =
        param.text ++ (params.flatMap SdParam.text ++ 93 :: src) := by
      simp
    have hlen : (((param :: params).flatMap SdParam.text).length : Int) + left =
        param.text.length + ((params.flatMap SdParam.text).length + left) := by
      rw [flatMap_cons, length_append]
      push_cast
      omega
    have hmore : leftAnd (· != 93) ⟨param.text ++ (params.flatMap SdParam.text ++ 93 :: src),
        param.text.length + ((params.flatMap SdParam.text).length + left)⟩ = .ok true := by
      rw [leftAnd, if_neg (by dsimp only; omega)]
      rfl
    rw [sdParams, hcons, hlen, hmore, Res.ok_bind]
    simp only [if_true]
    rw [sdParam_text (hname param mem_cons_self) (hvalue param mem_cons_self) (by omega),
      Res.bind_assoc, storeParams, Res.bind_assoc]
    congr 1
    funext msg
    exact ih (fun p hp => hname p (mem_cons_of_mem _ hp))
      (fun p hp => hvalue p (mem_cons_of_mem _ hp)) (by rw [length_cons] at hfuel; omega)

end

/-- What an element has to be for the parser. -/
structure SdElement.Readable (max : Nat) (element : SdElement) : Prop where
  id : SdName element.id
  names : ∀ param ∈ element.params, SdName param.name
  values : ∀ param ∈ element.params, param.value.length ≤ max

section

variable {options : MsgFormatOptions} {src : List UInt8} {msg : LogMessage} {left : Int}

theorem length_le_flatMap_text (params : List SdParam) :
    params.length ≤ (params.flatMap SdParam.text).length := by
  induction params with
  | nil => exact Nat.le_refl 0
  | cons param params ih =>
    rw [flatMap_cons, length_append, length_cons]
    have : 0 < param.text.length := Nat.succ_pos _
    omega

theorem sdElement_text {element : SdElement} (h : element.Readable options.sdataParamValueMax)
    (hleft : 0 ≤ left) :
    sdElement options msg ⟨element.text.tail ++ src, element.text.tail.length + left⟩ =
      storeElement msg element >>= fun msg => .ok (msg, ⟨src, left⟩) := by
  obtain ⟨hid, hnames, hvalues⟩ := h
  have htext : element.text.tail ++ src =
      element.id ++ (element.params.flatMap SdParam.text ++ 93 :: src) := by
    simp [SdElement.text]
  have hlen : (element.text.tail.length : Int) =
      element.id.length + (element.params.flatMap SdParam.text).length + 1 := by
    simp [SdElement.text]
    omega
  have hchars : ∀ c ∈ element.id, isSdNameChar c = true ∧ (c == 32 || c == 93) = false := by
    intro c hc
    have hchar := isSdNameChar_of_name hid hc
    refine ⟨hchar, ?_⟩
    simp only [isSdNameChar, Bool.and_eq_true, bne_iff_ne] at hchar
    simp [hchar.1.1.2, hchar.1.2]
  -- behind the id there is a space, or the closing bracket
  obtain ⟨b, rest, hbehind, hstop, hb⟩ : ∃ b rest,
      element.params.flatMap SdParam.text ++ 93 :: src = b :: rest ∧ (b == 32 || b == 93) = true ∧
        (b = 93 ↔ element.params = []) := by
    cases hparams : element.params with
    | nil => exact ⟨93, src, rfl, rfl, by simp⟩
    | cons param params => exact ⟨32, _, rfl, rfl, by simp⟩
  have hloop := @sdNameLoop_name _ _ rest b 32 (element.text.tail.length + left) hchars hid.1.2
    hstop (by omega)
  rw [← hbehind] at hloop
  have hrest : (element.text.tail.length : Int) + left - element.id.length =
      (element.params.flatMap SdParam.text).length + (1 + left) := by
    omega
  rw [sdElement, htext, sdCheckName_name hid, Res.ok_bind, hloop, Res.ok_bind]
  simp only
  rw [if_neg hid.1.1, hrest]
  have hpeek : peek (element.params.flatMap SdParam.text ++ 93 :: src) = .ok b := by
    rw [hbehind]
    rfl
  rw [hpeek, Res.ok_bind, sdParams_text hnames hvalues (by
    have := length_le_flatMap_text element.params
    rw [length_append]
    omega) (by omega), Res.bind_assoc]
  have hclose : ∀ msg : LogMessage, (do
      let c ← sdExpect 93 ⟨93 :: src, 1 + left⟩
      pure (msg, c)) = Res.ok (msg, ⟨src, left⟩) := by
    intro msg
    rw [sdExpect_eq (by omega), Res.ok_bind, show (1 : Int) + left - 1 = left by omega]
    rfl
  simp only [Res.ok_bind, hclose]
  unfold storeElement
  by_cases hempty : element.params = []
  · rw [if_pos (hb.2 hempty), if_pos hempty, hempty]
    rfl
  · rw [if_neg (fun h => hempty (hb.1 h)), if_neg hempty]

theorem length_le_elementsText (elements : List SdElement) :
    elements.length ≤ (elementsText elements).length := by
  induction elements with
  | nil => exact Nat.le_refl 0
  | cons element elements ih =>
    rw [elementsText, flatMap_cons, length_append, length_cons]
    have : 0 < element.text.length := Nat.succ_pos _
    rw [elementsText] at ih
    omega

/-- What is behind the structured data does not go on with it. -/
def EndsSd (src : List UInt8) (left : Int) : Prop := left ≠ 0 → ∃ b rest, src = b :: rest ∧ b ≠ 91

theorem sdElements_text {element : SdElement} {elements : List SdElement} {fuel : Nat}
    (h : ∀ e ∈ element :: elements, e.Readable options.sdataParamValueMax) (hends : EndsSd src left)
    (hfuel : elements.length < fuel) (hleft : 0 ≤ left) :
    sdElements options fuel msg ⟨element.text.tail ++ (elementsText elements ++ src),
        element.text.tail.length + ((elementsText elements).length + left)⟩ =
      storeElements (element :: elements) msg >>= fun msg => .ok (msg, ⟨src, left⟩) := by
  induction elements generalizing element msg fuel with
  | nil =>
    obtain ⟨n, rfl⟩ : ∃ n, fuel = n + 1 := ⟨fuel - 1, by omega⟩
    have hmore : leftAnd (· == 91) ⟨src, left⟩ = .ok false := by
      by_cases hzero : left = 0
      · rw [leftAnd, if_pos hzero]
      · obtain ⟨b, rest, rfl, hb⟩ := hends hzero
        rw [leftAnd, if_neg hzero]
        simp [testAt, hb]
    show sdElements options (n + 1) msg ⟨element.text.tail ++ src, _⟩ = _
    rw [sdElements, show (elementsText []).length = 0 from rfl, Nat.cast_zero, Int.zero_add,
      sdElement_text (h element mem_cons_self) hleft, Res.bind_assoc, storeElements,
      Res.bind_assoc]
    congr 1
    funext msg
    simp only [Res.ok_bind, hmore, Bool.false_and, Bool.false_eq_true, if_false]
    rfl
  | cons next elements ih =>
    obtain ⟨n, rfl⟩ : ∃ n, fuel = n + 1 := ⟨fuel - 1, by omega⟩
    have htext : elementsText (next :: elements) ++ src =
        91 :: (next.text.tail ++ (elementsText elements ++ src)) := by
      simp [elementsText, SdElement.text]
    have hlen : ((elementsText (next :: elements)).length : Int) + left =
        1 + (next.text.tail.length + ((elementsText elements).length + left)) := by
      simp [elementsText, SdElement.text]
      omega
    have htail : 0 < next.text.tail.length := by
      simp [SdElement.text]
    rw [sdElements, sdElement_text (h element mem_cons_self) (by omega), Res.bind_assoc,
      storeElements, Res.bind_assoc]
    congr 1
    funext msg
    simp only [Res.ok_bind]
    have hmore : leftAnd (· == 91) ⟨91 :: (next.text.tail ++ (elementsText elements ++ src)),
        1 + (next.text.tail.length + ((elementsText elements).length + left))⟩ = .ok true := by
      rw [leftAnd, if_neg (by dsimp only; omega)]
      rfl
    rw [hlen, htext, hmore, Res.ok_bind]
    have hleft1 : ((1 : Int) + (next.text.tail.length + ((elementsText elements).length + left)) != 1) =
        true := by
      rw [bne_iff_ne]
      omega
    have hadvance : Cursor.advance ⟨91 :: (next.text.tail ++ (elementsText elements ++ src)),
        1 + (next.text.tail.length + ((elementsText elements).length + left))⟩ 1 =
        ⟨next.text.tail ++ (elementsText elements ++ src),
          next.text.tail.length + ((elementsText elements).length + left)⟩ := by
      simp [Cursor.advance]
    simp only [hleft1, Bool.and_self, if_true, hadvance]
    exact ih (fun e he => h e (mem_cons_of_mem _ he)) (by rw [length_cons] at hfuel; omega)

theorem logMsgParseSd_text {elements : List SdElement}
    (h : ∀ e ∈ elements, e.Readable options.sdataParamValueMax) (hends : EndsSd src left)
    (hleft : 0 ≤ left) :
    logMsgParseSd options msg ⟨sdText elements ++ src, (sdText elements).length + left⟩ =
      storeElements elements msg >>= fun msg => .ok (msg, ⟨src, left⟩) := by
  cases elements with
  | nil =>
    have hnil : leftAnd (· == 45) ⟨45 :: src, ((1 : Nat) : Int) + left⟩ = .ok true := by
      rw [leftAnd, if_neg (by dsimp only; omega)]
      rfl
    show logMsgParseSd options msg ⟨45 :: src, ((1 : Nat) : Int) + left⟩ = _
    rw [logMsgParseSd, hnil]
    simp [Cursor.advance, storeElements]
  | cons element elements =>
    have htext : sdText (element :: elements) ++ src =
        91 :: (element.text.tail ++ (elementsText elements ++ src)) := by
      simp [sdText, elementsText, SdElement.text]
    have hlen : ((sdText (element :: elements)).length : Int) + left =
        1 + (element.text.tail.length + ((elementsText elements).length + left)) := by
      simp [sdText, elementsText, SdElement.text]
      omega
    have hadvance : Cursor.advance ⟨91 :: (element.text.tail ++ (elementsText elements ++ src)),
        1 + (element.text.tail.length + ((elementsText elements).length + left))⟩ 1 =
        ⟨element.text.tail ++ (elementsText elements ++ src),
          element.text.tail.length + ((elementsText elements).length + left)⟩ := by
      simp [Cursor.advance]
    have hnil : leftAnd (· == 45) ⟨91 :: (element.text.tail ++ (elementsText elements ++ src)),
        1 + (element.text.tail.length + ((elementsText elements).length + left))⟩ = .ok false := by
      rw [leftAnd, if_neg (by dsimp only; omega)]
      rfl
    have hopen : leftAnd (· == 91) ⟨91 :: (element.text.tail ++ (elementsText elements ++ src)),
        1 + (element.text.tail.length + ((elementsText elements).length + left))⟩ = .ok true := by
      rw [leftAnd, if_neg (by dsimp only; omega)]
      rfl
    rw [logMsgParseSd, htext, hlen, hnil, Res.ok_bind, if_neg (by decide), hopen, Res.ok_bind,
      if_pos rfl, hadvance]
    refine sdElements_text h hends ?_ hleft
    have := length_le_elementsText elements
    simp only [length_cons, length_append]
    omega

end

/-! ## What is stored -/

/-- Every name of an element fits into the buffer. -/
def SdElement.Fits (element : SdElement) : Prop :=
  ∀ param ∈ element.params, FitsBuffer element.id param.name

theorem storeParams_eq {id : List UInt8} {params : List SdParam} {msg : LogMessage}
    (hfits : ∀ param ∈ params, FitsBuffer id param.name) :
    storeParams id params msg =
      .ok (storeAll msg (params.map fun param => (paramName id param.name, param.value))) := by
  induction params generalizing msg with
  | nil => rfl
  | cons param params ih =>
    rw [storeParams, storeParam, sdValueName_eq (hfits param mem_cons_self)]
    exact ih (fun p hp => hfits p (mem_cons_of_mem _ hp))

theorem storeParams_outside {id : List UInt8} {params : List SdParam} {msg : LogMessage}
    (hfits : ¬ ∀ param ∈ params, FitsBuffer id param.name) : storeParams id params msg = .outside := by
  induction params generalizing msg with
  | nil => exact absurd (by simp) hfits
  | cons param params ih =>
    rw [storeParams, storeParam]
    by_cases hparam : FitsBuffer id param.name
    · rw [sdValueName_eq hparam]
      refine ih (fun hrest => hfits (fun p hp => ?_))
      rcases mem_cons.1 hp with rfl | hp
      · exact hparam
      · exact hrest p hp
    · rw [sdValueName_outside hparam]
      rfl

theorem storeElement_eq {element : SdElement} {msg : LogMessage} (hfits : element.Fits) :
    storeElement msg element = .ok (storeAll msg element.entries) := by
  unfold storeElement SdElement.entries
  split
  · rfl
  · exact storeParams_eq hfits

theorem storeElements_eq {elements : List SdElement} {msg : LogMessage}
    (hfits : ∀ element ∈ elements, element.Fits) :
    storeElements elements msg = .ok (storeAll msg (elements.flatMap SdElement.entries)) := by
  induction elements generalizing msg with
  | nil => rfl
  | cons element elements ih =>
    rw [storeElements, storeElement_eq (hfits element mem_cons_self), Res.ok_bind,
      ih (fun e he => hfits e (mem_cons_of_mem _ he)), flatMap_cons, storeAll_append]

theorem fits_of_storeElements {elements : List SdElement} {msg msg' : LogMessage}
    (h : storeElements elements msg = .ok msg') : ∀ element ∈ elements, element.Fits := by
  induction elements generalizing msg with
  | nil => simp
  | cons element elements ih =>
    rw [storeElements] at h
    by_cases hfits : element.Fits
    · rw [storeElement_eq hfits, Res.ok_bind] at h
      intro e he
      rcases mem_cons.1 he with rfl | he
      · exact hfits
      · exact ih h e he
    · have hne : element.params ≠ [] := by
        intro hnil
        exact hfits (by simp [SdElement.Fits, hnil])
      rw [storeElement, if_neg hne, storeParams_outside hfits] at h
      cases h

theorem storeAll_frame (msg : LogMessage) (entries : List (List UInt8 × List UInt8)) :
    ∃ values sdata, storeAll msg entries = { msg with values := values, sdata := sdata } := by
  induction entries generalizing msg with
  | nil => exact ⟨msg.values, msg.sdata, rfl⟩
  | cons entry entries ih =>
    obtain ⟨values, sdata, h⟩ := ih (msg.setValue (.sdata entry.1) entry.2)
    refine ⟨values, sdata, ?_⟩
    have hset : ∃ values sdata, msg.setValue (.sdata entry.1) entry.2 =
        { msg with values := values, sdata := sdata } := by
      unfold LogMessage.setValue LogMessage.updateSdata LogMessage.updateSdataSlow
      simp only [reduceCtorEq, if_false]
      split
      · split
        · exact ⟨_, _, rfl⟩
        · split
          · exact ⟨_, _, rfl⟩
          · exact ⟨_, _, rfl⟩
      · exact ⟨_, _, rfl⟩
    obtain ⟨values1, sdata1, h1⟩ := hset
    show storeAll (msg.setValue (.sdata entry.1) entry.2) entries = _
    rw [h, h1]

theorem setValue_sdata_new {msg : LogMessage} {name value : List UInt8} (hparse : msg.initialParse = true)
    (hnew : msg.values (.sdata name) = none) (hroom : msg.sdata.length < 255) :
    msg.setValue (.sdata name) value =
      { msg with values := Function.update msg.values (.sdata name) (some value)
                 sdata := msg.sdata ++ [name] } := by
  have hfull : msg.sdata.length ≠ 255 := by omega
  simp [LogMessage.setValue, hnew, LogMessage.updateSdata, LogMessage.updateSdataSlow, hfull, hparse]

theorem storeAll_new {msg : LogMessage} {entries : List (List UInt8 × List UInt8)}
    (hparse : msg.initialParse = true) (hnodup : (entries.map Prod.fst).Nodup)
    (hnew : ∀ entry ∈ entries, msg.values (.sdata entry.1) = none)
    (hroom : msg.sdata.length + entries.length ≤ 255) :
    (storeAll msg entries).sdata = msg.sdata ++ entries.map Prod.fst ∧
      (∀ entry ∈ entries, (storeAll msg entries).values (.sdata entry.1) = some entry.2) ∧
      ∀ handle, (∀ entry ∈ entries, handle ≠ .sdata entry.1) →
        (storeAll msg entries).values handle = msg.values handle := by
  induction entries generalizing msg with
  | nil => exact ⟨by simp [storeAll], by simp, fun _ _ => rfl⟩
  | cons entry entries ih =>
    rw [length_cons] at hroom
    rw [map_cons, nodup_cons] at hnodup
    have hset := @setValue_sdata_new msg entry.1 entry.2 hparse (hnew entry mem_cons_self) (by omega)
    have hne : ∀ e ∈ entries, NVHandle.sdata e.1 ≠ NVHandle.sdata entry.1 := by
      intro e he heq
      have hfst := NVHandle.sdata.inj heq
      exact hnodup.1 (hfst ▸ mem_map_of_mem he)
    obtain ⟨hsdata, hvalues, hframe⟩ := @ih (msg.setValue (.sdata entry.1) entry.2)
      (by rw [hset]; exact hparse) hnodup.2
      (fun e he => by
        rw [hset]
        simp only
        rw [Function.update_of_ne (hne e he)]
        exact hnew e (mem_cons_of_mem _ he))
      (by rw [hset]; simp only [length_append, length_singleton]; omega)
    have hstore : storeAll msg (entry :: entries) =
        storeAll (msg.setValue (.sdata entry.1) entry.2) entries := rfl
    rw [hstore]
    refine ⟨?_, ?_, ?_⟩
    · rw [hsdata, hset]
      simp
    · intro e he
      rcases mem_cons.1 he with rfl | he
      · rw [hframe _ (fun e' he' => (hne e' he').symm), hset]
        simp
      · exact hvalues e he
    · intro handle hnot
      rw [hframe handle (fun e he => hnot e (mem_cons_of_mem _ he)), hset]
      simp only
      rw [Function.update_of_ne (hnot entry mem_cons_self)]

end SyslogNg.SyslogFormat
