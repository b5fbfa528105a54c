import SyslogNg.SyslogFormat.SdWrite

/-!
# Structured data survives parsing and formatting

`sdata_round_trip_iff`: structured data of RFC 5424 is accepted by `log_msg_parse_sd`, every value is
stored under the name of its element and parameter, and `log_msg_append_format_sdata` writes the same
text, if and only if no name of a parameter and no id of an element without parameters has a dot, an
id and a name have at most 57 characters together, and there are at most 255 names.
-/

namespace SyslogNg.SyslogFormat

open List
open SdElement hiding id

/-! ## The round trip -/

/-- The ids and names that the names of an element are taken apart to. -/
def SdElement.parts (element : SdElement) : List (List UInt8 × List UInt8) :=
  if element.params = [] then [(element.id, [])]
  else element.params.map fun param => (element.id, param.name)

theorem splitName_entries {element : SdElement} (hid : element.id ≠ []) (hsep : element.Separable) :
    (element.entries.map Prod.fst).map splitName = element.parts := by
  unfold entries parts SdElement.Separable at *
  split
  case isTrue h =>
    rw [if_pos h] at hsep
    rw [map_cons, map_cons, map_nil, map_nil, splitName_id hid hsep]
  case isFalse h =>
    rw [if_neg h] at hsep
    rw [map_map, map_map]
    exact map_congr_left fun param hparam => splitName_param (hsep param hparam)

theorem parts_fst {element : SdElement} {part : List UInt8 × List UInt8} (h : part ∈ element.parts) :
    part.1 = element.id := by
  unfold parts at h
  split at h
  · rw [mem_singleton.1 h]
  · obtain ⟨param, -, rfl⟩ := mem_map.1 h
    rfl

theorem nodup_parts {elements : List SdElement} (hids : (elements.map SdElement.id).Nodup)
    (hnames : ∀ element ∈ elements, (element.params.map SdParam.name).Nodup) :
    (elements.flatMap parts).Nodup := by
  rw [nodup_flatMap]
  refine ⟨fun element helement => ?_, ?_⟩
  · unfold parts
    split
    · exact nodup_singleton _
    · have := @List.Nodup.map _ _ _ (fun name => (element.id, name))
        (fun a b h => congrArg Prod.snd h) (hnames element helement)
      rwa [map_map] at this
  · refine List.Pairwise.imp ?_ (pairwise_map.1 hids)
    intro a b hne x hx hx'
    exact hne ((parts_fst hx).symm.trans (parts_fst hx'))

theorem nodup_entries {elements : List SdElement} (hids : (elements.map SdElement.id).Nodup)
    (hnames : ∀ element ∈ elements, (element.params.map SdParam.name).Nodup)
    (hid : ∀ element ∈ elements, element.id ≠ []) (hsep : ∀ element ∈ elements, element.Separable) :
    ((elements.flatMap entries).map Prod.fst).Nodup := by
  have hmap : ((elements.flatMap entries).map Prod.fst).map splitName =
      elements.flatMap parts := by
    rw [map_flatMap, map_flatMap]
    exact flatMap_congr fun element he => splitName_entries (hid element he) (hsep element he)
  exact List.Nodup.of_map splitName (hmap ▸ nodup_parts hids hnames)

/-- A message that is about to be parsed: nothing is stored in it. -/
structure Unparsed (msg : LogMessage) : Prop where
  initial : msg.initialParse = true
  sdata : msg.sdata = []
  values : ∀ name, msg.values (.sdata name) = none

/-- Structured data is accepted and stored, and written back as the same elements. -/
def SdRoundTrips (options : MsgFormatOptions) (msg : LogMessage) (elements : List SdElement)
    (src : List UInt8) (left : Int) : Prop :=
  ∃ msg', logMsgParseSd options msg ⟨sdText elements ++ src, (sdText elements).length + left⟩ =
      .ok (msg', ⟨src, left⟩) ∧
    (∀ element ∈ elements, ∀ param ∈ element.params,
      msg'.values (.sdata (paramName element.id param.name)) = some param.value) ∧
    logMsgAppendFormatSdata msg' 0 = elementsText elements

theorem sdRoundTrips_of_ok {options : MsgFormatOptions} {elements : List SdElement}
    (hvalid : SdValid options.sdataParamValueMax elements) {msg : LogMessage} (hmsg : Unparsed msg)
    {src : List UInt8} {left : Int} (hleft : 0 ≤ left) (hends : EndsSd src left)
    (hfits : ∀ element ∈ elements, element.Fits)
    (hsep : ∀ element ∈ elements, element.Separable)
    (hroom : (elements.flatMap entries).length ≤ 255) :
    SdRoundTrips options msg elements src left := by
  have hid : ∀ element ∈ elements, element.id ≠ [] := fun e he => (hvalid.idName e he).1.1
  have hnodup := nodup_entries hvalid.ids hvalid.names hid hsep
  obtain ⟨hsdata, hvalues, -⟩ := storeAll_new hmsg.initial hnodup
    (fun entry _ => hmsg.values entry.1) (by rw [hmsg.sdata]; simpa using hroom)
  rw [hmsg.sdata, nil_append] at hsdata
  have hentries : ∀ element ∈ elements, ∀ entry ∈ element.entries,
      (storeAll msg (elements.flatMap entries)).values (.sdata entry.1) = some entry.2 :=
    fun element he entry hentry => hvalues entry (mem_flatMap.2 ⟨element, he, hentry⟩)
  refine ⟨storeAll msg (elements.flatMap entries), ?_, ?_, ?_⟩
  · rw [logMsgParseSd_text (fun e he => ⟨hvalid.idName e he, hvalid.paramName e he,
      hvalid.valueLength e he⟩) hends hleft, storeElements_eq hfits]
    rfl
  · intro element he param hparam
    refine hentries element he (paramName element.id param.name, param.value) ?_
    rw [entries, if_neg (ne_nil_of_mem hparam)]
    exact mem_map_of_mem hparam
  · exact logMsgAppendFormatSdata_eq hvalid.ids hsep hid
      (fun e he param hparam => (hvalid.paramName e he param hparam).1.1) hentries hsdata

/-! ## Only then -/

theorem setValue_sdata_cases {msg : LogMessage} (name value : List UInt8)
    (hparse : msg.initialParse = true) :
    (msg.setValue (.sdata name) value).initialParse = true ∧
      ((msg.setValue (.sdata name) value).sdata = msg.sdata ∨ msg.sdata.length ≠ 255 ∧
        (msg.setValue (.sdata name) value).sdata = msg.sdata ++ [name]) := by
  unfold LogMessage.setValue LogMessage.updateSdata LogMessage.updateSdataSlow
  simp only [reduceCtorEq, if_false, hparse, if_true]
  split
  · split
    · exact ⟨rfl, .inl rfl⟩
    case isFalse hfull => exact ⟨rfl, .inr ⟨hfull, rfl⟩⟩
  · exact ⟨rfl, .inl rfl⟩

theorem storeAll_sdata {msg : LogMessage} {entries : List (List UInt8 × List UInt8)}
    (hparse : msg.initialParse = true) (hroom : msg.sdata.length ≤ 255) :
    (storeAll msg entries).sdata.length ≤ 255 ∧
      ∀ name ∈ (storeAll msg entries).sdata, name ∈ msg.sdata ∨ name ∈ entries.map Prod.fst := by
  induction entries generalizing msg with
  | nil => exact ⟨hroom, fun name h => .inl h⟩
  | cons entry entries ih =>
    obtain ⟨hparse1, hcases⟩ := setValue_sdata_cases entry.1 entry.2 hparse
    have hroom1 : (msg.setValue (.sdata entry.1) entry.2).sdata.length ≤ 255 := by
      rcases hcases with h | ⟨hne, h⟩
      · rw [h]
        exact hroom
      · rw [h, length_append, length_singleton]
        omega
    obtain ⟨hlen, hmem⟩ := ih hparse1 hroom1
    refine ⟨hlen, fun name hname => ?_⟩
    rw [map_cons, mem_cons]
    rcases hmem name hname with h | h
    · rcases hcases with heq | ⟨-, heq⟩
      · exact .inl (heq ▸ h)
      · rw [heq, mem_append, mem_singleton] at h
        rcases h with h | h
        · exact .inl h
        · exact .inr (.inl h)
    · exact .inr (.inr h)

def EntryName (elements : List SdElement) (name : List UInt8) : Prop :=
  name ∈ (elements.flatMap entries).map Prod.fst

theorem EntryName.cases {elements : List SdElement} {name : List UInt8} (h : EntryName elements name) :
    ∃ element ∈ elements, (element.params = [] ∧ name = logmsgSdPrefix ++ element.id) ∨
      ∃ param ∈ element.params, name = paramName element.id param.name := by
  obtain ⟨entry, hentry, rfl⟩ := mem_map.1 h
  obtain ⟨element, he, hentry⟩ := mem_flatMap.1 hentry
  refine ⟨element, he, ?_⟩
  unfold entries at hentry
  split at hentry
  case isTrue hnil =>
    rw [mem_singleton.1 hentry]
    exact .inl ⟨hnil, rfl⟩
  case isFalse =>
    obtain ⟨param, hparam, rfl⟩ := mem_map.1 hentry
    exact .inr ⟨param, hparam, rfl⟩

section

variable {max : Nat} {elements : List SdElement}

theorem SdValid.nameChars (hvalid : SdValid max elements) {name : List UInt8}
    (h : EntryName elements name) :
    name.drop 7 ≠ [] ∧ ∀ c ∈ name.drop 7, isSdNameChar c = true := by
  obtain ⟨element, he, ⟨-, rfl⟩ | ⟨param, hparam, rfl⟩⟩ := h.cases
  · have hid := hvalid.idName element he
    exact ⟨hid.1.1, fun c hc => isSdNameChar_of_name hid hc⟩
  · have hid := hvalid.idName element he
    have hname := hvalid.paramName element he param hparam
    refine ⟨(by simp : element.id ++ 46 :: param.name ≠ []), fun c hc => ?_⟩
    have hc : c ∈ element.id ++ 46 :: param.name := hc
    rcases mem_append.1 hc with hc | hc
    · exact isSdNameChar_of_name hid hc
    · rcases mem_cons.1 hc with rfl | hc
      · rfl
      · exact isSdNameChar_of_name hname hc

theorem SdValid.clean (hvalid : SdValid max elements) : ∀ e ∈ elements, e.Clean := fun e he =>
  ⟨fun _ hc => isSdNameChar_of_name (hvalid.idName e he) hc,
    fun param hparam _ hc => isSdNameChar_of_name (hvalid.paramName e he param hparam) hc⟩

theorem splitName_chars {name : List UInt8} (hne : name.drop 7 ≠ [])
    (h : ∀ c ∈ name.drop 7, isSdNameChar c = true) :
    (∀ c ∈ (splitName name).1, isSdNameChar c = true) ∧
      ∀ c ∈ (splitName name).2, isSdNameChar c = true := by
  rcases splitName_cases hne with ⟨-, hsplit⟩ | ⟨id, param, hname, -, hsplit⟩
  · rw [hsplit]
    exact ⟨h, by simp⟩
  · rw [hsplit]
    rw [hname] at h
    exact ⟨fun c hc => h c (mem_append_left _ hc),
      fun c hc => h c (mem_append_right _ (mem_cons_of_mem _ hc))⟩

theorem GroupsFrom.clean (hvalid : SdValid max elements) {names : List (List UInt8)}
    {groups : List SdElement} (hfrom : GroupsFrom names groups)
    (hnames : ∀ name ∈ names, EntryName elements name) : ∀ g ∈ groups, g.Clean := by
  intro g hg
  refine ⟨?_, fun param hparam => ?_⟩
  · obtain ⟨name, hname, hid⟩ := hfrom.ids g hg
    obtain ⟨hne, hchars⟩ := hvalid.nameChars (hnames name hname)
    exact hid ▸ (splitName_chars hne hchars).1
  · obtain ⟨-, name, hname, hsplit⟩ := hfrom.params g hg param hparam
    obtain ⟨hne, hchars⟩ := hvalid.nameChars (hnames name hname)
    have := (splitName_chars hne hchars).2
    rwa [hsplit] at this

theorem GroupsFrom.separable (hvalid : SdValid max elements) {names : List (List UInt8)}
    (hfrom : GroupsFrom names elements) (hnames : ∀ name ∈ names, EntryName elements name) :
    ∀ element ∈ elements, element.Separable := by
  have hparams : ∀ element ∈ elements, ∀ param ∈ element.params, 46 ∉ param.name := by
    intro element he param hparam
    obtain ⟨hne, name, hname, hsplit⟩ := hfrom.params element he param hparam
    rcases splitName_cases (hvalid.nameChars (hnames name hname)).1 with ⟨-, h⟩ | ⟨id, p, -, hdot, h⟩
    · rw [hsplit] at h
      exact absurd (congrArg Prod.snd h) hne
    · rw [hsplit] at h
      rw [show param.name = p from congrArg Prod.snd h]
      exact hdot
  -- an element without parameters is written as it is if it has no dot, or for a longer id
  have hlonger : ∀ element ∈ elements, element.params = [] → 46 ∈ element.id →
      ∃ e ∈ elements, e.params = [] ∧ e.id = element.id ++ [46] := by
    intro element he hnil hdot
    obtain ⟨name, hname, hsplit⟩ := hfrom.alone element he hnil
    obtain ⟨e, he', ⟨hnil', rfl⟩ | ⟨param, hparam, rfl⟩⟩ := (hnames name hname).cases
    · rcases splitName_cases (hvalid.nameChars (hnames _ hname)).1 with ⟨hno, h⟩ | ⟨id, p, hdrop, -, h⟩
      · rw [hsplit, Prod.mk.injEq] at h
        rw [h.1] at hdot
        exact absurd hdot hno
      · rw [hsplit, Prod.mk.injEq] at h
        obtain ⟨rfl, rfl⟩ := h
        exact ⟨e, he', hnil', hdrop⟩
    · rw [splitName_param (hparams e he' param hparam), Prod.mk.injEq] at hsplit
      exact absurd hsplit.2 (hvalid.paramName e he' param hparam).1.1
  have halone : ∀ n, ∀ element ∈ elements, element.params = [] → 32 - element.id.length = n →
      46 ∉ element.id := by
    intro n
    induction n with
    | zero =>
      intro element he hnil hlen hdot
      obtain ⟨e, he', -, hid⟩ := hlonger element he hnil hdot
      have hle := (hvalid.idName e he').1.2
      rw [hid, length_append, length_singleton] at hle
      omega
    | succ n ih =>
      intro element he hnil hlen hdot
      obtain ⟨e, he', hnil', hid⟩ := hlonger element he hnil hdot
      refine ih e he' hnil' ?_ (by simp [hid])
      rw [hid, length_append, length_singleton]
      omega
  intro element he
  unfold SdElement.Separable
  split
  case isTrue hnil => exact halone _ element he hnil rfl
  case isFalse => exact hparams element he

end

/-- **Structured data.** Valid structured data is accepted, stored under its names and written back if
and only if every id and name fit into the buffer together, no name of a parameter and no id of an
element without parameters has a dot, and there are at most 255 names. -/
theorem sdata_round_trip_iff (options : MsgFormatOptions) (elements : List SdElement)
    (hvalid : SdValid options.sdataParamValueMax elements) (msg : LogMessage) (hmsg : Unparsed msg)
    (src : List UInt8) (left : Int) (hleft : 0 ≤ left) (hends : EndsSd src left) :
    SdRoundTrips options msg elements src left ↔
      (∀ element ∈ elements, element.Fits) ∧ (∀ element ∈ elements, element.Separable) ∧
        (elements.flatMap entries).length ≤ 255 := by
  constructor
  · rintro ⟨msg', hparse, -, hwritten⟩
    rw [logMsgParseSd_text (fun e he => ⟨hvalid.idName e he, hvalid.paramName e he,
      hvalid.valueLength e he⟩) hends hleft] at hparse
    obtain ⟨stored, hstore⟩ : ∃ stored, storeElements elements msg = .ok stored := by
      cases hstore : storeElements elements msg with
      | outside =>
        rw [hstore] at hparse
        cases hparse
      | failed =>
        rw [hstore] at hparse
        cases hparse
      | ok stored => exact ⟨stored, rfl⟩
    have hfits := fits_of_storeElements hstore
    rw [storeElements_eq hfits, Res.ok_bind, Res.ok.injEq, Prod.mk.injEq] at hparse
    obtain ⟨rfl, -⟩ := hparse
    obtain ⟨hroom, hmem⟩ := @storeAll_sdata msg (elements.flatMap entries) hmsg.initial
      (by simp [hmsg.sdata])
    have hnames : ∀ name ∈ (storeAll msg (elements.flatMap entries)).sdata,
        EntryName elements name := by
      intro name hname
      rcases hmem name hname with h | h
      · rw [hmsg.sdata] at h
        cases h
      · exact h
    have hfrom := @groupsFrom_groupsOf (storeAll msg (elements.flatMap entries))
      (storeAll msg (elements.flatMap entries)).sdata
    rw [logMsgAppendFormatSdata_groups] at hwritten
    rw [elementsText_inj (hfrom.clean hvalid hnames) hvalid.clean hwritten] at hfrom
    exact ⟨hfits, hfrom.separable hvalid hnames, Nat.le_trans hfrom.count hroom⟩
  · rintro ⟨hfits, hsep, hroom⟩
    exact sdRoundTrips_of_ok hvalid hmsg hleft hends hfits hsep hroom

/-- The options of a source that only has the flag of the syslog protocol. -/
def protocolOptions : MsgFormatOptions where
  noparse := false
  checkHostname := false
  syslogProtocol := true
  assumeUtf8 := false
  validateUtf8 := false
  noMultiLine := false
  storeLegacyMsghdr := false
  expectHostname := true
  isLocal := false
  defaultPri := 0xFFFF
  recvTimeZoneOffset _ := -1
  badHostname := none
  sdataParamValueMax := 65535

def newMessage : LogMessage where
  pri := 13
  utf8 := false
  isLocal := false
  internal := false
  hasLegacyMsghdr := false
  initialParse := true
  stamp := ⟨0, 0, -1⟩
  recvd := ⟨0, 0, 0⟩
  values _ := none
  sdata := []

theorem unparsed_newMessage : Unparsed newMessage := ⟨rfl, rfl, fun _ => rfl⟩

/-- `[a.b c="\\]"][d]`. -/
def twoElements : List SdElement := [⟨[97, 46, 98], [⟨[99], [92, 93]⟩]⟩, ⟨[100], []⟩]

instance (name : List UInt8) : Decidable (SdName name) :=
  inferInstanceAs (Decidable ((_ ∧ _) ∧ _))

theorem sdata_round_trip_two :
    SdValid 65535 twoElements ∧ SdRoundTrips protocolOptions newMessage twoElements [32, 120] 2 := by
  have hvalid : SdValid 65535 twoElements :=
    ⟨by decide, by decide +kernel, by decide, by decide +kernel, by decide⟩
  refine ⟨hvalid, (sdata_round_trip_iff protocolOptions twoElements hvalid newMessage
    unparsed_newMessage [32, 120] 2 (by decide) (fun _ => ⟨32, [120], rfl, by decide⟩)).2 ⟨?_, ?_, ?_⟩⟩
  · simp [twoElements, SdElement.Fits, FitsBuffer]
  · simp [twoElements, SdElement.Separable]
  · decide

def writtenSdata : Res (LogMessage × Cursor) → Option (List UInt8)
  | .ok (msg, _) => some (logMsgAppendFormatSdata msg 0)
  | _ => none

/-- `[a b.c="d"]` is written back as `[a.b c="d"]`. -/
theorem sdata_dot_moved :
    ¬ ∀ (options : MsgFormatOptions) (elements : List SdElement),
      SdValid options.sdataParamValueMax elements →
      (elements.flatMap params).length < 255 → ∀ msg : LogMessage, Unparsed msg →
        SdRoundTrips options msg elements [] 0 := by
  intro h
  obtain ⟨msg', hparse, -, hwritten⟩ := h protocolOptions [⟨[97], [⟨[98, 46, 99], [100]⟩]⟩]
    ⟨by decide, by decide +kernel, by decide, by decide +kernel, by decide⟩ (by decide) newMessage unparsed_newMessage
  have hmoved : writtenSdata (logMsgParseSd protocolOptions newMessage
      ⟨sdText [⟨[97], [⟨[98, 46, 99], [100]⟩]⟩] ++ [],
        (sdText [⟨[97], [⟨[98, 46, 99], [100]⟩]⟩]).length + 0⟩) =
      some (elementsText [⟨[97, 46, 98], [⟨[99], [100]⟩]⟩]) := by
    decide +kernel
  rw [hparse, writtenSdata, hwritten] at hmoved
  exact absurd hmoved (by decide)

end SyslogNg.SyslogFormat
