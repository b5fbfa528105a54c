import Mathlib.Data.List.TakeWhile
import SyslogNg.LogMsg.OwnTable
import SyslogNg.LogMsg.Shown
import SyslogNg.SyslogFormat.SdBlocks

/-!
# Blocks of structured data

`log_msg_update_sdata_slow` looks for a name that starts like the block of the new one, and puts the
handle before the last of these. `sdataFits` says when this keeps the blocks together.
-/

namespace SyslogNg.LogMsg

open Lib NameValue NameValue.NVTable List Option

/-! ## Entries -/

/-- A value is stored, or there is no room for it: the other handles have an entry as before. -/
structure Entered (registry : NVRegistry) (handle : Nat) (t t' : NVTable) (newEntry : Bool) : Prop where
  kept : t'.Kept registry
  other : ∀ h ≠ handle, (t'.entryOf h).isSome = (t.entryOf h).isSome
  new : newEntry = (t.entryOf handle).isNone
  stays : (t.entryOf handle).isSome = true → (t'.entryOf handle).isSome = true

section

variable {registry : NVRegistry} {t t' : NVTable} {handle : Nat} {value : List UInt8}

theorem addValue_framed_kept {r : AddResult} (hk : t.Kept registry) (hpos : 0 < handle)
    (hlt : handle < 2 ^ 16) (hr : t.addValue handle (registry.name handle) value true = some r) :
    Framed handle (some (value.take nvTableMaxBytes)) t r := by
  have hr' : (t.withOwner 1 false).addValue handle (registry.name handle) value true =
      some (r.withOwner 1 false) := by
    rw [addValue_withOwner, hr]
    rfl
  have hf := addValue_framed hk.stands hpos hlt hr'
  exact ⟨fun h hne => ⟨(hf.other h hne).absent, (hf.other h hne).present, (hf.other h hne).own⟩,
    hf.stored, hf.failed⟩

theorem addValue_entered {r : AddResult} (hk : t.Kept registry) (hpos : 0 < handle)
    (hlt : handle < 2 ^ 16) (hr : t.addValue handle (registry.name handle) value true = some r) :
    Entered registry handle t r.table r.newEntry ∧
      (r.ok = true → (r.table.entryOf handle).isSome = true) := by
  obtain ⟨r', hr', hkept, -⟩ := hk.addValue hpos hlt value true
  obtain rfl : r = r' := some.inj (hr.symm.trans hr')
  have hf := addValue_framed_kept hk hpos hlt hr
  have hnew := addValue_newEntry (show (t.withOwner 1 false).LayoutIn _ from hk.stands.layout)
    (show (t.withOwner 1 false).addValue handle (registry.name handle) value true =
      some (r.withOwner 1 false) by rw [addValue_withOwner, hr]; rfl)
  have hok : r.ok = true → (r.table.entryOf handle).isSome = true := by
    intro hok
    rw [← isSome_cells, hf.stored _ rfl hok]
    rfl
  refine ⟨⟨hkept, fun h hne => (hf.other h hne).isSome, hnew, fun hsome => ?_⟩, hok⟩
  cases hcase : r.ok with
  | true => exact hok hcase
  | false => rwa [← isSome_cells, hf.failed hcase, isSome_cells]

/-- The room that the value needs is there when the table has the maximum size. -/
def StoreFits (registry : NVRegistry) (t : NVTable) (handle : Nat) (value : List UInt8) : Prop :=
  t.ofsTableTop + t.used + t.storeSpace handle (registry.name handle) value ≤ nvTableMaxBytes

instance : Decidable (StoreFits registry t handle value) := inferInstanceAs (Decidable (_ ≤ _))

/-- **The loop** of `log_msg_set_value`. -/
theorem retryLoop_entered {rounds : Nat} {r : AddResult} (hk : t.Kept registry) (hpos : 0 < handle)
    (hlt : handle < 2 ^ 16)
    (hr : retryLoop (·.addValue handle (registry.name handle) value true) rounds t = some r) :
    Entered registry handle t r.table r.newEntry ∧
      (StoreFits registry t handle value → (r.table.entryOf handle).isSome = true) := by
  induction rounds generalizing t with
  | zero => cases hr
  | succ rounds ih =>
    obtain ⟨r1, hr1, hr⟩ := bind_eq_some_iff.1 hr
    obtain ⟨hentered, hok1⟩ := addValue_entered hk hpos hlt hr1
    split at hr
    · rename_i hok
      cases hr
      exact ⟨hentered, fun _ => hok1 hok⟩
    rename_i hok
    replace hok := eq_false_of_ne_true hok
    have hfailed := (addValue_framed_kept hk hpos hlt hr1).failed hok
    have hsame : (r1.table.entryOf handle).isSome = (t.entryOf handle).isSome := by
      rw [← isSome_cells, hfailed, isSome_cells]
    obtain ⟨⟨grown, t2⟩, hrealloc, hr⟩ := bind_eq_some_iff.1 hr
    have hk2 : t2.Kept registry :=
      hentered.kept.call (c := .realloc) trivial (by rw [nvCall, hrealloc]; rfl)
    obtain ⟨r1', hr1', -, hserved⟩ := addValue_served hk hpos hlt value true
    obtain rfl : r1 = r1' := some.inj (hr1.symm.trans hr1')
    obtain ⟨hsize, hfull, hless, -⟩ := hserved hok
    cases grown with
    | false =>
      cases hr
      obtain ⟨n, refCnt, borrowed, -, rfl⟩ := realloc_eq hrealloc
      refine ⟨⟨hk2, hentered.other, hentered.new, hentered.stays⟩, fun hfits => ?_⟩
      -- the table has the maximum size
      have hmax : r1.table.size = nvTableMaxBytes := by
        have hpos := size_pos hentered.kept
        unfold NVTable.realloc at hrealloc
        dsimp only at hrealloc
        split at hrealloc
        · omega
        split at hrealloc
        · cases hrealloc
        split at hrealloc
        · cases hrealloc
        split at hrealloc
        · cases hrealloc
        · cases hrealloc
      unfold StoreFits at hfits
      omega
    | true =>
      obtain ⟨n, refCnt, borrowed, -, rfl⟩ := realloc_eq hrealloc
      obtain ⟨hentered2, hstored⟩ := ih hk2 hr
      refine ⟨⟨hentered2.kept, fun h hne => (hentered2.other h hne).trans (hentered.other h hne), ?_,
        fun hsome => ?_⟩, fun hfits => hstored ?_⟩
      · rw [hentered2.new]
        show (r1.table.entryOf handle).isNone = _
        rw [← not_isSome, hsame, not_isSome]
      · refine hentered2.stays ?_
        show (r1.table.entryOf handle).isSome = true
        rw [hsame, hsome]
      · unfold StoreFits at hfits ⊢
        rw [storeSpace_resize]
        show r1.table.ofsTableTop + r1.table.used + _ ≤ _
        exact hless.trans hfits

end

/-! ## Blocks -/

/-- The block of a handle. -/
def LogMsgRegistry.block (registry : LogMsgRegistry) (handle : Nat) : List UInt8 :=
  SyslogFormat.blockOf (registry.name handle)

/-- The name of `s` goes on behind the prefix and the block of the other name. -/
def startsAlike (registry : LogMsgRegistry) (handle s : Nat) : Bool :=
  let len := prefixAndBlockLen (registry.name handle)
  (registry.name s).length > len ∧ (registry.name s).take len = (registry.name handle).take len

/-- The handles up to the last one whose name starts like the block of the new one; that one is the
first of them here. -/
def upToAlike (registry : LogMsgRegistry) (sdata : List Nat) (handle : Nat) : List Nat :=
  sdata.reverse.dropWhile fun s => !startsAlike registry handle s

/-- The new handle does not split a block, and does not stand apart from its own: while the message
is parsed its block is new or the last one; afterwards the last handle whose name starts alike, if
there is one, is of the same block, or is the first of its own and has the block of the new one in
front of it, unless that block is new. -/
def insertFits (registry : LogMsgRegistry) (initialParse : Bool) (sdata : List Nat) (handle : Nat) :
    Bool :=
  if initialParse then
    !(sdata.map registry.block).contains (registry.block handle) ||
      sdata.getLast?.map registry.block = some (registry.block handle)
  else
    match upToAlike registry sdata handle with
    | [] => true
    | s :: front => registry.block s = registry.block handle ||
        front.head?.map registry.block ≠ some (registry.block s) &&
          (!(front.map registry.block).contains (registry.block handle) ||
            front.head?.map registry.block = some (registry.block handle))

section

variable {registry : LogMsgRegistry} {names : NVRegistry} {sdata : List Nat} {handle : Nat}

theorem prefixAndBlockLen_eq {block param : List UInt8}
    (hle : (SyslogFormat.logmsgSdPrefix ++ block ++ 46 :: param).length ≤ 255) (hdot : 46 ∉ param) :
    prefixAndBlockLen (SyslogFormat.logmsgSdPrefix ++ block ++ 46 :: param) = 7 + block.length := by
  have hlen : (SyslogFormat.logmsgSdPrefix ++ block ++ 46 :: param).length =
      7 + block.length + (param.length + 1) := by
    simp [SyslogFormat.logmsgSdPrefix]
    omega
  have hidx : (SyslogFormat.logmsgSdPrefix ++ block ++ 46 :: param).reverse.idxOf 46 =
      param.length := by
    rw [reverse_append, reverse_cons, append_assoc,
      idxOf_append_of_notMem (by simpa using hdot), length_reverse]
    simp
  unfold prefixAndBlockLen
  rw [hidx, hlen]
  omega

theorem startsAlike_of_block {s : Nat} (hle : ∀ h, (registry.name h).length ≤ 255)
    (hhandle : SyslogFormat.SdataName (registry.name handle))
    (hs : SyslogFormat.SdataName (registry.name s)) (hblock : registry.block s = registry.block handle) :
    startsAlike registry handle s = true := by
  obtain ⟨block, param, hname, hdot⟩ := hhandle
  obtain ⟨block', param', hname', hdot'⟩ := hs
  have heq : block' = block := by
    rwa [LogMsgRegistry.block, LogMsgRegistry.block, hname, hname', SyslogFormat.blockOf_eq hdot,
      SyslogFormat.blockOf_eq hdot'] at hblock
  subst heq
  have hlen := prefixAndBlockLen_eq (hname ▸ hle handle) hdot
  have htake : ∀ p : List UInt8, (SyslogFormat.logmsgSdPrefix ++ block' ++ 46 :: p).take
      (7 + block'.length) = SyslogFormat.logmsgSdPrefix ++ block' := by
    intro p
    have hlen : (SyslogFormat.logmsgSdPrefix ++ block').length = 7 + block'.length := by
      simp [SyslogFormat.logmsgSdPrefix]
      omega
    rw [take_append_of_le_length hlen.ge, take_of_length_le hlen.le]
  unfold startsAlike
  dsimp only
  rw [hname, hname', hlen, htake, htake]
  simp [SyslogFormat.logmsgSdPrefix]
  omega

theorem findIdx?_dropWhile {α : Type} (p : α → Bool) (l : List α) :
    l.findIdx? p = if (l.dropWhile fun a => !p a).isEmpty then none
      else some (l.takeWhile fun a => !p a).length := by
  induction l with
  | nil => rfl
  | cons a l ih =>
    cases ha : p a with
    | true => simp [findIdx?_cons, ha]
    | false =>
      simp only [findIdx?_cons, ha, Bool.false_eq_true, ↓reduceIte, ih, Bool.not_false,
        dropWhile_cons_of_pos, takeWhile_cons_of_pos]
      cases (l.dropWhile fun a => !p a).isEmpty <;> rfl

def behindAlike (registry : LogMsgRegistry) (sdata : List Nat) (handle : Nat) : List Nat :=
  sdata.reverse.takeWhile fun s => !startsAlike registry handle s

theorem alike_split (registry : LogMsgRegistry) (sdata : List Nat) (handle : Nat) :
    (upToAlike registry sdata handle).reverse ++ (behindAlike registry sdata handle).reverse = sdata := by
  rw [← reverse_append, behindAlike, upToAlike, takeWhile_append_dropWhile, reverse_reverse]

theorem sdataPosition_false : sdataPosition registry false sdata (registry.name handle) =
    match upToAlike registry sdata handle with
      | [] => sdata.length
      | _ :: _ => sdata.length - 1 - (behindAlike registry sdata handle).length := by
  have hpos : sdata.reverse.findIdx? (startsAlike registry handle) =
      if (upToAlike registry sdata handle).isEmpty then none
      else some (behindAlike registry sdata handle).length :=
    findIdx?_dropWhile (startsAlike registry handle) sdata.reverse
  unfold startsAlike at hpos
  rw [sdataPosition, if_neg Bool.false_ne_true, hpos]
  cases upToAlike registry sdata handle <;> rfl

theorem insertSdata_eq (initialParse : Bool) (hfull : sdata.length ≠ 255) :
    insertSdata registry initialParse sdata handle =
      if initialParse then sdata ++ [handle]
      else
        match upToAlike registry sdata handle with
        | [] => sdata ++ [handle]
        | s :: front => front.reverse ++ handle :: s :: (behindAlike registry sdata handle).reverse := by
  unfold insertSdata
  rw [if_neg hfull]
  cases initialParse with
  | true => simp [sdataPosition]
  | false =>
    have hsplit := alike_split registry sdata handle
    dsimp only
    rw [sdataPosition_false, if_neg Bool.false_ne_true]
    cases hcase : upToAlike registry sdata handle with
    | nil => simp
    | cons s front =>
      rw [hcase] at hsplit
      generalize behindAlike registry sdata handle = behind at hsplit ⊢
      subst hsplit
      have hlen : ((s :: front).reverse ++ behind.reverse).length - 1 - behind.length =
          front.reverse.length := by
        simp
      dsimp only
      rw [hlen]
      simp

/-- **Where a new handle may go**: the blocks stay together exactly when the position fits. -/
theorem insertSdata_contiguous (initialParse : Bool) (hle : ∀ h, (registry.name h).length ≤ 255)
    (hvalid : ∀ s ∈ sdata, SyslogFormat.SdataName (registry.name s))
    (hhandle : SyslogFormat.SdataName (registry.name handle)) (hfull : sdata.length ≠ 255)
    (hcont : Contiguous (sdata.map registry.block)) :
    Contiguous ((insertSdata registry initialParse sdata handle).map registry.block) ↔
      insertFits registry initialParse sdata handle = true := by
  rw [insertSdata_eq initialParse hfull]
  unfold insertFits
  cases initialParse with
  | true =>
    simp only [↓reduceIte, map_append, map_cons, map_nil]
    rw [contiguous_concat hcont, getLast?_map]
    simp [Decidable.imp_iff_not_or]
  | false =>
    have hbehind : registry.block handle ∉ (behindAlike registry sdata handle).map registry.block := by
      intro hmem
      obtain ⟨s, hs, hblock⟩ := mem_map.1 hmem
      have hs' : s ∈ sdata := by
        rw [← alike_split registry sdata handle]
        exact mem_append_right _ (mem_reverse.2 hs)
      have hnot := mem_takeWhile_imp hs
      rw [startsAlike_of_block hle hhandle (hvalid s hs') hblock] at hnot
      cases hnot
    have hsplit := alike_split registry sdata handle
    simp only [Bool.false_eq_true, ↓reduceIte]
    generalize behindAlike registry sdata handle = behind at hsplit hbehind ⊢
    cases hcase : upToAlike registry sdata handle with
    | nil =>
      rw [hcase] at hsplit
      have hnot : registry.block handle ∉ sdata.map registry.block := by
        rw [← hsplit]
        simpa using hbehind
      simp only [map_append, map_cons, map_nil]
      rw [contiguous_concat hcont]
      simp only [iff_true]
      exact fun hmem => absurd hmem hnot
    | cons s front =>
      rw [hcase] at hsplit
      subst hsplit
      have hcont' : Contiguous ((front.map registry.block).reverse ++
          registry.block s :: (behind.map registry.block).reverse) := by
        simpa using hcont
      simp only [map_append, map_cons, map_reverse]
      rw [contiguous_insert hcont']
      have hcross := (contiguous_append.1 hcont').2.2
      simp only [mem_reverse, getLast?_reverse, mem_cons, head?_cons,
        some.injEq, head?_map] at hcross ⊢
      generalize front.head?.map registry.block = last at hcross ⊢
      by_cases hs : registry.block s = registry.block handle
      · -- the block of the new handle: the ones in front of it stand behind each other already
        refine iff_of_true ⟨fun hmem => (hcross _ hmem (.inl hs.symm)).1, fun _ => hs,
          fun a _ ha => ha.symm.trans hs⟩ (by simp [hs])
      · have hnot : ¬(registry.block handle = registry.block s ∨
            registry.block handle ∈ behind.map registry.block) :=
          not_or.2 ⟨Ne.symm hs, hbehind⟩
        simp only [hnot, IsEmpty.forall_iff, true_and, hs, decide_false, Bool.false_or,
          Bool.and_eq_true, Bool.or_eq_true, decide_eq_true_eq]
        have hmid : (∀ a, last = some a → registry.block s = a → a = registry.block handle) ↔
            last ≠ some (registry.block s) :=
          ⟨fun h hlast => hs (h _ hlast rfl), fun h a ha has => absurd (has ▸ ha) h⟩
        rw [hmid]
        simp only [Bool.not_eq_true', contains_eq_mem, decide_eq_false_iff_not, ← imp_iff_not_or]
        tauto

end

end SyslogNg.LogMsg
