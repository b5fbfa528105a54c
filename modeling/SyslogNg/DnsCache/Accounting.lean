import SyslogNg.DnsCache.Cache
import Mathlib.Data.List.Nodup

/-!
# The accounts of the DNS cache

What the cache is for: a book of names, each of an address, kept for good or since some time. As long as
no address is stored in the other kind than the one it has, the cache is such a book: its lists are the
two kinds of entries in the order they came, and the counter counts one of them.
-/

namespace SyslogNg.DnsCache

open List DnsEntry

/-! ## The book -/

structure HostRecord where
  key : DnsKey
  since : Option Int
  hostname : Option HostName
  positive : Bool
  deriving DecidableEq

/-- The records in the order they were stored, the versions of the hosts file, and the time. -/
structure HostBook where
  records : List HostRecord
  hostsMtime : Int
  hostsChecktime : Int
  now : Int

def HostRecord.ordinary (r : HostRecord) : Bool := r.since.isSome

def dropOldest (records : List HostRecord) : List HostRecord :=
  match records.find? HostRecord.ordinary with
  | none => records
  | some oldest => records.filter (·.key ≠ oldest.key)

namespace HostBook

/-- A record takes the place of the one of its address; there is room for some ordinary ones. -/
def store (p : DnsParams) (r : HostRecord) (b : HostBook) : HostBook :=
  let records := b.records.filter (fun other => other.key ≠ r.key) ++ [r]
  { b with records :=
      if ((records.filter HostRecord.ordinary).length : Int) > p.cacheSize then dropOldest records
      else records }

def unload (b : HostBook) : HostBook := { b with records := b.records.filter HostRecord.ordinary }

def load (p : DnsParams) : List (DnsKey × HostName) → HostBook → HostBook
  | [], b => b
  | (key, name) :: hosts, b => load p hosts (b.store p ⟨key, none, some name, true⟩)

/-- The hosts file is read again if it is newer, and unloaded if it is gone. -/
def check (p : DnsParams) (t : Int) (file : Option HostsFile) (b : HostBook) : HostBook :=
  if b.hostsChecktime = t then b
  else
    let b := { b with hostsChecktime := t }
    match file with
    | none => b.unload
    | some f =>
      if b.hostsMtime = -1 ∨ f.mtime > b.hostsMtime then
        ({ b with hostsMtime := f.mtime }.unload).load p (f.hosts p)
      else b

end HostBook

/-- A record that is kept for good, or not older than its kind may be. -/
def HostRecord.answer (p : DnsParams) (now : Int) (r : HostRecord) : Option (Option HostName × Bool) :=
  match r.since with
  | none => some (r.hostname, r.positive)
  | some t =>
    if now - t ≤ if r.positive then p.expire else p.expireFailed then some (r.hostname, r.positive)
    else none

def storedRecord (now : Int) (persistent : Bool) (key : DnsKey) (hostname : Option HostName)
    (positive : Bool) : HostRecord :=
  ⟨key, if persistent then none else some now, hostname, positive⟩

/-- What a call should do to the book, and its answer. -/
def DnsCall.book (p : DnsParams) (b : HostBook) : DnsCall → DnsAnswer × HostBook
  | store now persistent key hostname positive =>
    (none, { b with now }.store p (storedRecord now persistent key hostname positive))
  | lookup now file key =>
    let b := { b with now }.check p now file
    (some ((b.records.find? (·.key = key)).bind (HostRecord.answer p now)), b)

def bookCalls (p : DnsParams) : List DnsCall → HostBook → List DnsAnswer × HostBook
  | [], b => ([], b)
  | call :: calls, b =>
    let (answer, b) := call.book p b
    let (answers, b) := bookCalls p calls b
    (answer :: answers, b)

/-! ## The accounts -/

def DnsEntry.ordinary (e : DnsEntry) : Bool := e.resolved ≠ 0

def DnsEntry.record (e : DnsEntry) : HostRecord :=
  ⟨e.key, if e.resolved = 0 then none else some e.resolved, e.hostname, e.positive⟩

/-- Every entry of the table is in the list of its kind, and there are no others in them. -/
structure Tidy (c : Cache) : Prop where
  keys : (c.table.map key).Nodup
  serials : (c.table.map serial).Nodup
  fresh : ∀ e ∈ c.table, e.serial < c.nextSerial
  cacheList : c.cacheList = c.table.filter ordinary
  persistList : c.persistList = c.table.filter (!ordinary ·)

/-- The cache agrees with the book: the counter counts the entries that are kept for good, there is room
for the others, and these are in the order of their age. -/
structure Accounted (p : DnsParams) (b : HostBook) (c : Cache) : Prop where
  tidy : Tidy c
  records : c.table.map record = b.records
  count : c.persistentCount = c.persistList.length
  room : (c.cacheList.length : Int) ≤ p.cacheSize
  aged : c.cacheList.Pairwise (·.resolved ≤ ·.resolved)
  past : ∀ e ∈ c.cacheList, e.resolved ≤ b.now
  hostsMtime : c.hostsMtime = b.hostsMtime
  hostsChecktime : c.hostsChecktime = b.hostsChecktime

/-- The address is stored in the kind that it has already, if it has one, and not at the time 0. -/
def StoreCareful (now : Int) (persistent : Bool) (key : DnsKey) (b : HostBook) : Prop :=
  (persistent = false → now ≠ 0) ∧ ∀ r ∈ b.records, r.key = key → r.ordinary = !persistent

def LoadCareful (p : DnsParams) : List (DnsKey × HostName) → HostBook → Prop
  | [], _ => True
  | (key, name) :: hosts, b =>
    StoreCareful 0 true key b ∧ LoadCareful p hosts (b.store p ⟨key, none, some name, true⟩)

def CheckCareful (p : DnsParams) (t : Int) (file : Option HostsFile) (b : HostBook) : Prop :=
  b.hostsChecktime ≠ t → ∀ f ∈ file, b.hostsMtime = -1 ∨ f.mtime > b.hostsMtime →
    LoadCareful p (f.hosts p) { b with hostsChecktime := t, hostsMtime := f.mtime }.unload

def DnsCall.Careful (p : DnsParams) (b : HostBook) : DnsCall → Prop
  | store now persistent key _ _ => b.now ≤ now ∧ StoreCareful now persistent key b
  | lookup now file _ => b.now ≤ now ∧ CheckCareful p now file { b with now }

def CarefulRun (p : DnsParams) : List DnsCall → HostBook → Prop
  | [], _ => True
  | call :: calls, b => call.Careful p b ∧ CarefulRun p calls (call.book p b).2

def HostBook.init (now : Int) : HostBook := ⟨[], -1, 0, now⟩

/-! ## Entries and their records -/

@[simp] theorem record_ordinary (e : DnsEntry) : e.record.ordinary = e.ordinary := by
  unfold record HostRecord.ordinary ordinary
  by_cases h : e.resolved = 0 <;> simp [h]

theorem map_record_others (key : DnsKey) (entries : List DnsEntry) :
    (others key entries).map record = (entries.map record).filter (·.key ≠ key) := by
  rw [others, filter_map]
  rfl

theorem map_record_ordinary (entries : List DnsEntry) :
    (entries.filter ordinary).map record =
      (entries.map record).filter HostRecord.ordinary := by
  rw [filter_map]
  congr 1
  exact filter_congr fun e _ => (record_ordinary e).symm

theorem filter_others (f : DnsEntry → Bool) (key : DnsKey) (entries : List DnsEntry) :
    (others key entries).filter f = others key (entries.filter f) := by
  rw [others, others, filter_comm]

variable {entries : List DnsEntry}

theorem mem_others {key : DnsKey} {e : DnsEntry} :
    e ∈ others key entries ↔ e ∈ entries ∧ e.key ≠ key := by
  simp [others]

theorem others_sublist (key : DnsKey) (entries : List DnsEntry) : (others key entries).Sublist entries :=
  filter_sublist

theorem others_eq_self {key : DnsKey} (h : ∀ e ∈ entries, e.key ≠ key) :
    others key entries = entries :=
  filter_eq_self.mpr fun e he => by simpa using h e he

theorem others_length (hkeys : (entries.map key).Nodup) {e : DnsEntry}
    (he : e ∈ entries) : (others e.key entries).length + 1 = entries.length := by
  induction entries with
  | nil => cases he
  | cons d entries ih =>
    rw [map_cons, nodup_cons] at hkeys
    by_cases hd : d.key = e.key
    · have hothers : others e.key (d :: entries) = entries := by
        rw [others, filter_cons_of_neg (by simpa using hd)]
        exact others_eq_self fun x hx hxe =>
          hkeys.1 (mem_map.mpr ⟨x, hx, hxe.trans hd.symm⟩)
      rw [hothers, length_cons]
    · have hmem : e ∈ entries := by
        rcases mem_cons.mp he with rfl | h
        · exact absurd rfl hd
        · exact h
      rw [others, filter_cons_of_pos (by simpa using hd), length_cons, length_cons]
      exact congrArg (· + 1) (ih hkeys.2 hmem)

/-! ## Removing and storing entries -/

section

variable {c : Cache}

variable {e : DnsEntry}

theorem Tidy.same_key (h : Tidy c) {d : DnsEntry} (hd : d ∈ c.table) (he : e ∈ c.table)
    (hkey : d.key = e.key) : d = e :=
  inj_on_of_nodup_map h.keys hd he hkey

theorem Tidy.filter_serial (h : Tidy c) {old : DnsEntry} (hold : old ∈ c.table) {l : List DnsEntry}
    (hl : ∀ e ∈ l, e ∈ c.table) : l.filter (·.serial ≠ old.serial) = others old.key l := by
  refine filter_congr fun e he => decide_eq_decide.mpr (not_congr ⟨fun hserial => ?_, ?_⟩)
  · rw [inj_on_of_nodup_map h.serials (hl e he) hold hserial]
  · intro hkey
    rw [h.same_key (hl e he) hold hkey]

theorem Tidy.mem_cacheList (h : Tidy c) : e ∈ c.cacheList ↔ e ∈ c.table ∧ e.ordinary = true := by
  rw [h.cacheList, mem_filter]

theorem Tidy.mem_persistList (h : Tidy c) : e ∈ c.persistList ↔ e ∈ c.table ∧ e.ordinary = false := by
  rw [h.persistList, mem_filter, Bool.not_eq_true']

structure SameAccounts (c c' : Cache) : Prop where
  persistentCount : c'.persistentCount = c.persistentCount
  hostsMtime : c'.hostsMtime = c.hostsMtime
  hostsChecktime : c'.hostsChecktime = c.hostsChecktime

theorem Tidy.remove (h : Tidy c) (key : DnsKey) :
    Tidy (c.remove key) ∧ (c.remove key).table = others key c.table ∧ SameAccounts c (c.remove key) := by
  unfold Cache.remove
  cases hfind : c.find key with
  | none =>
    have hnone : ∀ e ∈ c.table, e.key ≠ key := by
      intro e he
      simpa using find?_eq_none.mp hfind e he
    exact ⟨h, (others_eq_self hnone).symm, ⟨rfl, rfl, rfl⟩⟩
  | some old =>
    have hold : old ∈ c.table := mem_of_find?_eq_some hfind
    have hkey : old.key = key := by simpa using find?_some hfind
    subst hkey
    refine ⟨⟨?_, ?_, fun e he => h.fresh e (mem_others.mp he).1, ?_, ?_⟩, rfl, ⟨rfl, rfl, rfl⟩⟩
    · exact h.keys.sublist ((others_sublist _ _).map _)
    · exact h.serials.sublist ((others_sublist _ _).map _)
    · show c.cacheList.filter _ = _
      rw [h.filter_serial hold fun e he => (h.mem_cacheList.mp he).1, h.cacheList, ← filter_others]
      rfl
    · show c.persistList.filter _ = _
      rw [h.filter_serial hold fun e he => (h.mem_persistList.mp he).1, h.persistList, ← filter_others]
      rfl

theorem link_lists {persistent : Bool} {e : DnsEntry} (hkind : e.ordinary = !persistent) :
    (c.link persistent e).cacheList = c.cacheList ++ [e].filter ordinary ∧
      (c.link persistent e).persistList = c.persistList ++ [e].filter (!ordinary ·) := by
  cases persistent with
  | false =>
    rw [filter_cons_of_pos (by simpa using hkind), filter_cons_of_neg (by simpa using hkind)]
    exact ⟨rfl, (append_nil _).symm⟩
  | true =>
    rw [filter_cons_of_neg (by simpa using hkind), filter_cons_of_pos (by simpa using hkind)]
    exact ⟨(append_nil _).symm, rfl⟩

theorem link_rest {persistent : Bool} {e : DnsEntry} :
    (c.link persistent e).table = c.table ∧ (c.link persistent e).nextSerial = e.serial + 1 ∧
      SameAccounts c (c.link persistent e) := by
  cases persistent
  · exact ⟨rfl, rfl, ⟨rfl, rfl, rfl⟩⟩
  · exact ⟨rfl, rfl, ⟨rfl, rfl, rfl⟩⟩

theorem Tidy.stored (h : Tidy c) {persistent : Bool} (hserial : e.serial = c.nextSerial)
    (hkind : e.ordinary = !persistent) :
    Tidy ((c.link persistent e).replace e) ∧
      ((c.link persistent e).replace e).table = others e.key c.table ++ [e] ∧
      SameAccounts c ((c.link persistent e).replace e) := by
  obtain ⟨hcache, hpersist⟩ := @link_lists c persistent e hkind
  obtain ⟨htable, hnext, hsame⟩ := @link_rest c persistent e
  have hkeys : ((others e.key c.table ++ [e]).map key).Nodup := by
    rw [map_append, map_singleton, nodup_append]
    refine ⟨h.keys.sublist ((others_sublist _ _).map _), nodup_singleton _, ?_⟩
    intro key hkey key' hkey'
    obtain ⟨d, hd, rfl⟩ := mem_map.mp hkey
    rw [mem_singleton.mp hkey']
    exact (mem_others.mp hd).2
  have hserials : ((others e.key c.table ++ [e]).map serial).Nodup := by
    rw [map_append, map_singleton, nodup_append]
    refine ⟨h.serials.sublist ((others_sublist _ _).map _), nodup_singleton _, ?_⟩
    intro serial hserial' serial' hserial''
    obtain ⟨d, hd, rfl⟩ := mem_map.mp hserial'
    rw [mem_singleton.mp hserial'', hserial]
    exact Nat.ne_of_lt (h.fresh d (mem_others.mp hd).1)
  have hfresh : ∀ d ∈ others e.key c.table ++ [e], d.serial < e.serial + 1 := by
    intro d hd
    rcases mem_append.mp hd with hd | hd
    · rw [hserial]
      exact Nat.lt_succ_of_lt (h.fresh d (mem_others.mp hd).1)
    · rw [mem_singleton.mp hd]
      exact Nat.lt_succ_self _
  unfold Cache.replace
  cases hfind : (c.link persistent e).find e.key with
  | none =>
    have hnone : others e.key c.table = c.table := by
      refine others_eq_self fun d hd => ?_
      rw [Cache.find, htable] at hfind
      simpa using find?_eq_none.mp hfind d hd
    rw [hnone] at hkeys hserials hfresh ⊢
    refine ⟨⟨?_, ?_, ?_, ?_, ?_⟩, by rw [htable], ⟨hsame.1, hsame.2, hsame.3⟩⟩
    · rwa [htable]
    · rwa [htable]
    · rw [htable]
      intro d hd
      exact hnext ▸ hfresh d hd
    · rw [htable, filter_append, ← h.cacheList]
      exact hcache
    · rw [htable, filter_append, ← h.persistList]
      exact hpersist
  | some old =>
    rw [Cache.find, htable] at hfind
    have hold : old ∈ c.table := mem_of_find?_eq_some hfind
    have hkey : old.key = e.key := by simpa using find?_some hfind
    have hnew : e.serial ≠ old.serial := by
      rw [hserial]
      exact Nat.ne_of_gt (h.fresh old hold)
    have hkeep : ∀ f : DnsEntry → Bool,
        ([e].filter f).filter (·.serial ≠ old.serial) = [e].filter f := by
      intro f
      refine filter_eq_self.mpr fun d hd => ?_
      rw [mem_singleton.mp (mem_filter.mp hd).1]
      exact decide_eq_true hnew
    refine ⟨⟨?_, ?_, ?_, ?_, ?_⟩, by rw [htable]; rfl, ⟨hsame.1, hsame.2, hsame.3⟩⟩
    · rw [htable]
      exact hkeys
    · rw [htable]
      exact hserials
    · rw [htable]
      intro d hd
      exact hnext ▸ hfresh d hd
    · show (c.link persistent e).cacheList.filter _ = _
      rw [hcache, filter_append, hkeep, htable,
        h.filter_serial hold fun d hd => (h.mem_cacheList.mp hd).1, hkey, h.cacheList,
        ← filter_others, ← filter_append]
      rfl
    · show (c.link persistent e).persistList.filter _ = _
      rw [hpersist, filter_append, hkeep, htable,
        h.filter_serial hold fun d hd => (h.mem_persistList.mp hd).1, hkey, h.persistList,
        ← filter_others, ← filter_append]
      rfl

theorem Tidy.lengths (h : Tidy c) : c.table.length = c.cacheList.length + c.persistList.length := by
  rw [h.cacheList, h.persistList]
  exact length_eq_length_filter_add _

theorem Tidy.keys_of (h : Tidy c) (f : DnsEntry → Bool) : ((c.table.filter f).map key).Nodup :=
  h.keys.sublist (filter_sublist.map _)

theorem Tidy.oldest (h : Tidy c) {first : DnsEntry} {rest : List DnsEntry}
    (hfirst : c.cacheList = first :: rest) :
    first ∈ c.table ∧ first.ordinary = true ∧ dropOldest (c.table.map record) =
        (others first.key c.table).map record := by
  have hmem : first ∈ c.cacheList := hfirst ▸ mem_cons_self
  refine ⟨(h.mem_cacheList.mp hmem).1, (h.mem_cacheList.mp hmem).2, ?_⟩
  have hfind : (c.table.map record).find? HostRecord.ordinary = some first.record := by
    rw [← head?_filter, ← map_record_ordinary, ← h.cacheList, hfirst]
    rfl
  rw [dropOldest, hfind, map_record_others]
  rfl

theorem Tidy.others_kind (h : Tidy c) (he : e ∈ c.table) {f : DnsEntry → Bool} (hf : f e = false) :
    others e.key (c.table.filter f) = c.table.filter f := by
  refine others_eq_self fun d hd hkey => ?_
  rw [mem_filter] at hd
  rw [h.same_key hd.1 he hkey, hf] at hd
  exact Bool.noConfusion hd.2

theorem Tidy.removeOldest (h : Tidy c) (hne : c.cacheList ≠ []) :
    ∃ c', c.removeOldest = some c' ∧ Tidy c' ∧ SameAccounts c c' ∧
      c'.table.map record = dropOldest (c.table.map record) ∧
      c'.persistList = c.persistList ∧ c'.cacheList = c.cacheList.tail := by
  obtain ⟨first, rest, hfirst⟩ := exists_cons_of_ne_nil hne
  obtain ⟨hmem, hkind, hdrop⟩ := h.oldest hfirst
  obtain ⟨htidy, htable, hsame⟩ := h.remove first.key
  refine ⟨c.remove first.key, by rw [Cache.removeOldest, hfirst], htidy, hsame, ?_, ?_, ?_⟩
  · rw [htable, hdrop]
  · rw [htidy.persistList, htable, filter_others, h.others_kind hmem (by simp [hkind]),
      h.persistList]
  · rw [htidy.cacheList, htable, filter_others, ← h.cacheList, hfirst, tail_cons, others,
      filter_cons_of_neg (by simp)]
    refine others_eq_self fun d hd hkey => ?_
    have hkeys := h.keys_of ordinary
    rw [← h.cacheList, hfirst, map_cons, nodup_cons] at hkeys
    exact hkeys.1 (mem_map.mpr ⟨d, hd, hkey⟩)

end

/-! ## Storing -/

section

variable {p : DnsParams} {b : HostBook} {c : Cache}

variable {persistent : Bool}

theorem Accounted.stored_count (h : Accounted p b c) {e : DnsEntry} (hkind : e.ordinary = !persistent)
    (hcareful : ∀ r ∈ b.records, r.key = e.key → r.ordinary = !persistent) :
    ((if persistent = true ∧ c.table.length ≠ (others e.key c.table ++ [e]).length then
        c.persistentCount + 1 else c.persistentCount) : Int) =
      ((others e.key c.table ++ [e]).filter (!ordinary ·)).length := by
  have hold : ∀ d ∈ c.table, d.key = e.key → d.ordinary = !persistent := by
    intro d hd hkey
    have hr : d.record ∈ b.records := h.records ▸ mem_map_of_mem hd
    rw [← record_ordinary]
    exact hcareful _ hr hkey
  rw [filter_append, filter_others, h.count, h.tidy.persistList, length_append,
    length_append, length_singleton]
  by_cases hfound : ∃ d ∈ c.table, d.key = e.key
  · obtain ⟨d, hd, hkey⟩ := hfound
    have hdkind := hold d hd hkey
    rw [← hkey, others_length h.tidy.keys hd]
    cases persistent with
    | false =>
      rw [if_neg (by simp), h.tidy.others_kind hd (by simpa using hdkind),
        filter_cons_of_neg (by simpa using hkind)]
      simp
    | true =>
      have hlen := others_length (h.tidy.keys_of (!ordinary ·))
        (mem_filter.mpr ⟨hd, by simpa using hdkind⟩)
      rw [if_neg (by simp), filter_cons_of_pos (by simpa using hkind)]
      simp only [filter_nil, length_singleton]
      omega
  · have hnone : ∀ d ∈ c.table, d.key ≠ e.key := fun d hd hkey => hfound ⟨d, hd, hkey⟩
    rw [others_eq_self hnone, others_eq_self fun d hd => hnone d (mem_filter.mp hd).1]
    cases persistent with
    | false =>
      rw [if_neg (by simp), filter_cons_of_neg (by simpa using hkind)]
      simp
    | true =>
      rw [if_pos ⟨rfl, by omega⟩, filter_cons_of_pos (by simpa using hkind)]
      simp

theorem stored_ordinary {now : Int} (hnow : persistent = false → now ≠ 0) (serial : Nat) (key : DnsKey)
    (hostname : Option HostName) (positive : Bool) :
    (mk serial key (if persistent then 0 else now) hostname positive).ordinary =
      !persistent := by
  cases persistent with
  | false => simpa [ordinary] using hnow rfl
  | true => rfl

theorem stored_record {now : Int} (hnow : persistent = false → now ≠ 0) (serial : Nat) (key : DnsKey)
    (hostname : Option HostName) (positive : Bool) :
    (mk serial key (if persistent then 0 else now) hostname positive).record =
      storedRecord now persistent key hostname positive := by
  cases persistent with
  | false => simp [record, storedRecord, hnow rfl]
  | true => rfl

theorem Accounted.store (h : Accounted p b c) {now : Int} (hnow : b.now ≤ now) {persistent : Bool}
    {key : DnsKey} (hcareful : StoreCareful now persistent key b) (hostname : Option HostName)
    (positive : Bool) :
    ∃ c', c.store p now persistent key hostname positive = some c' ∧
      Accounted p ({ b with now }.store p (storedRecord now persistent key hostname positive)) c' := by
  -- the new entry, in its list and in the table
  have hkind := stored_ordinary hcareful.1 c.nextSerial key hostname positive
  have hrecord := stored_record hcareful.1 c.nextSerial key hostname positive
  generalize he : DnsEntry.mk c.nextSerial key (if persistent then 0 else now) hostname positive = e
    at hkind hrecord
  have hkey : e.key = key := he ▸ rfl
  have hserial : e.serial = c.nextSerial := he ▸ rfl
  have hresolved : e.ordinary = true → e.resolved = now := by
    intro hord
    rw [hkind] at hord
    rw [← he]
    simp only [Bool.not_eq_true'] at hord
    rw [hord]
    rfl
  obtain ⟨htidy, htable, hsame⟩ := h.tidy.stored hserial hkind
  have hlink : (c.link persistent e).table.length = c.table.length := by rw [link_rest.1]
  -- the counter
  obtain ⟨c₃, hc₃, htidy₃, htable₃, hcount₃, hmtime₃, hcheck₃⟩ : ∃ c₃ : Cache,
      (if persistent = true ∧
          (c.link persistent e).table.length ≠ ((c.link persistent e).replace e).table.length then
        { (c.link persistent e).replace e with
          persistentCount := ((c.link persistent e).replace e).persistentCount + 1 }
        else (c.link persistent e).replace e) = c₃ ∧
      Tidy c₃ ∧ c₃.table = others e.key c.table ++ [e] ∧
      c₃.persistentCount = ((others e.key c.table ++ [e]).filter (!ordinary ·)).length ∧
      c₃.hostsMtime = c.hostsMtime ∧ c₃.hostsChecktime = c.hostsChecktime := by
    have hcount := h.stored_count hkind (hkey ▸ hcareful.2)
    rw [hlink, htable]
    refine ⟨_, rfl, ?_⟩
    split at hcount
    case isTrue hcond =>
      rw [if_pos hcond]
      exact ⟨⟨htidy.1, htidy.2, htidy.3, htidy.4, htidy.5⟩, htable,
        by rw [← hcount]; exact congrArg (· + 1) hsame.1, hsame.2, hsame.3⟩
    case isFalse hcond =>
      rw [if_neg hcond]
      exact ⟨htidy, htable, by rw [← hcount]; exact hsame.1, hsame.2, hsame.3⟩
  have hstore : c.store p now persistent key hostname positive =
      if (c₃.table.length : Int) - c₃.persistentCount > p.cacheSize then c₃.removeOldest
      else some c₃ := by
    rw [← hc₃, ← he]
    rfl
  -- what the book has
  have hrecords : c₃.table.map record =
      b.records.filter (fun other => other.key ≠ key) ++
        [storedRecord now persistent key hostname positive] := by
    rw [htable₃, map_append, map_record_others, map_singleton, hrecord, h.records, hkey]
  have hordinary : ((c₃.table.map record).filter HostRecord.ordinary).length =
      c₃.cacheList.length := by
    rw [← map_record_ordinary, length_map, htidy₃.cacheList]
  have hpersist : c₃.persistentCount = c₃.persistList.length := by
    rw [hcount₃, htidy₃.persistList, htable₃]
  have hexcess : (c₃.table.length : Int) - c₃.persistentCount = c₃.cacheList.length := by
    rw [hpersist, htidy₃.lengths]
    omega
  -- the list of the ordinary entries
  have hlist : c₃.cacheList = others e.key c.cacheList ++ [e].filter ordinary := by
    rw [htidy₃.cacheList, htable₃, filter_append, filter_others, ← h.tidy.cacheList]
  have hlen : (c₃.cacheList.length : Int) ≤ p.cacheSize + 1 := by
    have h1 := (others_sublist e.key c.cacheList).length_le
    have h2 : ([e].filter ordinary).length ≤ 1 := length_filter_le _ _
    have h3 := h.room
    rw [hlist, length_append]
    omega
  have hpast : ∀ d ∈ c₃.cacheList, d.resolved ≤ now := by
    intro d hd
    rw [hlist, mem_append] at hd
    rcases hd with hd | hd
    · exact Int.le_trans (h.past d (mem_others.mp hd).1) hnow
    · rw [mem_filter, mem_singleton] at hd
      obtain ⟨rfl, hordinary⟩ := hd
      exact Int.le_of_eq (hresolved hordinary)
  have haged : c₃.cacheList.Pairwise (·.resolved ≤ ·.resolved) := by
    rw [hlist, pairwise_append]
    refine ⟨h.aged.sublist (others_sublist _ _), (pairwise_singleton _ _).filter _, ?_⟩
    intro d hd d' hd'
    rw [mem_filter, mem_singleton] at hd'
    rw [hd'.1, hresolved (hd'.1 ▸ hd'.2)]
    exact Int.le_trans (h.past d (mem_others.mp hd).1) hnow
  rw [hstore, hexcess]
  unfold HostBook.store
  have hrkey : (storedRecord now persistent key hostname positive).key = key := rfl
  simp only [hrkey]
  rw [← hrecords, hordinary]
  have hroom : 0 ≤ p.cacheSize := Int.le_trans (Int.natCast_nonneg _) h.room
  by_cases hevict : (c₃.cacheList.length : Int) > p.cacheSize
  · have hne : c₃.cacheList ≠ [] := by
      intro hnil
      rw [hnil] at hevict
      exact Int.not_lt.mpr hroom hevict
    obtain ⟨c', hc', htidy', hsame', hrecords', hpersist', hcache'⟩ := htidy₃.removeOldest hne
    have htail : c'.cacheList.Sublist c₃.cacheList := hcache' ▸ tail_sublist _
    rw [if_pos hevict, if_pos hevict]
    refine ⟨c', hc', htidy', hrecords', ?_, ?_, haged.sublist htail,
      fun d hd => hpast d (htail.subset hd), ?_, ?_⟩
    · rw [hsame'.persistentCount, hpersist, hpersist']
    · show (c'.cacheList.length : Int) ≤ p.cacheSize
      rw [hcache', length_tail]
      omega
    · rw [hsame'.hostsMtime, hmtime₃]
      exact h.hostsMtime
    · rw [hsame'.hostsChecktime, hcheck₃]
      exact h.hostsChecktime
  · rw [if_neg hevict, if_neg hevict]
    exact ⟨c₃, rfl, htidy₃, rfl, hpersist, Int.not_lt.mp hevict, haged, hpast,
      hmtime₃.trans h.hostsMtime, hcheck₃.trans h.hostsChecktime⟩

/-! ## The hosts file -/

theorem cleanupLoop_nil (h : c.persistList = []) (rounds : Nat) : c.cleanupLoop rounds = some c := by
  unfold Cache.cleanupLoop
  rw [h]

theorem cleanupLoop_cons {e : DnsEntry} {rest : List DnsEntry} (h : c.persistList = e :: rest)
    (rounds : Nat) :
    c.cleanupLoop (rounds + 1) = { c.remove e.key with
      persistentCount := (c.remove e.key).persistentCount - 1 }.cleanupLoop rounds := by
  conv_lhs => unfold Cache.cleanupLoop
  rw [h]

theorem Tidy.cleanupLoop (h : Tidy c) :
    ∃ c', Cache.cleanupLoop c.persistList.length c = some c' ∧ Tidy c' ∧
      c'.table = c.table.filter ordinary ∧
      c'.persistentCount = c.persistentCount - c.persistList.length ∧
      c'.hostsMtime = c.hostsMtime ∧ c'.hostsChecktime = c.hostsChecktime := by
  generalize hn : c.persistList.length = n
  induction n generalizing c with
  | zero =>
    have hnil := length_eq_zero_iff.mp hn
    refine ⟨c, cleanupLoop_nil hnil 0, h, ?_, by simp, rfl, rfl⟩
    refine (filter_eq_self.mpr fun e he => ?_).symm
    by_contra hkind
    have hmem : e ∈ c.persistList := h.mem_persistList.mpr ⟨he, by simpa using hkind⟩
    rw [hnil] at hmem
    cases hmem
  | succ n ih =>
    obtain ⟨e, rest, he⟩ : ∃ e rest, c.persistList = e :: rest :=
      exists_cons_of_ne_nil fun hnil => by rw [hnil] at hn; cases hn
    have hmem : e ∈ c.table ∧ e.ordinary = false := h.mem_persistList.mp (he ▸ mem_cons_self)
    obtain ⟨htidy, htable, hsame⟩ := h.remove e.key
    -- the round takes one entry out of the list
    have hlen : (c.remove e.key).persistList.length = n := by
      have hothers := others_length (h.keys_of (!ordinary ·))
        (mem_filter.mpr ⟨hmem.1, by simp [hmem.2]⟩)
      rw [htidy.persistList, htable, filter_others]
      rw [h.persistList] at hn
      omega
    have hcounted : Tidy { c.remove e.key with
        persistentCount := (c.remove e.key).persistentCount - 1 } :=
      ⟨htidy.1, htidy.2, htidy.3, htidy.4, htidy.5⟩
    obtain ⟨c', hc', htidy', htable', hcount', hmtime', hcheck'⟩ := ih hcounted hlen
    refine ⟨c', (cleanupLoop_cons he n).trans hc', htidy', ?_, ?_,
      hmtime'.trans hsame.hostsMtime, hcheck'.trans hsame.hostsChecktime⟩
    · rw [htable']
      show (c.remove e.key).table.filter _ = _
      rw [htable, filter_others, h.others_kind hmem.1 hmem.2]
    · rw [hcount']
      show (c.remove e.key).persistentCount - 1 - _ = _
      rw [hsame.persistentCount]
      push_cast
      omega

theorem Accounted.unload (h : Accounted p b c) :
    ∃ c', c.cleanupPersistentHosts = some c' ∧ Accounted p b.unload c' := by
  obtain ⟨c', hc', htidy', htable', hcount', hmtime', hcheck'⟩ := h.tidy.cleanupLoop
  have hcache : c'.cacheList = c.cacheList := by
    rw [htidy'.cacheList, htable', filter_filter, h.tidy.cacheList]
    simp only [Bool.and_self]
  have hpersist : c'.persistList = [] := by
    rw [htidy'.persistList, htable', filter_filter]
    exact filter_eq_nil_iff.mpr fun e _ => by simp
  refine ⟨c', hc', htidy', ?_, ?_, hcache ▸ h.room, hcache ▸ h.aged, hcache ▸ h.past,
    hmtime'.trans h.hostsMtime, hcheck'.trans h.hostsChecktime⟩
  · rw [htable', map_record_ordinary, h.records]
    rfl
  · rw [hcount', h.count, hpersist]
    simp

theorem Accounted.loadHosts {hosts : List (DnsKey × HostName)} (h : Accounted p b c)
    (hcareful : LoadCareful p hosts b) :
    ∃ c', c.loadHosts p b.now hosts = some c' ∧ Accounted p (b.load p hosts) c' := by
  induction hosts generalizing b c with
  | nil => exact ⟨c, rfl, h⟩
  | cons host hosts ih =>
    obtain ⟨key, name⟩ := host
    have hstore : StoreCareful b.now true key b := ⟨nofun, hcareful.1.2⟩
    obtain ⟨c₁, hc₁, haccounted⟩ := h.store (Int.le_refl _) hstore (some name) true
    obtain ⟨c', hc', hload⟩ := ih haccounted hcareful.2
    refine ⟨c', ?_, hload⟩
    rw [Cache.loadHosts, hc₁]
    exact hc'

theorem Accounted.checkHosts (h : Accounted p b c) {file : Option HostsFile}
    (hcareful : CheckCareful p b.now file b) :
    ∃ c', c.checkHosts p b.now file = some c' ∧ Accounted p (b.check p b.now file) c' := by
  unfold Cache.checkHosts HostBook.check
  rw [h.hostsChecktime]
  by_cases htime : b.hostsChecktime = b.now
  · rw [if_pos htime, if_pos htime]
    exact ⟨c, rfl, h⟩
  · rw [if_neg htime, if_neg htime]
    have hchecked : Accounted p { b with hostsChecktime := b.now }
        { c with hostsChecktime := b.now } :=
      ⟨⟨h.tidy.1, h.tidy.2, h.tidy.3, h.tidy.4, h.tidy.5⟩, h.records, h.count, h.room, h.aged, h.past,
        h.hostsMtime, rfl⟩
    cases file with
    | none => exact hchecked.unload
    | some f =>
      dsimp only
      by_cases hnewer : c.hostsMtime = -1 ∨ f.mtime > c.hostsMtime
      · have hnewer' : b.hostsMtime = -1 ∨ f.mtime > b.hostsMtime := h.hostsMtime ▸ hnewer
        rw [if_pos hnewer, if_pos hnewer']
        have hversion : Accounted p { b with hostsChecktime := b.now, hostsMtime := f.mtime }
            { c with hostsChecktime := b.now, hostsMtime := f.mtime } :=
          ⟨⟨h.tidy.1, h.tidy.2, h.tidy.3, h.tidy.4, h.tidy.5⟩, h.records, h.count, h.room, h.aged,
            h.past, rfl, rfl⟩
        obtain ⟨c₁, hc₁, hunloaded⟩ := hversion.unload
        obtain ⟨c', hc', haccounted⟩ :=
          hunloaded.loadHosts (hcareful htime f rfl hnewer')
        refine ⟨c', ?_, haccounted⟩
        rw [hc₁]
        exact hc'
      · have hnewer' : ¬(b.hostsMtime = -1 ∨ f.mtime > b.hostsMtime) := h.hostsMtime ▸ hnewer
        rw [if_neg hnewer, if_neg hnewer']
        exact ⟨_, rfl, hchecked⟩

end

/-! ## Runs -/

section

variable {p : DnsParams}

theorem answer_record (now : Int) (e : DnsEntry) : Cache.answer p now e = e.record.answer p now := by
  unfold Cache.answer HostRecord.answer record
  by_cases hkept : e.resolved = 0
  · rw [if_neg (fun h => h.1 hkept), if_pos hkept]
  · have hold : (e.resolved ≠ 0 ∧ ((e.positive = true ∧ e.resolved < now - p.expire) ∨
        (e.positive = false ∧ e.resolved < now - p.expireFailed))) ↔
        ¬now - e.resolved ≤ if e.positive then p.expire else p.expireFailed := by
      cases e.positive with
      | true =>
        simp only [hkept, ne_eq, not_false_eq_true, true_and, Bool.true_eq_false, false_and, or_false,
          if_true]
        omega
      | false =>
        simp only [hkept, ne_eq, not_false_eq_true, true_and, Bool.false_eq_true, false_and, false_or,
          if_false]
        omega
    rw [if_neg hkept]
    by_cases hyoung : now - e.resolved ≤ if e.positive then p.expire else p.expireFailed
    · rw [if_neg fun h => hold.mp h hyoung]
      exact (if_pos hyoung).symm
    · rw [if_pos (hold.mpr hyoung)]
      exact (if_neg hyoung).symm

theorem Accounted.find {b : HostBook} {c : Cache} (h : Accounted p b c) (now : Int) (key : DnsKey) :
    (c.find key).bind (Cache.answer p now) =
      (b.records.find? (·.key = key)).bind (HostRecord.answer p now) := by
  rw [← h.records, find?_map, Cache.find]
  show _ = ((c.table.find? (·.key = key)).map record).bind _
  cases c.table.find? (·.key = key) with
  | none => rfl
  | some e => exact answer_record now e

theorem DnsCall.run_accounted {b : HostBook} {c : Cache} (h : Accounted p b c) (call : DnsCall)
    (hcareful : call.Careful p b) :
    ∃ c', call.run p c = some ((call.book p b).1, c') ∧ Accounted p (call.book p b).2 c' := by
  cases call with
  | store now persistent key hostname positive =>
    obtain ⟨c', hc', haccounted⟩ := h.store hcareful.1 hcareful.2 hostname positive
    refine ⟨c', ?_, haccounted⟩
    rw [DnsCall.run, hc']
    rfl
  | lookup now file key =>
    have hlater : Accounted p { b with now } c :=
      ⟨h.tidy, h.records, h.count, h.room, h.aged, fun e he => Int.le_trans (h.past e he) hcareful.1,
        h.hostsMtime, h.hostsChecktime⟩
    obtain ⟨c', hc', haccounted⟩ := hlater.checkHosts hcareful.2
    refine ⟨c', ?_, haccounted⟩
    rw [DnsCall.run, Cache.lookup, hc']
    simp only [Option.bind_eq_bind, Option.bind_some, Option.pure_def]
    rw [haccounted.find]
    rfl

theorem runCalls_accounted {calls : List DnsCall} {b : HostBook} {c : Cache} (h : Accounted p b c)
    (hcareful : CarefulRun p calls b) :
    ∃ c', runCalls p calls c = some ((bookCalls p calls b).1, c') ∧ Accounted p (bookCalls p calls b).2 c' := by
  induction calls generalizing b c with
  | nil => exact ⟨c, rfl, h⟩
  | cons call calls ih =>
    obtain ⟨c₁, hc₁, h₁⟩ := call.run_accounted h hcareful.1
    obtain ⟨c', hc', h'⟩ := ih h₁ hcareful.2
    refine ⟨c', ?_, h'⟩
    rw [runCalls, hc₁, Option.bind_eq_bind, Option.bind_some]
    dsimp only
    rw [hc']
    rfl

theorem Accounted.init (hsize : 0 ≤ p.cacheSize) (now : Int) : Accounted p (HostBook.init now) Cache.init :=
  ⟨⟨nodup_nil, nodup_nil, nofun, rfl, rfl⟩, rfl, rfl, hsize, List.Pairwise.nil, nofun, rfl, rfl⟩

end

/-- **The accounts of the cache are right** after any calls that store no address in its other kind. -/
theorem dnsCache_accounted (p : DnsParams) (start : Int) (calls : List DnsCall)
    (hsize : 0 ≤ p.cacheSize) (hcareful : CarefulRun p calls (HostBook.init start)) :
    ∃ c, runCalls p calls Cache.init = some ((bookCalls p calls (HostBook.init start)).1, c) ∧
      Accounted p (bookCalls p calls (HostBook.init start)).2 c :=
  runCalls_accounted (Accounted.init hsize start) hcareful

/-- Room for one ordinary entry. -/
def smallParams : DnsParams := ⟨1, 3600, 60, fun _ => 0, fun _ => (0, 0)⟩

/-- A name that is stored, and looked up later. -/
theorem dnsCache_accounted_two :
    ∃ c, runCalls smallParams [.store 5 false (.inet 1) (some [97]) true, .lookup 6 none (.inet 1)]
        Cache.init =
      some ((bookCalls smallParams [.store 5 false (.inet 1) (some [97]) true,
        .lookup 6 none (.inet 1)] (HostBook.init 5)).1, c) ∧
      Accounted smallParams (bookCalls smallParams [.store 5 false (.inet 1) (some [97]) true,
        .lookup 6 none (.inet 1)] (HostBook.init 5)).2 c :=
  dnsCache_accounted smallParams 5 [.store 5 false (.inet 1) (some [97]) true,
    .lookup 6 none (.inet 1)] (by decide)
    ⟨⟨by decide, fun _ => by decide, nofun⟩, ⟨by decide, fun _ => nofun⟩, trivial⟩

/-- **The counter is wrong** when the hosts file has an address that is cached already. -/
theorem dnsCache_kind_changed :
    ∃ c, runCalls smallParams [.store 5 false (.inet 1) (some [97]) true,
        .store 6 true (.inet 1) (some [98]) true] Cache.init = some ([none, none], c) ∧
      c.persistList.length = 1 ∧ c.persistentCount = 0 ∧ ∀ b, ¬Accounted smallParams b c := by
  refine ⟨⟨[⟨1, .inet 1, 0, some [98], true⟩], [], [⟨1, .inet 1, 0, some [98], true⟩], 0, -1, 0, 2⟩,
    rfl, rfl, rfl, fun b h => ?_⟩
  have hcount := h.count
  revert hcount
  decide

end SyslogNg.DnsCache
