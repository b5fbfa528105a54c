import Mathlib.Data.List.Basic

/-!
# The DNS cache (`lib/dnscache.c`)

The cache of a thread: a hash table of entries, each of them linked in one of two lists. An entry is told
apart from the others by its `serial`, which stands for its address. The lists are those between
`cache_first` and `cache_last`, and between `persist_first` and `persist_last`; an entry that is freed is
taken out of the list that it is in. An operation that runs into an assertion, or does not return, has no
result.
-/

namespace SyslogNg.DnsCache

/-- `DNSCacheKey`. -/
inductive DnsKey where
  | inet (addr : UInt32)
  | inet6 (high low : UInt64)
  deriving DecidableEq

abbrev HostName := List UInt8

structure DnsEntry where
  serial : Nat
  key : DnsKey
  resolved : Int
  hostname : Option HostName
  positive : Bool
  deriving DecidableEq

/-- The parameters of `dns_cache_set_params`, and what `inet_pton` leaves in its destination. -/
structure DnsParams where
  cacheSize : Int
  expire : Int
  expireFailed : Int
  inetPton : List UInt8 → UInt32
  inetPton6 : List UInt8 → UInt64 × UInt64

/-- A hosts file: its lines as `fgets` reads them, if it can be opened. -/
structure HostsFile where
  mtime : Int
  lines : Option (List (List UInt8))

structure Cache where
  table : List DnsEntry
  cacheList : List DnsEntry
  persistList : List DnsEntry
  persistentCount : Int
  hostsMtime : Int
  hostsChecktime : Int
  nextSerial : Nat
  deriving DecidableEq

/-- `dns_cache_init`. -/
def Cache.init : Cache := ⟨[], [], [], 0, -1, 0, 0⟩

/-- The entries of other addresses. -/
def others (key : DnsKey) (entries : List DnsEntry) : List DnsEntry := entries.filter (·.key ≠ key)

namespace Cache

/-- `g_hash_table_lookup`. -/
def find (c : Cache) (key : DnsKey) : Option DnsEntry := c.table.find? (·.key = key)

def entryFree (c : Cache) (e : DnsEntry) : Cache :=
  { c with
    cacheList := c.cacheList.filter (·.serial ≠ e.serial)
    persistList := c.persistList.filter (·.serial ≠ e.serial) }

/-- `g_hash_table_remove`. -/
def remove (c : Cache) (key : DnsKey) : Cache :=
  match c.find key with
  | none => c
  | some e => { c with table := others key c.table }.entryFree e

/-- `g_hash_table_replace`. -/
def replace (c : Cache) (e : DnsEntry) : Cache :=
  match c.find e.key with
  | none => { c with table := c.table ++ [e] }
  | some old => { c with table := others e.key c.table ++ [e] }.entryFree old

/-- `dns_cache_entry_insert_before`, before the end of one of the lists. -/
def link (c : Cache) (persistent : Bool) (e : DnsEntry) : Cache :=
  if persistent then { c with persistList := c.persistList ++ [e], nextSerial := e.serial + 1 }
  else { c with cacheList := c.cacheList ++ [e], nextSerial := e.serial + 1 }

/-- The oldest element is removed. The key behind an empty list is that of `cache_last`, which has no
family: `dns_cache_key_hash` does not take it. -/
def removeOldest (c : Cache) : Option Cache :=
  match c.cacheList with
  | [] => none
  | first :: _ => some (c.remove first.key)

/-- `dns_cache_store`. -/
def store (p : DnsParams) (now : Int) (persistent : Bool) (key : DnsKey) (hostname : Option HostName)
    (positive : Bool) (c : Cache) : Option Cache :=
  let e : DnsEntry := ⟨c.nextSerial, key, if persistent then 0 else now, hostname, positive⟩
  let c := c.link persistent e
  let hashSize := c.table.length
  let c := c.replace e
  let c := if persistent ∧ hashSize ≠ c.table.length then
      { c with persistentCount := c.persistentCount + 1 }
    else c
  if (c.table.length : Int) - c.persistentCount > p.cacheSize then c.removeOldest else some c

/-- The loop of `dns_cache_cleanup_persistent_hosts`: every round that does not go on forever unlinks an
entry, so that there are not more of them than entries. -/
def cleanupLoop : Nat → Cache → Option Cache
  | rounds, c =>
    match c.persistList, rounds with
    | [], _ => some c
    | _ :: _, 0 => none
    | e :: _, rounds + 1 =>
      let c := c.remove e.key
      cleanupLoop rounds { c with persistentCount := c.persistentCount - 1 }

def cleanupPersistentHosts (c : Cache) : Option Cache := cleanupLoop c.persistList.length c

end Cache

/-! ## The hosts file -/

/-- The words of a line between blanks and tabs: what `strtok` gives. -/
def strtok (line : List UInt8) : List (List UInt8) :=
  (line.splitOnP fun b => b == 32 || b == 9).filter (· ≠ [])

def hostsLine (p : DnsParams) (line : List UInt8) : Option (DnsKey × HostName) :=
  if line = [] ∨ line.head? = some 10 ∨ line.head? = some 35 then none
  else
    let line := if line.getLast? = some 10 then line.dropLast else line
    match strtok line with
    | ip :: name :: _ =>
      let key := if 58 ∈ ip then .inet6 (p.inetPton6 ip).1 (p.inetPton6 ip).2
        else .inet (p.inetPton ip)
      some (key, name)
    | _ => none

def HostsFile.hosts (p : DnsParams) (f : HostsFile) : List (DnsKey × HostName) :=
  (f.lines.getD []).filterMap (hostsLine p)

namespace Cache

/-- The lines of a hosts file are stored one by one. -/
def loadHosts (p : DnsParams) (now : Int) : List (DnsKey × HostName) → Cache → Option Cache
  | [], c => some c
  | (key, name) :: hosts, c => do
    let c ← c.store p now true key (some name) true
    loadHosts p now hosts c

/-- `dns_cache_check_hosts`; there is no file if `stat` fails or none is configured. -/
def checkHosts (p : DnsParams) (t : Int) (file : Option HostsFile) (c : Cache) : Option Cache :=
  if c.hostsChecktime = t then some c
  else
    let c := { c with hostsChecktime := t }
    match file with
    | none => c.cleanupPersistentHosts
    | some f =>
      if c.hostsMtime = -1 ∨ f.mtime > c.hostsMtime then do
        let c ← { c with hostsMtime := f.mtime }.cleanupPersistentHosts
        c.loadHosts p t (f.hosts p)
      else some c

/-- What a lookup returns from an entry. -/
def answer (p : DnsParams) (now : Int) (e : DnsEntry) : Option (Option HostName × Bool) :=
  if e.resolved ≠ 0 ∧ ((e.positive = true ∧ e.resolved < now - p.expire) ∨
      (e.positive = false ∧ e.resolved < now - p.expireFailed)) then none
  else some (e.hostname, e.positive)

/-- `dns_cache_lookup`. -/
def lookup (p : DnsParams) (now : Int) (file : Option HostsFile) (key : DnsKey) (c : Cache) :
    Option (Option (Option HostName × Bool) × Cache) := do
  let c ← c.checkHosts p now file
  return ((c.find key).bind (answer p now), c)

end Cache

/-! ## Calls -/

/-- A call of one of the two functions, at some time. -/
inductive DnsCall where
  | store (now : Int) (persistent : Bool) (key : DnsKey) (hostname : Option HostName) (positive : Bool)
  | lookup (now : Int) (file : Option HostsFile) (key : DnsKey)

/-- The answer of a lookup: the name and whether it is one, if the cache has the address. -/
abbrev DnsAnswer := Option (Option (Option HostName × Bool))

def DnsCall.run (p : DnsParams) (c : Cache) : DnsCall → Option (DnsAnswer × Cache)
  | store now persistent key hostname positive => do
    let c ← c.store p now persistent key hostname positive
    return (none, c)
  | lookup now file key => do
    let (answer, c) ← c.lookup p now file key
    return (some answer, c)

def runCalls (p : DnsParams) : List DnsCall → Cache → Option (List DnsAnswer × Cache)
  | [], c => some ([], c)
  | call :: calls, c => do
    let (answer, c) ← call.run p c
    let (answers, c) ← runCalls p calls c
    return (answer :: answers, c)

end SyslogNg.DnsCache
