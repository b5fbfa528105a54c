import SyslogNg.Filter.Matcher
import Mathlib.Data.List.TakeWhile

/-!
# Host names of senders (`lib/misc.c`, `lib/logsource.c`)

Host names are C strings, as lists without the `NUL`. `none` is a copy that leaves its buffer.
-/

namespace SyslogNg.DnsCache

open List Filter

/-- What a sender is known by: the name that was found for its address, the address itself, or the names of
this host. -/
inductive Sender where
  | found (hname : List UInt8) (positive : Bool)
  | address (text : List UInt8)
  | here (fqdn short : List UInt8)

namespace Sender

/-- `hname` when it is copied: a positive match was cut at its first dot, in `buf[256]`. -/
def hname (usefqdn : Bool) : Sender → Option (List UInt8)
  | found hname positive =>
    if !usefqdn && positive && hname.contains 46 then
      let p := (hname.takeWhile (· ≠ 46)).length
      let p := if p > 256 then 255 else p
      -- the `NUL` is stored at `buf[p]`
      if p < 256 then some (hname.take p) else none
    else some hname
  | address text => some text
  | here fqdn short => some (if usefqdn then fqdn else short)

def cut (usefqdn : Bool) : Sender → Bool
  | found hname positive => !usefqdn && positive && hname.contains 46
  | _ => false

/-- The name of a sender, of any length. -/
def name (usefqdn : Bool) : Sender → List UInt8
  | found hname positive => if !usefqdn && positive then hname.takeWhile (· ≠ 46) else hname
  | address text => text
  | here fqdn short => if usefqdn then fqdn else short

/-- What a result of `resultLen` bytes should hold before its `NUL`. -/
def shown (usefqdn normalize : Bool) (resultLen : Nat) (s : Sender) : List UInt8 :=
  let name := (s.name usefqdn).take (resultLen - 1)
  if normalize then name.map toLower else name

/-- The length of the name is none that a truncation gets wrong. -/
def Fits (usefqdn normalize : Bool) (resultLen : Nat) (s : Sender) : Prop :=
  let n := (s.name usefqdn).length
  (s.cut usefqdn → n ≠ 256 ∧ (256 < n → resultLen ≤ 256)) ∧
    if normalize then min n (resultLen - 1) < 2 ^ 31
    else
      let n := if s.cut usefqdn then min n 255 else n
      n ≠ resultLen ∧ n ≠ resultLen + 1 ∧ (n = 0 → resultLen = 1)

theorem hname_eq (usefqdn : Bool) (s : Sender) :
    s.hname usefqdn = if s.cut usefqdn ∧ (s.name usefqdn).length = 256 then none
      else some (if s.cut usefqdn then (s.name usefqdn).take 255 else s.name usefqdn) := by
  cases s with
  | address text => simp [hname, cut, name]
  | here fqdn short => simp [hname, cut, name]
  | found hname positive =>
    simp only [Sender.hname, cut, name]
    by_cases hcut : (!usefqdn && positive && hname.contains 46) = true
    · have hreal : (!usefqdn && positive) = true := (Bool.and_eq_true_iff.mp hcut).1
      have hlabel := prefix_iff_eq_take.mp ( takeWhile_prefix (l := hname) (· ≠ (46 : UInt8)))
      simp only [if_pos hcut, if_pos hreal, hcut, true_and]
      set label := takeWhile (· ≠ 46) hname
      have htake (k : Nat) (hk : k ≤ label.length) : hname.take k = label.take k := by
        rw [hlabel, take_take, Nat.min_eq_left hk]
      rcases lt_trichotomy label.length 256 with h | h | h
      · simp [h, h.ne, h.not_gt, htake, take_of_length_le (Nat.le_of_lt_succ h)]
      · simp [h]
      · simp [h, h.ne', htake 255 (by omega)]
    · have hall (h : (!usefqdn && positive) = true) : hname.takeWhile (· ≠ 46) = hname := by
        refine takeWhile_eq_self_iff.mpr fun c hc => decide_eq_true fun h46 => hcut ?_
        rw [h, Bool.true_and, contains_iff_mem, ← h46]
        exact hc
      have hname' : (if (!usefqdn && positive) = true then hname.takeWhile (· ≠ 46) else hname) = hname := by
        split
        · next h => exact hall h
        · rfl
      simp only [hname', hcut, false_and, if_false]
      rfl

end Sender

/-- The loop of the normalizing branch; `i` is an `int`. -/
def normalizeLoop (resultLen : Nat) : List UInt8 → (i : Nat) → Option (List UInt8)
  | [], _ => some []
  | c :: hname, i =>
    if i < resultLen - 1 then
      if i + 1 < 2 ^ 31 then (normalizeLoop resultLen hname (i + 1)).map (toLower c :: ·) else none
    else some []

/-- The plain branch; nothing behind the `NUL` of the name is known. -/
def copyHostname (resultLen : Nat) (hname : List UInt8) : Option (List UInt8) :=
  -- one less than the length of an empty name is the largest `gsize`
  let len := if hname = [] ∨ resultLen < hname.length - 1 then resultLen - 1 else hname.length
  if len ≤ hname.length + 1 ∧ len < resultLen then some ((hname ++ [0]).take len) else none

/-- `resolve_sockaddr`: the bytes before the `NUL` of the result. -/
def resolveSockaddr (usefqdn normalize : Bool) (resultLen : Nat) (sender : Sender) : Option (List UInt8) :=
  (sender.hname usefqdn).bind fun hname =>
    if normalize then normalizeLoop resultLen hname 0 else copyHostname resultLen hname

theorem normalizeLoop_eq (room : Nat) (hname : List UInt8) (i : Nat) (hi : i < 2 ^ 31) :
    normalizeLoop (room + 1) hname i = if i + min hname.length (room - i) < 2 ^ 31 then
      some ((hname.take (room - i)).map toLower) else none := by
  induction hname generalizing i with
  | nil => simpa [normalizeLoop] using hi
  | cons c hname ih =>
    unfold normalizeLoop
    by_cases hroom : i < room
    · rw [if_pos (by omega)]
      by_cases hnext : i + 1 < 2 ^ 31
      · have hmin : i + 1 + min hname.length (room - (i + 1)) = i + min (c :: hname).length (room - i) := by
          simp only [length_cons]
          omega
        rw [if_pos hnext, ih _ hnext, hmin, show room - i = room - (i + 1) + 1 by omega]
        split <;> simp
      · rw [if_neg hnext, if_neg (by simp only [length_cons]; omega)]
    · have hend : room - i = 0 := by omega
      simpa [hend, hroom] using hi

theorem copyHostname_iff (room : Nat) (hname : List UInt8) :
    copyHostname (room + 1) hname = some (hname.take room) ↔
      hname.length ≠ room + 1 ∧ hname.length ≠ room + 2 ∧ (hname.length = 0 → room = 0) := by
  unfold copyHostname
  cases hname with
  | nil => cases room <;> simp
  | cons c rest =>
    simp only [length_cons, reduceCtorEq, false_or, Nat.add_one_ne_zero, false_implies, and_true]
    rw [Nat.add_sub_cancel, Nat.add_sub_cancel]
    by_cases hlong : room + 1 < rest.length
    · have htake : (c :: rest ++ [0]).take room = (c :: rest).take room :=
        take_append_of_le_length (by simp only [length_cons]; omega)
      simp only [if_pos hlong, htake]
      rw [if_pos (by omega)]
      simp only [true_iff]
      omega
    · simp only [if_neg hlong]
      by_cases hfits : rest.length + 1 ≤ room
      · have htake : (c :: rest ++ [0]).take (rest.length + 1) = (c :: rest).take room := by
          rw [take_left' (by simp), take_of_length_le (by simpa using hfits)]
        rw [if_pos (by omega), htake]
        simp only [true_iff]
        omega
      · rw [if_neg (by omega)]
        simp only [reduceCtorEq, false_iff]
        omega

/-- A name is cut to the room of the result, within all buffers, exactly if its length is not one of those
that the truncations miss. -/
theorem resolve_sockaddr_bounded_iff (usefqdn normalize : Bool) (room : Nat) (sender : Sender) :
    resolveSockaddr usefqdn normalize (room + 1) sender =
        some (sender.shown usefqdn normalize (room + 1)) ↔
      sender.Fits usefqdn normalize (room + 1) := by
  have hcopy (hname : List UInt8) :
      (if normalize then normalizeLoop (room + 1) hname 0 else copyHostname (room + 1) hname) =
          some (if normalize then (hname.take room).map toLower else hname.take room) ↔
        if normalize then min hname.length room < 2 ^ 31
        else hname.length ≠ room + 1 ∧ hname.length ≠ room + 2 ∧ (hname.length = 0 → room = 0) := by
    cases normalize with
    | true =>
      simp only [if_true, normalizeLoop_eq room hname 0 (by decide), Nat.zero_add, Nat.sub_zero]
      split <;> simp_all
    | false => simpa using copyHostname_iff room hname
  simp only [resolveSockaddr, Sender.hname_eq, Sender.Fits, Sender.shown, Nat.add_sub_cancel]
  by_cases hcut : sender.cut usefqdn = true
  · simp only [hcut, true_and, if_true, forall_const]
    set name := sender.name usefqdn
    by_cases h256 : name.length = 256
    · simp [h256]
    · rw [if_neg h256, Option.bind_some]
      by_cases hshort : name.length ≤ 256 ∨ room ≤ 255
      · have htake : (name.take 255).take room = name.take room := by
          rw [take_take, take_eq_take_iff]
          omega
        rw [← htake, hcopy, length_take]
        cases normalize with
        | true => simp only [if_true]; omega
        | false => simp only [Bool.false_eq_true, if_false]; omega
      · have hlen : (name.take 255).length = 255 := by rw [length_take]; omega
        rw [(hcopy (name.take 255)).mpr (by rw [hlen]; split <;> omega)]
        refine ⟨fun h => ?_, fun h => by omega⟩
        have hlen' := congrArg (Option.map length) h
        cases normalize <;> simp at hlen' <;> omega
  · simp only [hcut, false_and, if_false, Option.bind_some, hcopy, Bool.false_eq_true, false_implies, true_and,
      Nat.add_eq_right]

/-- A name of the length of its result: the `NUL` is stored behind it. -/
theorem resolve_sockaddr_overruns :
    ∃ (usefqdn normalize : Bool) (room : Nat) (sender : Sender),
      resolveSockaddr usefqdn normalize (room + 1) sender ≠
        some (sender.shown usefqdn normalize (room + 1)) :=
  ⟨true, false, 255, .found (replicate 256 97) true, by decide +kernel⟩

/-! ## Chained host names -/

structure HostOptions where
  keepHostname : Bool
  chainHostnames : Bool
  groupName : List UInt8

/-- The host names of a message, and the flags about them. -/
structure MsgHosts where
  host : List UInt8
  hostFrom : List UInt8
  isLocal : Bool
  chained : Bool
  deriving DecidableEq

/-- The text of the chain, of any length; `%s` ends at a `NUL`. -/
def chainText (o : HostOptions) (resolved : List UInt8) (m : MsgHosts) : List UInt8 :=
  let orig := m.host.takeWhile (· ≠ 0)
  if m.isLocal then o.groupName ++ 64 :: resolved
  else if orig = [] then resolved ++ 47 :: resolved
  else orig ++ 47 :: resolved

/-- `log_msg_set_value` with `len` bytes of a buffer, of which `stored` is written. -/
def valueOf (stored : List UInt8) (len : Nat) : Option (List UInt8) :=
  if len ≤ stored.length then some (stored.take len) else none

def keeps (o : HostOptions) (m : MsgHosts) : Bool := o.keepHostname && m.host.headD 0 ≠ 0

/-- `log_source_mangle_hostname`, for the name that was resolved. -/
def mangleHostname (o : HostOptions) (resolved : List UInt8) (m : MsgHosts) : Option MsgHosts :=
  let m := { m with hostFrom := resolved }
  if keeps o m then some m
  else if o.chainHostnames then
    let text := chainText o resolved m
    -- `g_snprintf` cuts the text to `host[256]` and returns its whole length
    (valueOf (text.take 255 ++ [0]) text.length).map fun host => { m with host, chained := true }
  else some { m with host := resolved }

/-- What the host names should become. -/
def mangled (o : HostOptions) (resolved : List UInt8) (m : MsgHosts) : MsgHosts :=
  let m := { m with hostFrom := resolved }
  if keeps o m then m
  else if o.chainHostnames then { m with host := (chainText o resolved m).take 255, chained := true }
  else { m with host := resolved }

theorem valueOf_eq_take_iff (text : List UInt8) :
    valueOf (text.take 255 ++ [0]) text.length = some (text.take 255) ↔ text.length ≤ 255 := by
  unfold valueOf
  by_cases hle : text.length ≤ 255
  · simp [hle, take_of_length_le]
  · -- the value has a byte more than it should, or there is none
    refine iff_of_false (fun h => ?_) hle
    split at h
    · have hlen := congrArg (Option.map length) h
      simp at hlen
      omega
    · cases h

/-- The host name is the one it should be exactly if no chain is longer than the buffer. -/
theorem mangle_hostname_iff (o : HostOptions) (resolved : List UInt8) (m : MsgHosts) :
    mangleHostname o resolved m = some (mangled o resolved m) ↔
      keeps o m ∨ o.chainHostnames = false ∨ (chainText o resolved m).length ≤ 255 := by
  rw [← valueOf_eq_take_iff]
  have hkeeps : keeps o { m with hostFrom := resolved } = keeps o m := rfl
  have htext : chainText o resolved { m with hostFrom := resolved } = chainText o resolved m := rfl
  simp only [mangleHostname, mangled, hkeeps, htext]
  cases keeps o m with
  | true => simp
  | false =>
    cases o.chainHostnames with
    | true => simp [Option.map_eq_some_iff]
    | false => simp

theorem mangle_hostname_overreads :
    ∃ (o : HostOptions) (resolved : List UInt8) (m : MsgHosts),
      resolved.length ≤ 255 ∧ mangleHostname o resolved m ≠ some (mangled o resolved m) :=
  ⟨⟨false, true, []⟩, [98], ⟨replicate 255 97, [], false, false⟩, by decide +kernel⟩

end SyslogNg.DnsCache
