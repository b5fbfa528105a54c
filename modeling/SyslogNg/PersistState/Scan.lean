import SyslogNg.PersistState.Load

/-!
# What a committed file holds

`loadV4Loop` reads a file and fills the new store in one loop. `scanV4` is what it reads: the values
in use, and how the reading ends (`loadV4Loop_eq`).
-/

namespace SyslogNg.PersistState

open Lib

/-- A value of a file; `bytes` is `none` where it goes on behind the file. -/
structure LoadedValue where
  key : List UInt8
  size : Nat
  version : Nat
  bytes : Option (List UInt8)

inductive ScanEnd where
  | stopped
  | outside
  | rounds
  deriving DecidableEq

structure Scan where
  values : List LoadedValue
  ending : ScanEnd

/-- The values are loaded one after the other. -/
def loadValues (env : PersistEnv) : PersistState → List LoadedValue → Except LoadFault PersistState
  | self, [] => .ok self
  | self, v :: values => do
    let self ← loadValue env self v.key v.size v.version v.bytes
    loadValues env self values

def Scan.load (env : PersistEnv) (self : PersistState) (scan : Scan) : Except LoadFault PersistState := do
  let self ← loadValues env self scan.values
  match scan.ending with
  | .stopped => return self
  | .outside => throw .outside
  | .rounds => throw .rounds

/-- The value is in front of those that the rest of the file holds. -/
def Scan.cons (value : Option LoadedValue) (scan : Scan) : Scan :=
  { scan with values := value.toList ++ scan.values }

def usedValue (file : PersistFile) (name : List UInt8) (entryOfs : Nat) (header : List UInt8) :
    Option LoadedValue :=
  let size := ofBe32 (header.take 4)
  if header.getD 4 0 ≠ 0 then
    some ⟨name, size, (header.getD 5 0).toNat, file.fetch entryOfs size⟩
  else none

def scanV4 (file : PersistFile) (keyCount : Nat) :
    (rounds : Nat) → SerializeBufferArchive → (i : Nat) → Scan
  | 0, _, _ => ⟨[], .rounds⟩
  | rounds + 1, sa, i =>
    if keyCount ≤ i then ⟨[], .stopped⟩
    else
      match serializeReadCstring file.fetch sa with
      | none => ⟨[], .outside⟩
      | some (sa, name) =>
        match name.map cString with
        | none => ⟨[], .stopped⟩
        | some [] =>
          match serializeReadUint32 file.fetch sa with
          | none => ⟨[], .outside⟩
          | some (_, none) => ⟨[], .stopped⟩
          | some (_, some chainOfs) =>
            if chainOfs = 0 ∨ chainOfs > file.size then ⟨[], .stopped⟩
            else if chainOfs < valueHeaderSize then ⟨[], .outside⟩
            else
              match file.fetch (chainOfs - valueHeaderSize) 4 with
              | none => ⟨[], .outside⟩
              | some keySize =>
                if (chainOfs + ofBe32 keySize) % 2 ^ 32 > file.size then ⟨[], .stopped⟩
                else scanV4 file keyCount rounds ⟨chainOfs, ofBe32 keySize, 0, false⟩ i
        | some (c :: cs) =>
          match serializeReadUint32 file.fetch sa with
          | none => ⟨[], .outside⟩
          | some (_, none) => ⟨[], .stopped⟩
          | some (sa, some entryOfs) =>
            if entryOfs < headerSize ∨ entryOfs > file.size then ⟨[], .stopped⟩
            else
              match file.fetch (entryOfs - valueHeaderSize) 6 with
              | none => ⟨[], .outside⟩
              | some header =>
                (scanV4 file keyCount rounds sa (i + 1)).cons (usedValue file (c :: cs) entryOfs header)

def scanV23 (file : PersistFile) (version : Nat) : (rounds : Nat) → SerializeBufferArchive → Scan
  | 0, _ => ⟨[], .rounds⟩
  | rounds + 1, sa =>
    match serializeReadCstring file.fetch sa with
    | none => ⟨[], .outside⟩
    | some (sa, key) =>
      match key.map cString with
      | none | some [] => ⟨[], .stopped⟩
      | some (c :: cs) =>
        match serializeReadCstring file.fetch sa with
        | none => ⟨[], .outside⟩
        | some (_, none) => ⟨[], .stopped⟩
        | some (sa, some value) => (scanV23 file version rounds sa).cons
            (some ⟨c :: cs, value.length + 4, version, some (be32 value.length ++ value)⟩)

/-- The values of a file that starts with `SLP` and its version. -/
def scanFile (file : PersistFile) (rounds : Nat) : Scan :=
  let magic := file.bytes.read 0 4
  if magic.take 3 ≠ [83, 76, 80] then ⟨[], .stopped⟩
  else if magic.getD 3 0 = 50 then scanV23 file 2 rounds ⟨0, file.size, 4, false⟩
  else if magic.getD 3 0 = 51 then scanV23 file 3 rounds ⟨0, file.size, 4, false⟩
  else if magic.getD 3 0 = 52 then
    let count := file.bytes.word keyCountOfs
    scanV4 file (if count < 2 ^ 31 then count else 0) rounds ⟨initialKeyStore, initialKeySize, 0, false⟩ 0
  else ⟨[], .stopped⟩

section

variable {env : PersistEnv} {file : PersistFile} {keyCount : Nat}

theorem bind_ok {A B : Type} {x : Except LoadFault A} {f : A → Except LoadFault B} {b : B}
    (h : x >>= f = .ok b) : ∃ a, x = .ok a ∧ f a = .ok b := by
  cases x with
  | error fault => cases h
  | ok a => exact ⟨a, rfl, h⟩

theorem orFault_ok {A : Type} {fault : LoadFault} {x : Option A} {a : A} (h : orFault fault x = .ok a) :
    x = some a := by
  cases x with
  | none => cases h
  | some b =>
    cases h
    rfl

theorem loadEntry_eq (self : PersistState) (name : List UInt8) (entryOfs : Nat) (header : List UInt8)
    (scan : Scan) : (loadEntry env file self name entryOfs header >>= fun self => scan.load env self) =
      (scan.cons (usedValue file name entryOfs header)).load env self := by
  unfold loadEntry usedValue Scan.cons Scan.load
  dsimp only
  split
  · simp only [Option.toList_some, List.singleton_append, loadValues, bind_assoc]
  · simp only [Option.toList_none, List.nil_append]
    rfl

/-- **The loop of `persist_state_load_v4`** reads, and loads what it reads. -/
theorem loadV4Loop_eq (rounds : Nat) (self : PersistState) (sa : SerializeBufferArchive) (i : Nat) :
    loadV4Loop env file keyCount rounds self sa i = (scanV4 file keyCount rounds sa i).load env self := by
  induction rounds generalizing self sa i with
  | zero => rfl
  | succ rounds ih =>
    rw [loadV4Loop, scanV4]
    by_cases hi : keyCount ≤ i
    · rw [if_pos hi, if_pos hi]
      rfl
    rw [if_neg hi, if_neg hi]
    cases hname : serializeReadCstring file.fetch sa with
    | none => rfl
    | some r =>
      obtain ⟨sa1, name⟩ := r
      simp only [orFault, bind, Except.bind]
      cases hkey : name.map cString with
      | none => rfl
      | some key =>
        cases hword : serializeReadUint32 file.fetch sa1 with
        | none => cases key <;> rfl
        | some r =>
          obtain ⟨sa2, word⟩ := r
          cases key with
          | nil =>
            cases word with
            | none => rfl
            | some chainOfs =>
              dsimp only
              split
              · rfl
              split
              · rfl
              cases file.fetch (chainOfs - valueHeaderSize) 4 with
              | none => rfl
              | some keySize =>
                dsimp only
                split
                · rfl
                · exact ih ..
          | cons c cs =>
            cases word with
            | none => rfl
            | some entryOfs =>
              dsimp only
              split
              · rfl
              cases file.fetch (entryOfs - valueHeaderSize) 6 with
              | none => rfl
              | some header =>
                dsimp only
                rw [← loadEntry_eq]
                simp only [← ih]
                rfl

theorem loadV23Loop_eq (version rounds : Nat) (self : PersistState) (sa : SerializeBufferArchive) :
    loadV23Loop env file version rounds self sa = (scanV23 file version rounds sa).load env self := by
  induction rounds generalizing self sa with
  | zero => rfl
  | succ rounds ih =>
    rw [loadV23Loop, scanV23]
    cases hkey : serializeReadCstring file.fetch sa with
    | none => rfl
    | some r =>
      obtain ⟨sa1, key⟩ := r
      simp only [orFault, bind, Except.bind]
      cases hname : key.map cString with
      | none => rfl
      | some name =>
        cases name with
        | nil => rfl
        | cons c cs =>
          dsimp only
          cases hvalue : serializeReadCstring file.fetch sa1 with
          | none => rfl
          | some r =>
            obtain ⟨sa2, value⟩ := r
            cases value with
            | none => rfl
            | some value =>
              simp only [ih]
              unfold Scan.cons Scan.load
              simp only [Option.toList_some, List.singleton_append, loadValues, bind, Except.bind]
              cases loadValue env self (c :: cs) (value.length + 4) version
                (some (be32 value.length ++ value)) <;> rfl

theorem ok_of_pair {x : Except LoadFault PersistState} {s' : PersistState} {b : Bool}
    (h : (do let self ← x; return (self, true)) = Except.ok (s', b)) : x = .ok s' ∧ b = true := by
  cases x with
  | error fault => cases h
  | ok self =>
    cases h
    exact ⟨rfl, rfl⟩

theorem persistStateLoad_eq {rounds : Nat} {self s' : PersistState}
    (h : persistStateLoad env (some file) rounds self = .ok (s', true)) :
    (scanFile file rounds).load env self = .ok s' := by
  unfold persistStateLoad at h
  dsimp only at h
  cases hmagic : file.fetch 0 4 with
  | none =>
    rw [hmagic] at h
    cases h
  | some magic =>
    have heq : magic = file.bytes.read 0 4 := by
      unfold PersistFile.fetch at hmagic
      split at hmagic
      · cases hmagic
        rfl
      · cases hmagic
    rw [hmagic] at h
    subst heq
    unfold scanFile
    simp only [orFault, bind, Except.bind] at h
    dsimp only
    split at h
    · rename_i hno
      cases h
      rw [if_pos hno]
      rfl
    rename_i hslp
    rw [if_neg hslp]
    split at h
    · rename_i h2
      rw [if_pos h2, ← loadV23Loop_eq]
      exact (ok_of_pair h).1
    rename_i h2
    rw [if_neg h2]
    split at h
    · rename_i h3
      rw [if_pos h3, ← loadV23Loop_eq]
      exact (ok_of_pair h).1
    rename_i h3
    rw [if_neg h3]
    split at h
    · rename_i h4
      rw [if_pos h4, ← loadV4Loop_eq]
      unfold persistStateLoadV4 at h
      split at h
      · cases h
      cases hcount : file.fetch keyCountOfs 4 with
      | none =>
        rw [hcount] at h
        cases h
      | some count =>
        have heq : count = file.bytes.read keyCountOfs 4 := by
          unfold PersistFile.fetch at hcount
          split at hcount
          · cases hcount
            rfl
          · cases hcount
        rw [hcount] at h
        subst heq
        exact (ok_of_pair h).1
    · rename_i h4
      cases h
      rw [if_neg h4]
      rfl

end

end SyslogNg.PersistState
