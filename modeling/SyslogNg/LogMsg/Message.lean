import SyslogNg.NameValue.NVTable

/-!
# Log messages and their clones (`lib/logmsg.c`, `lib/logmsg.h`)

The messages of a heap are named by their position, and so are the payloads and the arrays that
they share: `log_msg_clone_cow` copies the pointers. A block that grows keeps its name. The payload
is a parameter, with the operations that the messages use; `nvTableOps` is the table of
`lib/nvtable.c`.

An operation gives `none` where the code aborts in an assertion, or goes through a `NULL` pointer.
Members that only hold the memory together (`num_nodes`, `cur_node`, `alloc_sdata`, the sender's
address) are left out, and so is the reference half of `ack_and_ref`.
-/

namespace SyslogNg.LogMsg

open NameValue

/-- `self->payload` as `log_msg_set_value` uses it: the table that the loop around
`nv_table_add_value` leaves, and `new_entry`. -/
structure PayloadOps (P : Type) where
  addValue : P → (handle : Nat) → (name value : List UInt8) → Option (P × Bool)
  addValueIndirect : P → (handle : Nat) → (name : List UInt8) →
    (refHandle type ofs len : Nat) → Option (P × Bool)
  clone : P → (additionalSpace : Nat) → Option P

/-- The loop that adds a value and reallocates the table while there is no room for it. The size
doubles in every round but for a first one that makes a copy. -/
def addLoop (add : NVTable → Option AddResult) : Nat → NVTable → Option (NVTable × Bool)
  | 0, _ => none
  | rounds + 1, table => (add table).bind fun r =>
    if r.ok then some (r.table, r.newEntry)
    else r.table.realloc.bind fun (grown, table) =>
      if grown then addLoop add rounds table else some (table, r.newEntry)

def nvTableOps : PayloadOps NVTable where
  addValue table handle name value := addLoop (·.addValue handle name value true) 64 table
  addValueIndirect table handle name refHandle type ofs len :=
    addLoop (·.addValueIndirect handle name refHandle type ofs len true) 64 table
  clone table additionalSpace := table.clone additionalSpace

/-- What the messages use of the registry. -/
structure LogMsgRegistry where
  name : Nat → List UInt8
  /-- `LM_VF_SDATA`. -/
  isSdata : Nat → Bool

structure LogStamp where
  tvSec : Int
  tvUsec : Int
  zoneOffset : Int
  deriving DecidableEq

/-- `tags` and `num_tags`: where `num_tags` is 0 the pointer is itself the word of tags, otherwise
`last` is the number of its last word. -/
inductive LogTags where
  | word (tags : BitVec 64)
  | array (tags : Nat) (last : Nat)
  deriving DecidableEq

inductive LMAckFunc where
  | logSourceMsgAck
  | logMsgCloneAck
  deriving DecidableEq

structure LogMessage where
  /-- The upper half of `ack_and_ref`. -/
  ack : Nat
  ackFunc : Option LMAckFunc
  original : Option Nat
  stamp : LogStamp
  recvd : LogStamp
  tags : LogTags
  sdata : Option Nat
  payload : Nat
  flags : BitVec 32
  pri : UInt16
  initialParse : Bool
  numMatches : Nat
  numSdata : Nat
  protectCnt : Nat
  deriving DecidableEq

/-- `nodes` are the messages of the queue nodes, `guards` those that a `log_multiplexer_queue` on
the stack has write protected. -/
structure LogHeap (P : Type) where
  msgs : List LogMessage
  payloads : List P
  tagArrays : List (List (BitVec 64))
  sdataArrays : List (List Nat)
  nodes : List Nat
  guards : List Nat

def lmVNone : Nat := 0
def lmVProgram : Nat := 4
def lmVMax : Nat := 9

def lfStateMask : BitVec 32 := 0xFFF0
def lfStateOwnPayload : BitVec 32 := 0x0010
def lfStateOwnTags : BitVec 32 := 0x0040
def lfStateOwnSdata : BitVec 32 := 0x0080
def lfStateOwnMask : BitVec 32 := 0x00F0
def lfLegacyMsghdr : BitVec 32 := 0x00020000

def logMsgChkFlag (self : LogMessage) (flag : BitVec 32) : Bool := self.flags &&& flag ≠ 0

def logMsgSetFlag (self : LogMessage) (flag : BitVec 32) : LogMessage :=
  { self with flags := self.flags ||| flag }

def logMsgUnsetFlag (self : LogMessage) (flag : BitVec 32) : LogMessage :=
  { self with flags := self.flags &&& ~~~flag }

def LogTags.numTags : LogTags → Nat
  | .word _ => 0
  | .array _ last => last + 1

/-! ## Write protection -/

def logMsgIsWriteProtected (self : LogMessage) : Bool := self.protectCnt > 0

/-- `protect_cnt` is a `guint8`. -/
def logMsgWriteProtect (self : LogMessage) : LogMessage :=
  { self with protectCnt := (self.protectCnt + 1) % 2 ^ 8 }

def logMsgWriteUnprotect (self : LogMessage) : LogMessage :=
  { self with protectCnt := (self.protectCnt + (2 ^ 8 - 1)) % 2 ^ 8 }

variable {P : Type}

def LogHeap.modify (h : LogHeap P) (m : Nat) (f : LogMessage → LogMessage) : LogHeap P :=
  { h with msgs := h.msgs.modify m f }

/-! ## Structured data -/

/-- The length of the name up to its last dot. -/
def prefixAndBlockLen (name : List UInt8) : Nat :=
  (name.length - 1 - name.reverse.idxOf 46) % 2 ^ 16

/-- Where the handle goes: before the last entry of its block, or to the end. -/
def sdataIndex (registry : LogMsgRegistry) (self : LogMessage) (sdata : List Nat)
    (name : List UInt8) : Nat :=
  if self.initialParse then sdata.length
  else
    match sdata.reverse.findIdx? fun s =>
      (registry.name s).length > prefixAndBlockLen name ∧
        (registry.name s).take (prefixAndBlockLen name) = name.take (prefixAndBlockLen name) with
    | some i => sdata.length - 1 - i
    | none => sdata.length

/-- `log_msg_update_sdata_slow`: the array is the message's own, or a copy is made. -/
def logMsgUpdateSdataSlow (registry : LogMsgRegistry) (h : LogHeap P) (m : Nat)
    (self : LogMessage) (handle : Nat) : LogHeap P :=
  if self.numSdata = 255 then h
  else
    let sdata := ((self.sdata.bind fun s => h.sdataArrays[s]?).getD []).take self.numSdata
    let i := sdataIndex registry self sdata (registry.name handle)
    let sdata := sdata.take i ++ handle :: sdata.drop i
    match if logMsgChkFlag self lfStateOwnSdata then self.sdata else none with
    | some s =>
      { h.modify m fun self => { self with numSdata := self.numSdata + 1 } with
        sdataArrays := h.sdataArrays.set s sdata }
    | none =>
      { h.modify m fun self => logMsgSetFlag { self with
            numSdata := self.numSdata + 1
            sdata := some h.sdataArrays.length } lfStateOwnSdata with
        sdataArrays := h.sdataArrays ++ [sdata] }

def logMsgUpdateSdata (registry : LogMsgRegistry) (h : LogHeap P) (m handle : Nat) : LogHeap P :=
  match h.msgs[m]? with
  | some self => if registry.isSdata handle then logMsgUpdateSdataSlow registry h m self handle else h
  | none => h

/-! ## Values -/

/-- A change of the payload: of the message's own, or of a copy that it takes over. -/
def logMsgChangePayload (ops : PayloadOps P) (h : LogHeap P) (m : Nat) (self : LogMessage)
    (additionalSpace : Nat) (change : P → Option (P × Bool)) : Option (LogHeap P × Bool) :=
  (h.payloads[self.payload]?).bind fun payload =>
    if logMsgChkFlag self lfStateOwnPayload then
      (change payload).map fun (payload, newEntry) =>
        ({ h with payloads := h.payloads.set self.payload payload }, newEntry)
    else
      (ops.clone payload additionalSpace).bind fun payload =>
        (change payload).map fun (payload, newEntry) =>
          ({ h.modify m fun self =>
              logMsgSetFlag { self with payload := h.payloads.length } lfStateOwnPayload with
            payloads := h.payloads ++ [payload] }, newEntry)

def logMsgSetValue (ops : PayloadOps P) (registry : LogMsgRegistry) (h : LogHeap P) (m : Nat)
    (handle : Nat) (value : List UInt8) : Option (LogHeap P) :=
  (h.msgs[m]?).bind fun self =>
    if logMsgIsWriteProtected self then none
    else if handle = lmVNone then some h
    else
      let name := registry.name handle
      (logMsgChangePayload ops h m self (name.length + value.length + 2)
        (ops.addValue · handle name value)).map fun (h, newEntry) =>
          let h := if newEntry then logMsgUpdateSdata registry h m handle else h
          if handle = lmVProgram then h.modify m (logMsgUnsetFlag · lfLegacyMsghdr) else h

def logMsgSetValueIndirect (ops : PayloadOps P) (registry : LogMsgRegistry) (h : LogHeap P)
    (m : Nat) (handle refHandle type ofs len : Nat) : Option (LogHeap P) :=
  (h.msgs[m]?).bind fun self =>
    if logMsgIsWriteProtected self then none
    else if handle = lmVNone then some h
    else if handle < lmVMax then none
    else
      let name := registry.name handle
      (logMsgChangePayload ops h m self (name.length + 1)
        (ops.addValueIndirect · handle name refHandle type ofs len)).map fun (h, newEntry) =>
          if newEntry then logMsgUpdateSdata registry h m handle else h

/-! ## Tags -/

def setBit (word : BitVec 64) (index : Nat) (value : Bool) : BitVec 64 :=
  if value then word ||| (1#64 <<< index) else word &&& ~~~(1#64 <<< index)

def logMsgSetBit (tags : List (BitVec 64)) (index : Nat) (value : Bool) : List (BitVec 64) :=
  tags.modify (index / 64) fun word => setBit word (index % 64) value

def logMsgGetBit (tags : List (BitVec 64)) (index : Nat) : Bool :=
  (tags.getD (index / 64) 0).getLsbD (index % 64)

/-- The words of a message with an array: they are written to the array if it is its own, or to a
new one. -/
def storeTags (h : LogHeap P) (m : Nat) (self : LogMessage) (a last : Nat)
    (words : List (BitVec 64)) : LogHeap P :=
  if logMsgChkFlag self lfStateOwnTags then
    { h.modify m fun self => { self with tags := .array a last } with
      tagArrays := h.tagArrays.set a words }
  else
    { h.modify m fun self =>
        logMsgSetFlag { self with tags := .array h.tagArrays.length last } lfStateOwnTags with
      tagArrays := h.tagArrays ++ [words] }

def logMsgSetTagByIdOnoff (h : LogHeap P) (m id : Nat) (on : Bool) : Option (LogHeap P) :=
  (h.msgs[m]?).bind fun self =>
    if logMsgIsWriteProtected self then none
    else
      match self.tags with
      | .word word =>
        if id < 64 then
          some (h.modify m fun self =>
            logMsgSetFlag { self with tags := .word (setBit word id on) } lfStateOwnTags)
        else if 8159 < id then some (h.modify m (logMsgSetFlag · lfStateOwnTags))
        else
          -- the inline word becomes the first one of a new array
          let words := (List.replicate (id / 64 + 1) 0).set 0 word
          some { h.modify m fun self => logMsgSetFlag
                { self with tags := .array h.tagArrays.length (id / 64) } lfStateOwnTags with
            tagArrays := h.tagArrays ++ [logMsgSetBit words id on] }
      | .array a last => (h.tagArrays[a]?).map fun words =>
        let words := words.take (last + 1)
        if (last + 1) * 64 ≤ id then
          if 8159 < id then storeTags h m self a last words
          else
            let words := words ++ List.replicate (id / 64 - last) 0
            storeTags h m self a (id / 64) (logMsgSetBit words id on)
        else storeTags h m self a last (logMsgSetBit words id on)

def logMsgIsTagById (h : LogHeap P) (self : LogMessage) (id : Nat) : Bool :=
  if 8159 < id then false
  else
    match self.tags with
    | .word word => id < 64 && word.getLsbD id
    | .array a last => id < (last + 1) * 64 && logMsgGetBit ((h.tagArrays[a]?).getD []) id

/-! ## Clones and queue nodes -/

/-- Whether `log_msg_clone_cow` thinks that the message has no content of its own. -/
def hasNoContent (msg : LogMessage) : Bool :=
  msg.flags &&& lfStateOwnMask = 0 ||
    msg.flags &&& lfStateOwnMask = lfStateOwnTags && msg.tags.numTags = 0

/-- The message that is cloned in the end. -/
def cloneTarget (h : LogHeap P) (m : Nat) : Option Nat :=
  (h.msgs[m]?).bind fun msg => if hasNoContent msg then msg.original else some m

/-- The clone of `msg`, which is at `t`. -/
def cloneOf (t : Nat) (msg : LogMessage) (ackNeeded : Bool) : LogMessage :=
  let self := { msg with
    original := some t
    ack := if ackNeeded then 1 else 0
    protectCnt := 0
    ackFunc := if ackNeeded then some .logMsgCloneAck else none
    flags := msg.flags &&& ~~~lfStateMask }
  if msg.tags.numTags = 0 then logMsgSetFlag self lfStateOwnTags else self

/-- `log_msg_clone_cow`: the clone is the last message of the heap. -/
def logMsgCloneCow (h : LogHeap P) (m : Nat) (ackNeeded : Bool) : Option (LogHeap P × Nat) :=
  (cloneTarget h m).bind fun t => (h.msgs[t]?).map fun msg =>
    let h := h.modify t logMsgWriteProtect
    ({ h with msgs := h.msgs ++ [cloneOf t msg ackNeeded] }, h.msgs.length)

/-- `log_msg_make_writable`, with the message that takes the place of `m`. -/
def logMsgMakeWritable (h : LogHeap P) (m : Nat) (ackNeeded : Bool) : Option (LogHeap P × Nat) :=
  (h.msgs[m]?).bind fun msg =>
    if logMsgIsWriteProtected msg then logMsgCloneCow h m ackNeeded else some (h, m)

def logMsgInitQueueNode (h : LogHeap P) (m : Nat) : Option (LogHeap P) :=
  (h.msgs[m]?).map fun _ => { h.modify m logMsgWriteProtect with nodes := m :: h.nodes }

/-- `log_msg_add_ack`; the counter is 16 bits wide. -/
def logMsgAddAck (h : LogHeap P) (m : Nat) (ackNeeded : Bool) : LogHeap P :=
  if ackNeeded then h.modify m fun self => { self with ack := (self.ack + 1) % 2 ^ 16 } else h

/-- The heap with a message that `log_msg_init` has set up. -/
def logMsgNew (payload : P) (recvd : LogStamp) : LogHeap P where
  msgs := [{
    ack := 0
    ackFunc := none
    original := none
    stamp := ⟨-1, 0, -1⟩
    recvd := recvd
    tags := .word 0
    sdata := none
    payload := 0
    flags := lfStateOwnMask
    pri := 0
    initialParse := false
    numMatches := 0
    numSdata := 0
    protectCnt := 0 }]
  payloads := [payload]
  tagArrays := []
  sdataArrays := []
  nodes := []
  guards := []

/-! ## What is observed through a message -/

/-- The values, the tags and the structured data. -/
structure LogContents (P : Type) where
  payload : Option P
  tags : Nat → Bool
  sdata : List Nat

/-- The rest of what a clone must share with its message: `flags` without the state bits. -/
structure LogScalars where
  pri : UInt16
  stamp : LogStamp
  recvd : LogStamp
  flags : BitVec 32
  deriving DecidableEq

def contentsOf (h : LogHeap P) (self : LogMessage) : LogContents P where
  payload := h.payloads[self.payload]?
  tags := logMsgIsTagById h self
  sdata := ((self.sdata.bind fun s => h.sdataArrays[s]?).getD []).take self.numSdata

def LogMessage.scalars (self : LogMessage) : LogScalars where
  pri := self.pri
  stamp := self.stamp
  recvd := self.recvd
  flags := self.flags &&& ~~~lfStateMask

def contents (h : LogHeap P) (m : Nat) : Option (LogContents P) := (h.msgs[m]?).map (contentsOf h)

def scalars (h : LogHeap P) (m : Nat) : Option LogScalars := (h.msgs[m]?).map LogMessage.scalars

/-! ## Runs -/

inductive MsgOp where
  | setValue (m handle : Nat) (value : List UInt8)
  | setValueIndirect (m handle refHandle type ofs len : Nat)
  | setTag (m id : Nat) (on : Bool)
  | setPri (m : Nat) (pri : UInt16)
  | setStamps (m : Nat) (stamp recvd : LogStamp)
  /-- The bits of `flags` that are not state, and `initial_parse`. -/
  | setFlags (m : Nat) (flags : BitVec 32) (initialParse : Bool)
  | clone (m : Nat) (ackNeeded : Bool)
  | makeWritable (m : Nat) (ackNeeded : Bool)
  | queue (m : Nat)
  | addAck (m : Nat) (ackNeeded : Bool)
  /-- The write protection around a delivery of a multiplexer. -/
  | guard (m : Nat)
  | unguard (m : Nat)

/-- The message whose values, tags or structured data an operation sets. -/
def MsgOp.updates : MsgOp → Option Nat
  | .setValue m _ _ | .setValueIndirect m _ _ _ _ _ | .setTag m _ _ => some m
  | _ => none

/-- The message whose `pri`, timestamps or flags an operation sets, without a function of its own. -/
def MsgOp.setsField : MsgOp → Option Nat
  | .setPri m _ | .setStamps m _ _ | .setFlags m _ _ => some m
  | _ => none

/-- The stack of protections after an operation. -/
def MsgOp.guardsAfter (guards : List Nat) : MsgOp → List Nat
  | .guard m => m :: guards
  | .unguard _ => guards.tail
  | _ => guards

/-- The message that an operation write protects once more. -/
def MsgOp.protects (h : LogHeap P) : MsgOp → Option Nat
  | .clone m _ => cloneTarget h m
  | .makeWritable m _ => (h.msgs[m]?).bind fun msg =>
      if logMsgIsWriteProtected msg then cloneTarget h m else none
  | .queue m | .guard m => some m
  | _ => none

def msgStep (ops : PayloadOps P) (registry : LogMsgRegistry) (h : LogHeap P) :
    MsgOp → Option (LogHeap P)
  | .setValue m handle value => logMsgSetValue ops registry h m handle value
  | .setValueIndirect m handle refHandle type ofs len =>
    logMsgSetValueIndirect ops registry h m handle refHandle type ofs len
  | .setTag m id on => logMsgSetTagByIdOnoff h m id on
  | .setPri m pri => some (h.modify m fun self => { self with pri := pri })
  | .setStamps m stamp recvd =>
    some (h.modify m fun self => { self with stamp := stamp, recvd := recvd })
  | .setFlags m flags initialParse => some (h.modify m fun self => { self with
      flags := self.flags &&& lfStateMask ||| flags &&& ~~~lfStateMask
      initialParse := initialParse })
  | .clone m ackNeeded => (logMsgCloneCow h m ackNeeded).map Prod.fst
  | .makeWritable m ackNeeded => (logMsgMakeWritable h m ackNeeded).map Prod.fst
  | .queue m => logMsgInitQueueNode h m
  | .addAck m ackNeeded => some (logMsgAddAck h m ackNeeded)
  | .guard m => (h.msgs[m]?).map fun _ =>
      { h.modify m logMsgWriteProtect with guards := m :: h.guards }
  | .unguard m =>
    if h.guards.head? = some m then
      some { h.modify m logMsgWriteUnprotect with guards := h.guards.tail }
    else none

/-- The 8 bit counter does not wrap. -/
def Fits (h : LogHeap P) (op : MsgOp) : Prop :=
  (((op.protects h).bind fun t => h.msgs[t]?).all fun msg => msg.protectCnt + 1 < 2 ^ 8) = true

instance (h : LogHeap P) (op : MsgOp) : Decidable (Fits h op) :=
  inferInstanceAs (Decidable (_ = true))

def MsgNext (ops : PayloadOps P) (registry : LogMsgRegistry) (h : LogHeap P) (op : MsgOp)
    (h' : LogHeap P) : Prop :=
  Fits h op ∧ msgStep ops registry h op = some h'

/-- A step of a run whose counters do not wrap. -/
def msgNext (ops : PayloadOps P) (registry : LogMsgRegistry) (h : LogHeap P) (op : MsgOp) :
    Option (LogHeap P) :=
  if Fits h op then msgStep ops registry h op else none

end SyslogNg.LogMsg
