import Mathlib.Data.List.Sort
import Mathlib.Tactic

/-!
# The radix tree of the pattern database (`modules/dbparser/radix.c`, `radix-find.c`)

A node has a literal key or a parser, the literal children sorted by their first byte, and the
parser children in the order in which they were inserted. `r_insert_node` cuts a pattern into
nodes, `r_find_node` looks a message up.

Strings are lists of bytes without the NUL; `key[i]` one past the end reads the NUL. The two
functions recurse over the tree and the rest of the key, with a bound on the depth: `none` means
that it was too small. `rInsertNode` and `rFindNode` give a bound that is enough.
-/

namespace SyslogNg.DbParser

/-- `'@'`. -/
def at_ : UInt8 := 64

def bytesOf (s : String) : List UInt8 := s.toList.map fun c => UInt8.ofNat c.toNat

/-- The functions a `parse` member points to. -/
inductive RParserFn where
  | ipv4 | ipv6 | ip | macaddr | number | float | string | estringC | estring | pcre | anystring
  | set | email | hostname | lladdr | qstring
  deriving DecidableEq, Repr

/-- The `RPT_` number stored in the matches of a parser. -/
def RParserFn.type : RParserFn → Nat
  | .string => 0 | .qstring => 1 | .estringC | .estring => 2 | .ipv4 => 3 | .number => 4
  | .anystring => 5 | .ipv6 => 6 | .ip => 7 | .float => 8 | .set => 9 | .macaddr => 10
  | .pcre => 11 | .email => 12 | .hostname => 13 | .lladdr => 14

/-- The `state` member is computed from `param` alone, and left out. -/
structure RParserNode where
  parse : RParserFn
  param : Option (List UInt8)
  first : UInt8
  last : UInt8
  type : Nat
  handle : Nat
  deriving DecidableEq, Repr

structure RParserMatch where
  handle : Nat
  len : Nat
  ofs : Nat
  type : Nat
  deriving DecidableEq, Repr

/-- `keylen` is `-1` where `key` is `NULL`. -/
inductive RNode (V : Type) where
  | mk (key : Option (List UInt8)) (parser : Option RParserNode) (value : Option V)
      (children pchildren : List (RNode V))

namespace RNode

variable {V : Type}

def key : RNode V → Option (List UInt8) | .mk k _ _ _ _ => k
def parser : RNode V → Option RParserNode | .mk _ p _ _ _ => p
def value : RNode V → Option V | .mk _ _ v _ _ => v
def children : RNode V → List (RNode V) | .mk _ _ _ cs _ => cs
def pchildren : RNode V → List (RNode V) | .mk _ _ _ _ ps => ps

def keylen (node : RNode V) : Int := node.key.elim (-1) fun k => k.length

/-- The bytes of the key. -/
def text (node : RNode V) : List UInt8 := node.key.getD []

/-- `key[0]`. -/
def firstByte (node : RNode V) : UInt8 := node.text.headD 0

def withChildren (node : RNode V) (children : List (RNode V)) : RNode V :=
  .mk node.key node.parser node.value children node.pchildren

def withPchildren (node : RNode V) (pchildren : List (RNode V)) : RNode V :=
  .mk node.key node.parser node.value node.children pchildren

/-- The value is set where there is none; a second one is an error that is reported. -/
def setValue (node : RNode V) (value : V) : RNode V :=
  .mk node.key node.parser (node.value.or (some value)) node.children node.pchildren

end RNode

variable {V : Type}

def rNewNode (key : List UInt8) (value : Option V) : RNode V := .mk (some key) none value [] []

/-! ## Parser nodes -/

/-- `g_strsplit (key, ":", max)`. -/
def strsplit : Nat → List UInt8 → List (List UInt8)
  | 0, s => [s]
  | 1, s => [s]
  | n + 2, s =>
    match s.span (· ≠ 58) with
    | (token, _ :: rest) => token :: strsplit (n + 1) rest
    | (token, []) => [token]

/-- The parsers that take no parameter of their own. -/
def rSimpleParsers : List (String × RParserFn) :=
  [("IPv4", .ipv4), ("IPv6", .ipv6), ("IPvANY", .ip), ("MACADDR", .macaddr), ("NUMBER", .number),
    ("FLOAT", .float), ("DOUBLE", .float), ("STRING", .string), ("ANYSTRING", .anystring),
    ("EMAIL", .email), ("HOSTNAME", .hostname), ("LLADDR", .lladdr)]

/-- The function that parses for a list of parameters. -/
def rParserFnOf (params : List (List UInt8)) : Option RParserFn :=
  let name := params.headD []
  match rSimpleParsers.find? fun p => bytesOf p.1 = name with
  | some p => some p.2
  | none =>
    if name = bytesOf "ESTRING" then
      if params.length = 3 then
        some (if (params.getD 2 []).length > 1 then .estring else .estringC)
      else none
    else if name = bytesOf "PCRE" then if params.length = 3 then some .pcre else none
    else if name = bytesOf "SET" then if params.length = 3 then some .set else none
    else if (bytesOf "QSTRING").isPrefixOf name then
      if params.length = 3 then some .qstring else none
    else none

def rParserRange (parse : RParserFn) (param : Option (List UInt8)) : UInt8 × UInt8 :=
  match parse with
  | .ipv4 => (48, 57)
  | .number | .float => (45, 57)
  | .qstring => ((param.getD []).headD 0, (param.getD []).headD 0)
  | _ => (0, 255)

/-- `r_new_pnode`; `getValueHandle` is `log_msg_get_value_handle`. -/
def rNewPnode (getValueHandle : List UInt8 → Nat) (key : List UInt8) : Option RParserNode :=
  let params := strsplit 3 key
  (rParserFnOf params).map fun parse =>
    { parse := parse
      param := params[2]?
      first := (rParserRange parse params[2]?).1
      last := (rParserRange parse params[2]?).2
      type := parse.type
      handle := if params.getD 1 [] = [] then 0 else getValueHandle (params.getD 1 []) }

def rEqualPnode (a b : RParserNode) : Bool :=
  a.parse = b.parse && a.handle = b.handle && a.param = b.param

/-- The index `r_find_pchild` stops at. -/
def rFindPchild (parent : RNode V) (parserNode : RParserNode) : Option Nat :=
  parent.pchildren.findIdx? fun node => node.parser.any fun p => rEqualPnode p parserNode

def rAddPchild (parent child : RNode V) : RNode V :=
  parent.withPchildren (parent.pchildren ++ [child])

/-! ## Literal nodes -/

def rNodeLe (a b : RNode V) : Prop := a.firstByte.toNat ≤ b.firstByte.toNat

instance : DecidableRel (rNodeLe (V := V)) := fun a b =>
  inferInstanceAs (Decidable (a.firstByte.toNat ≤ b.firstByte.toNat))

/-- `r_add_child`, with the sort by the first byte. -/
def rAddChild (parent child : RNode V) : RNode V :=
  parent.withChildren ((parent.children ++ [child]).insertionSort rNodeLe)

/-- The value of a byte in a `char`, which is signed. -/
def charOf (b : UInt8) : Int := if b.toNat < 128 then b.toNat else b.toNat - 256

/-- The search of `r_find_child`; the first byte of a child is a `guint8`, `k` a `char`. -/
def rFindChildLoop (children : List (RNode V)) (k : Int) : Nat → Nat → Nat → Option Nat
  | 0, _, _ => none
  | rounds + 1, l, u =>
    if l < u then
      match children[(l + u) / 2]? with
      | none => none
      | some child =>
        if (child.firstByte.toNat : Int) > k then rFindChildLoop children k rounds l ((l + u) / 2)
        else if (child.firstByte.toNat : Int) < k then
          rFindChildLoop children k rounds ((l + u) / 2 + 1) u
        else some ((l + u) / 2)
    else none

/-- The index of the child that `r_find_child` returns. -/
def rFindChild (root : RNode V) (key : UInt8) : Option Nat :=
  rFindChildLoop root.children (charOf key) root.children.length 0 root.children.length

/-! ## Insertion -/

/-- How far a key agrees with the key of a node; with parsers, up to an `@`. -/
def matchLen (parser : Bool) : List UInt8 → List UInt8 → Nat
  | k :: key, r :: rootKey =>
    if k ≠ r ∨ parser ∧ k = at_ then 0 else matchLen parser key rootKey + 1
  | _, _ => 0

section

variable (newPnode : List UInt8 → Option RParserNode) (parser : Bool) (value : V)

/-- `r_add_child_check`; `insert` is `r_insert_node`. A new child gets the rest of the key
before it is linked, where the code links it first: its first byte is the same. -/
def rAddChildCheck (insert : RNode V → List UInt8 → Option (RNode V)) (root : RNode V)
    (key : List UInt8) : Option (RNode V) :=
  if parser ∧ at_ ∈ key then
    if key.takeWhile (· ≠ at_) = [] then insert root key
    else
      (insert (rNewNode (key.takeWhile (· ≠ at_)) none) (key.dropWhile (· ≠ at_))).map
        (rAddChild root)
  else some (rAddChild root (rNewNode key (some value)))

/-- A key that begins with `@@`: the node `@`, and the rest under it. -/
def rInsertEscape (insert : RNode V → List UInt8 → Option (RNode V)) (root : RNode V)
    (rest : List UInt8) : Option (RNode V) :=
  match rFindChild root at_ with
  | none =>
    if rest = [] then some (rAddChild root (rNewNode [at_] (some value)))
    else (insert (rNewNode [at_] none) rest).map (rAddChild root)
  | some ndx =>
    (root.children[ndx]?).bind fun node =>
      (if rest = [] then some (node.setValue value) else insert node rest).map fun node' =>
        root.withChildren (root.children.set ndx node')

/-- A key that begins with `@spec@`. -/
def rInsertParser (insert : RNode V → List UInt8 → Option (RNode V)) (root : RNode V)
    (spec rest : List UInt8) : Option (RNode V) :=
  match newPnode spec with
  | none => some root
  | some parserNode =>
    match rFindPchild root parserNode with
    | none =>
      (if rest = [] then some (.mk none (some parserNode) (some value) [] [])
        else insert (.mk none (some parserNode) none [] []) rest).map (rAddPchild root)
    | some ndx =>
      (root.pchildren[ndx]?).bind fun node =>
        (if rest = [] then some (node.setValue value) else insert node rest).map fun node' =>
          root.withPchildren (root.pchildren.set ndx node')

/-- The node cut off below the first `i` bytes of a node that is split. -/
def rSplit (root : RNode V) (i : Nat) : RNode V :=
  rAddChild (.mk (some (root.text.take i)) root.parser none [] [])
    (.mk (some (root.text.drop i)) none root.value root.children root.pchildren)

/-- A key that does not begin with an `@`, or that has no parsers. -/
def rInsertLiteral (insert : RNode V → List UInt8 → Option (RNode V)) (root : RNode V)
    (key : List UInt8) : Option (RNode V) :=
  let i := matchLen parser key root.text
  if root.keylen = 0 ∨ i = 0 ∨ i < key.length ∧ root.keylen ≤ i then
    match rFindChild root (key.getD i 0) with
    | some ndx =>
      if parser ∧ key.getD i 0 = at_ then insert root (key.drop i)
      else
        (root.children[ndx]?).bind fun node => (insert node (key.drop i)).map fun node' =>
          root.withChildren (root.children.set ndx node')
    | none => rAddChildCheck parser value insert root (key.drop i)
  else if i = key.length ∧ (i : Int) = root.keylen then some (root.setValue value)
  else if 0 < i ∧ (i : Int) < root.keylen then
    if i < key.length then rAddChildCheck parser value insert (rSplit root i) (key.drop i)
    else some ((rSplit root i).setValue value)
  else rAddChildCheck parser value insert root (key.drop i)

/-- `r_insert_node`, down to a depth. -/
def insertNode : Nat → RNode V → List UInt8 → Option (RNode V)
  | 0, _, _ => none
  | depth + 1, root, key =>
    if parser ∧ key.head? = some at_ then
      match key.drop 1 with
      | [] => some root
      | c :: rest =>
        if c = at_ then rInsertEscape value (insertNode depth) root rest
        else if at_ ∈ rest then
          rInsertParser newPnode value (insertNode depth) root ((c :: rest).takeWhile (· ≠ at_))
            (((c :: rest).dropWhile (· ≠ at_)).drop 1)
        else some root
    else rInsertLiteral parser value (insertNode depth) root key

end

mutual

/-- The number of nodes on the longest way down from a node. -/
def RNode.height : RNode V → Nat
  | .mk _ _ _ children pchildren => max (heightOf children) (heightOf pchildren)

def heightOf : List (RNode V) → Nat
  | [] => 0
  | node :: nodes => max (node.height + 1) (heightOf nodes)

end

def rInsertNode (newPnode : List UInt8 → Option RParserNode) (root : RNode V) (key : List UInt8)
    (value : V) (parser : Bool) : Option (RNode V) :=
  insertNode newPnode parser value (2 * key.length + root.height + 1) root key

/-! ## Lookup -/

/-- What a `parse` function does on success: the bytes it takes, and the captured part, by its
offset in them and by what its length differs from theirs. -/
structure RParse where
  len : Nat
  ofs : Nat
  relLen : Int

/-- The node that a lookup returns, and the `matches` array, which may be `NULL`. -/
abbrev RFound (V : Type) := Option (RNode V) × Option (List RParserMatch)

section

variable (parse : RParserFn → Option (List UInt8) → List UInt8 → Option RParse)

/-- The part of a node's key that agrees with the key looked up; the first byte is not compared. -/
def lookupLen (node : RNode V) (key : List UInt8) : Nat :=
  if node.keylen < 1 then 0
  else 1 + matchLen false (key.drop 1) (node.text.drop 1)

/-- The entry of a successful parse, made absolute: the arithmetic is that of `guint16`. -/
def RParserMatch.absolute (m : RParserMatch) (parserNode : RParserNode) (len ofs : Nat) :
    RParserMatch where
  handle := parserNode.handle
  len := (((m.len : Int) + len) % 2 ^ 16).toNat
  ofs := (m.ofs + ofs) % 2 ^ 16
  type := parserNode.type

/-- The literal child that the next byte finds. -/
def tryChild
    (find : RNode V → Nat → List UInt8 → Option (List RParserMatch) → Option (RFound V))
    (root : RNode V) (ofs : Nat) (key : List UInt8) (ms : Option (List RParserMatch)) :
    Option (RFound V) :=
  match (rFindChild root (key.headD 0)).bind fun ndx => root.children[ndx]? with
  | some node => find node ofs key ms
  | none => some (none, ms)

/-- The loop of `r_find_node` over the parser children: `key` is the rest of the message, `ofs`
its offset in the message and `matchOfs` the entry of `matches` that belongs to this node. -/
def tryPchildren
    (find : RNode V → Nat → List UInt8 → Option (List RParserMatch) → Option (RFound V))
    (ofs : Nat) (key : List UInt8) (matchOfs : Nat) :
    List (RNode V) → Option (RNode V) → Option (List RParserMatch) → Option (RFound V)
  | [], ret, ms => some (ret, ms)
  | node :: nodes, ret, ms =>
    match node.parser with
    | none => none
    | some parserNode =>
      let cleared := ms.map fun ms => ms.set matchOfs ⟨0, 0, 0, 0⟩
      if parserNode.first ≤ key.headD 0 ∧ key.headD 0 ≤ parserNode.last then
        match parse parserNode.parse parserNode.param key with
        | none => tryPchildren find ofs key matchOfs nodes ret cleared
        | some r =>
          let entry : RParserMatch := ⟨0, (r.relLen % 2 ^ 16).toNat, r.ofs % 2 ^ 16, 0⟩
          (find node (ofs + r.len) (key.drop r.len)
            (cleared.map fun ms => ms.set matchOfs entry)).bind fun (ret', ms') =>
              match ms' with
              | none => tryPchildren find ofs key matchOfs nodes ret' none
              | some ms' =>
                if ret'.isSome then
                  some (ret', some (ms'.modify matchOfs fun m => m.absolute parserNode r.len ofs))
                else tryPchildren find ofs key matchOfs nodes none (some ms')
      else tryPchildren find ofs key matchOfs nodes ret cleared

/-- `r_find_node`, down to a depth; `key` is the rest of the message at `ofs`. -/
def findNode : Nat → RNode V → Nat → List UInt8 → Option (List RParserMatch) →
    Option (RFound V)
  | 0, _, _, _, _ => none
  | depth + 1, root, ofs, key, ms =>
    let i := lookupLen root key
    let own := if root.value.isSome then some root else none
    if i = key.length ∧ ((i : Int) = root.keylen ∨ root.keylen = -1) then some (own, ms)
    else if root.keylen < 1 ∨ i < key.length ∧ root.keylen ≤ i then
      (tryChild (findNode depth) root (ofs + i) (key.drop i) ms).bind fun (found : RFound V) =>
        if found.1.isSome then some found
        else
          let matchOfs := (found.2.getD []).length
          (tryPchildren parse (findNode depth) (ofs + i) (key.drop i) matchOfs root.pchildren none
            (found.2.map fun ms => ms ++ [(⟨0, 0, 0, 0⟩ : RParserMatch)])).map fun (tried : RFound V) =>
              if tried.1.isSome then tried
              else (own, tried.2.map fun (ms : List RParserMatch) => ms.take matchOfs)
    else some (none, ms)

/-- `r_find_node (root, key, key, keylen, matches)`. -/
def rFindNode (root : RNode V) (key : List UInt8) (ms : Option (List RParserMatch)) :
    Option (RFound V) :=
  findNode parse (root.height + 1) root 0 key ms

end

/-- Insertions into a fresh root, one after another. -/
def rBuild (newPnode : List UInt8 → Option RParserNode) (parser : Bool)
    (inserts : List (List UInt8 × V)) : Option (RNode V) :=
  inserts.foldlM (fun root (key, value) => rInsertNode newPnode root key value parser)
    (rNewNode [] none)

end SyslogNg.DbParser
