import DbSlayer.CLib.Strings
import DbSlayer.Foundation.LinkedChain
import Mathlib.Algebra.Group.Nat.Defs

/-! # The skip list of `json_skip.c`

Nodes live in a heap in allocation order and are named by their index; index
`0` is the header node that `head->node` points to. A read of a missing node or
of a level above a node's height is undefined behaviour in the source and
`none` here, and so is a walk that does not end. The comparison function is the
`node_cmp` field of the source, and each insertion takes the value `rand()`
returned for it.
-/

namespace DbSlayer.Skip

open Foundation

variable {κ ν : Type}

/-- `json_skip_node_t`. The key is null in the header node only; the data is a
`void *` and may be null anywhere. -/
structure JsonSkipNode (κ ν : Type) where
  height : Nat
  key : Option κ
  data : Option ν
  nextList : List (Option Nat)
  deriving DecidableEq, Repr

/-- `json_skip_head_t`, with the nodes it reaches. `nodeCount` is an `unsigned int`. -/
structure JsonSkipHead (κ ν : Type) where
  height : Nat
  nodeCount : Nat
  heap : List (JsonSkipNode κ ν)
  deriving DecidableEq, Repr

/-- Read `node->next_list[level]`. -/
def nextAt (heap : List (JsonSkipNode κ ν)) (level node : Nat) : Option (Option Nat) :=
  heap[node]?.bind fun cell => cell.nextList[level]?

/-- Write `node->next_list[level]`. -/
def setNext (heap : List (JsonSkipNode κ ν)) (level node : Nat) (link : Option Nat) :
    Option (List (JsonSkipNode κ ν)) :=
  match heap[node]? with
  | none => none
  | some cell =>
      if level < cell.nextList.length then
        some (heap.set node { cell with nextList := cell.nextList.set level link })
      else none

/-- The height loop of `json_skip_node_create`, with the levels still allowed. -/
def heightLoop : Nat → Nat → Nat → Nat
  | 0, height, _ => height
  | allowed + 1, height, r =>
      if r % 2 = 1 then heightLoop allowed (height + 1) (r / 2) else height

/-- The height of a new node under a header of height `limit` when `rand()` gave `r`. -/
def randomHeight (limit r : Nat) : Nat := heightLoop (limit - 1) 1 r

def jsonSkipNodeCreate (head : JsonSkipHead κ ν) (key : κ) (data : Option ν) (r : Nat) :
    JsonSkipNode κ ν :=
  let height := randomHeight head.height r
  { height, key := some key, data, nextList := List.replicate height none }

def jsonSkipCreate (κ ν : Type) (height : Nat) : JsonSkipHead κ ν :=
  { height, nodeCount := 0,
    heap := [{ height, key := none, data := none, nextList := List.replicate height none }] }

section Operations

variable (cmp : κ → κ → Int)

/-- The loop test `node_cmp(key, node->key) > 0`. -/
def keyBelow (heap : List (JsonSkipNode κ ν)) (key : κ) (node : Nat) : Option Bool := do
  let cell ← heap[node]?
  let nodeKey ← cell.key
  return 0 < cmp key nodeKey

/-- The descent shared by every operation: one cursor goes down level by level.
It returns the final cursor and the cursor left at each level, lowest first. -/
def jsonSkipSearch (heap : List (JsonSkipNode κ ν)) (key : κ) :
    Nat → Nat → Option (Nat × List Nat)
  | 0, mark => some (mark, [])
  | height + 1, mark => do
      let mark ← advance (nextAt heap height) (keyBelow cmp heap key) heap.length mark
      let (last, fix) ← jsonSkipSearch heap key height mark
      return (last, fix ++ [mark])

/-- The splicing loop of `json_skip_put`, from the new node's top level down. -/
def linkLevels (new : Nat) (fix : List Nat) :
    Nat → List (JsonSkipNode κ ν) → Option (List (JsonSkipNode κ ν))
  | 0, heap => some heap
  | height + 1, heap => do
      let mark ← fix[height]?
      let link ← nextAt heap height mark
      let heap ← setNext heap height new link
      let heap ← setNext heap height mark (some new)
      linkLevels new fix height heap

def jsonSkipPut (head : JsonSkipHead κ ν) (key : κ) (value : Option ν) (r : Nat) :
    Option (JsonSkipHead κ ν) := do
  let node := jsonSkipNodeCreate head key value r
  let new := head.heap.length
  let heap := head.heap ++ [node]
  let (_, fix) ← jsonSkipSearch cmp heap key head.height 0
  let heap ← linkLevels new fix node.height heap
  return { head with heap, nodeCount := (head.nodeCount + 1) % 2 ^ 32 }

/-- The first node whose key is not below `key`; a null pointer is `some none`. -/
def jsonSkipFind (head : JsonSkipHead κ ν) (key : κ) : Option (Option Nat) := do
  let (mark, _) ← jsonSkipSearch cmp head.heap key head.height 0
  nextAt head.heap 0 mark

/-- The data under `key`; a null pointer is `some none`. -/
def jsonSkipGet (head : JsonSkipHead κ ν) (key : κ) : Option (Option ν) := do
  let (mark, _) ← jsonSkipSearch cmp head.heap key head.height 0
  match ← nextAt head.heap 0 mark with
  | none => some none
  | some node =>
      let cell ← head.heap[node]?
      let nodeKey ← cell.key
      return if cmp key nodeKey = 0 then cell.data else none

def jsonSkipReplace (head : JsonSkipHead κ ν) (key : κ) (value : Option ν) (r : Nat) :
    Option (JsonSkipHead κ ν) := do
  match ← jsonSkipFind cmp head key with
  | none => jsonSkipPut cmp head key value r
  | some node =>
      let cell ← head.heap[node]?
      let nodeKey ← cell.key
      if cmp key nodeKey = 0 then
        return { head with heap := head.heap.set node { cell with data := value } }
      else jsonSkipPut cmp head key value r

/-- One write, with the `rand()` value it would draw. -/
def jsonSkipApply (head : JsonSkipHead κ ν) :
    AssocOp κ (Option ν) × Nat → Option (JsonSkipHead κ ν)
  | (.put key value, r) => jsonSkipPut cmp head key value r
  | (.replace key value, r) => jsonSkipReplace cmp head key value r

/-- A sequence of writes on a new list of the given height. -/
def jsonSkipRun (height : Nat) (ops : List (AssocOp κ (Option ν) × Nat)) :
    Option (JsonSkipHead κ ν) :=
  ops.foldlM (jsonSkipApply cmp) (jsonSkipCreate κ ν height)

end Operations

/-- The nodes met by following one level from the header. -/
def levelChain (head : JsonSkipHead κ ν) (level : Nat) : Option (List Nat) :=
  collect (nextAt head.heap level) head.heap.length 0

/-- Key and data of a node other than the header. -/
def entryAt (heap : List (JsonSkipNode κ ν)) (node : Nat) : Option (κ × Option ν) := do
  let cell ← heap[node]?
  let key ← cell.key
  return (key, cell.data)

/-- The keys and data along level 0, as the serializers walk them. -/
def levelEntries (head : JsonSkipHead κ ν) : Option (List (κ × Option ν)) := do
  let nodes ← levelChain head 0
  nodes.mapM (entryAt head.heap)

end DbSlayer.Skip
