import EpochSplit.Bytes
import EpochSplit.Disk.Pages
/-!
# Trees of keys

The keys of a database form a search tree whose nodes fill a page each.  A leaf keeps keys with
their values; a value that is too long for a leaf lies in a run of pages of its own.  A branch keeps
its subtrees, each under the least key that it is searched for.  A node that grows too big is split
in two.

What the values are is of no concern here, only how long they are.
-/

namespace EpochSplit

/-- A node with all that is below it. -/
inductive KeyNode where
  /-- The keys of a leaf, each with the number of bytes that it keeps for the value. -/
  | leaf (page : PageRun) (slots : List (Bytes × Nat))
  | branch (page : PageRun) (children : List (Bytes × KeyNode))

namespace KeyNode

/-- The bytes of a page that are left to a node. -/
def space : Nat := pageSize - 16

/-- The most bytes that a leaf keeps for one key. -/
def slotLimit : Nat := space / 2 - 2

/-- The bytes that a key and so much of a value need in a node.  They start at even places. -/
def slotSize (key : Bytes) (stored : Nat) : Nat := (key.length + stored + 9) / 2 * 2 + 2

/-- Whether a value of the given length is too long for a leaf. -/
def isLong (key : Bytes) (length : Nat) : Bool := slotLimit < 8 + key.length + length

/-- The bytes that entries of the given sizes need together. -/
def totalSize (sizes : List Nat) : Nat := sizes.foldr (· + ·) 0

/-- The number of pages that a long value takes. -/
def pagesFor (length : Nat) : Nat := (length + 15) / pageSize + 1

/-- The bytes kept in a leaf for a value of the given length: a long value is named by its page. -/
def storedSize (key : Bytes) (length : Nat) : Nat := if isLong key length then 8 else length

/-- Where a node is split, in numbers of entries.  The sizes are those of all entries, the new one
included, which stands at `new`.

Entries are counted off from the end where the new one is not, until a page is full or the middle
is reached; an entry that comes last goes to the right together with the one before it.  Where all
entries are small the middle will do. -/
def splitPoint (isLeaf : Bool) (sizes : List Nat) (new : Nat) : Nat :=
  let last := sizes.length - 1
  let middle := (last + 1) / 2
  let fitting (sizes : List Nat) : Nat :=
    (List.range sizes.length).countP fun i => totalSize (sizes.take (i + 1)) ≤ space
  if 32 ≤ last ∧ sizes.getD new 0 ≤ space / 16 ∧ new < last then middle
  else if last ≤ new then min (last - 1) (fitting sizes)
  else if new ≤ middle then min (if isLeaf then middle + 1 else middle) (fitting sizes)
  else max middle (last - fitting sizes.reverse) + 1

/-- The page of a node. -/
def page : KeyNode → PageRun
  | leaf page _ => page
  | branch page _ => page

/-- The child of a branch in which a key is searched for. -/
def childIndex (key : Bytes) (children : List (Bytes × KeyNode)) : Nat :=
  (children.tail.takeWhile fun c => (compare c.1 key).isLE).length

/-- Makes the nodes on the way to a key those of this batch.  The first argument is the height of
the tree. -/
def renewTo (key : Bytes) : Nat → KeyNode → Paging KeyNode
  | height + 1, branch page children => do
      let page ← Paging.renew page
      let i := childIndex key children
      match children[i]? with
      | none => return branch page children
      | some (low, child) =>
          return branch page (children.set i (low, ← renewTo key height child))
  | _, branch page children => return branch (← Paging.renew page) children
  | _, leaf page slots => return leaf (← Paging.renew page) slots

/-- Puts a key into nodes of this batch.  If the node is split, its right half is given back too,
with the least key that it is searched for. -/
def insert (key : Bytes) (stored : Nat) :
    Nat → KeyNode → Paging (KeyNode × Option (Bytes × KeyNode))
  | height + 1, branch page children => do
      let i := childIndex key children
      let some (low, child) := children[i]? | return (branch page children, none)
      let (child, extra) ← insert key stored height child
      let children := children.set i (low, child)
      let some half := extra | return (branch page children, none)
      let children := children.insertIdx (i + 1) half
      let sizes := children.map fun c => slotSize c.1 0
      if totalSize sizes ≤ space then return (branch page children, none)
      let sibling ← Paging.allocate 1
      let (left, right) := children.splitAt (splitPoint false sizes (i + 1))
      let some (low, child) := right.head? | return (branch page left, none)
      -- a first child needs no key: all that is searched for in the node is at least as great
      return (branch page left, some (low, branch sibling (([], child) :: right.tail)))
  | _, branch page children => return (branch page children, none)
  | _, leaf page slots => do
      let before := slots.filter fun s => (compare s.1 key).isLT
      let slots := before ++ (key, stored) :: slots.filter fun s => (compare s.1 key).isGT
      let sizes := slots.map fun s => slotSize s.1 s.2
      if totalSize sizes ≤ space then return (leaf page slots, none)
      let sibling ← Paging.allocate 1
      let (left, right) := slots.splitAt (splitPoint true sizes before.length)
      return (leaf page left, some ((right.head?.map (·.1)).getD [], leaf sibling right))

/-- Takes the least key out of nodes of this batch.  A node with nothing left is given up. -/
def removeFirst : Nat → KeyNode → Paging (Option KeyNode)
  | height + 1, branch page ((_, child) :: rest) => do
      match ← removeFirst height child, rest with
      | some child, _ => return some (branch page (([], child) :: rest))
      | none, (_, next) :: rest => return some (branch page (([], next) :: rest))
      | none, [] =>
          Paging.giveUp page
          return none
  | _, leaf page (_ :: slot :: slots) => return some (leaf page (slot :: slots))
  | _, node => do
      Paging.giveUp node.page
      return none

end KeyNode

/-- A tree of keys. -/
structure KeyTree where
  root : Option KeyNode := none
  height : Nat := 0
  /-- The pages of the long values by key. -/
  long : Std.ExtTreeMap Bytes PageRun := ∅

namespace KeyTree

/-- Makes the nodes on the way to a key those of this batch. -/
def renewTo (key : Bytes) (t : KeyTree) : Paging KeyTree := do
  let some root := t.root | return t
  return { t with root := some (← root.renewTo key t.height) }

/-- Puts a key into the nodes of a tree, which are those of this batch.  If the root is split, the
tree grows by a node above it. -/
def insert (key : Bytes) (stored : Nat) (t : KeyTree) : Paging KeyTree := do
  let some root := t.root | return t
  match ← root.insert key stored t.height with
  | (root, none) => return { t with root := some root }
  | (root, some half) =>
      let above ← Paging.allocate 1
      return { t with root := some (.branch above [([], root), half]), height := t.height + 1 }

/-- Writes a value of the given length under a key.  A long value of this batch is written over if
the pages suffice. -/
def write (key : Bytes) (length : Nat) (t : KeyTree) : Paging KeyTree := do
  let t ← match t.root with
    | none => do pure { t with root := some (.leaf (← Paging.allocate 1) []), height := 0 }
    | some _ => t.renewTo key
  if let some old := t.long[key]? then
    if old.batch = (← get).batch && KeyNode.pagesFor length ≤ old.count then return t
    Paging.release old
  let t ← t.insert key (KeyNode.storedSize key length)
  if KeyNode.isLong key length then
    let pages ← Paging.allocate (KeyNode.pagesFor length)
    return { t with long := t.long.insert key pages }
  else return { t with long := t.long.erase key }

/-- Takes the least key out of a tree; which one that is, the caller knows. -/
def removeFirst (key : Bytes) (t : KeyTree) : Paging KeyTree := do
  let t ← t.renewTo key
  if let some old := t.long[key]? then Paging.release old
  let some root := t.root | return t
  return { t with root := ← root.removeFirst t.height, long := t.long.erase key }

end KeyTree

end EpochSplit
