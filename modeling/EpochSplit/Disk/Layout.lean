import EpochSplit.Disk.KeyTree
/-!
# The layout of a database

The pages of a database as the last batch left them: the tree of its keys, and a second tree for the
lists of pages that were given up.  A batch puts its keys into the first tree and then brings the
second up to date.  As that takes and gives up pages as well, it goes on until what is written
agrees with what is so.
-/

namespace EpochSplit

/-- Where the parts of a database lie. -/
structure Layout where
  /-- The number of the last batch. -/
  batch : Nat := 0
  /-- The first page that was never used.  The first two pages say where the trees are. -/
  next : Nat := 2
  /-- The tree of the keys. -/
  keys : KeyTree := {}
  /-- The tree of the lists. -/
  free : KeyTree := {}
  /-- The pages that each batch gave up. -/
  lists : Std.ExtTreeMap Nat (List Nat) := ∅

namespace Layout

/-! ### Lists of pages -/

/-- The key of a list, which is the number of a batch. -/
def listKey (batch : Nat) : Bytes := Bytes.bigEndian 8 batch

/-- The length of a list of so many pages. -/
def listSize (count : Nat) : Nat := 8 * (count + 1)

/-- The number of pages whose list fills a page. -/
def listLimit : Nat := KeyNode.space / 8 - 1

/-- The tree of the lists while it is brought up to date. -/
structure Settling where
  tree : KeyTree
  /-- The number of pages in the list of this batch, as it was written last. -/
  own : Nat := 0
  /-- The last list that was taken out, or that was written to keep spare pages. -/
  head : Nat := 0
  /-- The number of pages for which that list has room. -/
  headRoom : Nat := 0
  /-- The lists written to keep spare pages, and the room that each has. -/
  rooms : Std.ExtTreeMap Nat Nat := ∅
  /-- Whether more room than is needed was accepted to be tried once more. -/
  tried : Bool := false

namespace Settling

/-- The number of spare pages for which there is room. -/
def room (s : Settling) : Nat := s.rooms.values.foldr (· + ·) 0

/-- Writes the list of this batch, again if that made it longer. -/
def writeOwn : Nat → Settling → Paging Settling
  | 0, s => return s
  | steps + 1, s => do
      let w ← get
      let own := w.given.length
      if own ≤ s.own then return s
      let tree ← s.tree.write (listKey w.batch) (listSize own)
      writeOwn steps { s with tree, own }

/-- Takes out the list that is the first in the tree.  It is one whose pages were looked at, or one
that was written to keep spare pages before such a list was found after it. -/
def takeOut (batch : Nat) (s : Settling) : Paging Settling := do
  let head := min batch (s.rooms.keys.head?.getD batch)
  let tree ← s.tree.removeFirst (listKey head)
  modify fun w => { w with lists := w.lists.erase head }
  return { s with tree, head, headRoom := 0, rooms := s.rooms.erase head }

/-- Makes room for the spare pages in the list at the head, or in one before it where that list
would get too long. -/
def makeRoom (spare : Nat) (s : Settling) : Paging Settling := do
  let full := s.room < spare && listLimit ≤ s.headRoom && 1 < s.head
  let head := if full then s.head - 1 else s.head
  let others := s.room - (if full then 0 else s.headRoom)
  let wanted := spare - others
  let headRoom :=
    if listLimit < wanted && 1 < head then
      wanted / head + (listLimit - wanted / head % (listLimit + 1))
    else wanted
  let tree ← s.tree.write (listKey head) (listSize headRoom)
  return { s with tree, head, headRoom, rooms := s.rooms.insert head headRoom }

/-- Brings the tree up to date.  The first argument bounds the number of steps. -/
def settle : Nat → Settling → Paging Settling
  | 0, s => return s
  | steps + 1, s => do
      let w ← get
      match w.lists.keys.head? with
      | some batch => if batch ≤ w.drawn then return ← settle steps (← s.takeOut batch)
      | none => pure ()
      if s.own < w.given.length then
        let tree ← if s.own = 0 then s.tree.renewTo (listKey w.batch) else pure s.tree
        settle steps (← writeOwn steps { s with tree })
      else
        let spare := w.atHand.length
        if s.room = spare || spare < s.room && s.tried then return s
        settle steps (← makeRoom spare { s with tried := s.tried || spare < s.room })

/-- Fills the lists that were written to keep spare pages, the lowest pages first. -/
def fill (s : Settling) : List (Nat × Nat) → List Nat → Std.ExtTreeMap Nat (List Nat) →
    Paging (KeyTree × Std.ExtTreeMap Nat (List Nat))
  | [], _, lists => return (s.tree, lists)
  | (batch, room) :: rest, pages, lists => do
      let part := pages.take room
      let tree ←
        if part.isEmpty || part.length = room then pure s.tree
        else s.tree.write (listKey batch) (listSize part.length)
      fill { s with tree } rest (pages.drop room) (lists.insert batch part)

end Settling

/-! ### Batches -/

/-- Brings the lists up to date. -/
def writeLists (free : KeyTree) : Paging (KeyTree × Std.ExtTreeMap Nat (List Nat)) := do
  let w ← get
  let free ← if w.spare.isSome then free.renewTo (listKey 0) else pure free
  let s ← Settling.settle (w.lists.size + w.next + 64) { tree := free }
  let w ← get
  let lists := if w.given.isEmpty then w.lists else w.lists.insert w.batch w.given
  s.fill s.rooms.toList w.atHand lists

/-- The layout after a batch of keys with values of the given lengths, if there is room for it in
the given number of pages.  A batch of nothing changes nothing. -/
def write? (limit : Nat) (batch : List (Bytes × Nat)) (l : Layout) : Option Layout := do
  if batch.isEmpty then return l
  let put (keys : KeyTree) (e : Bytes × Nat) : Paging KeyTree := keys.write e.1 e.2
  let draft : PageDraft := { batch := l.batch + 1, limit, next := l.next, lists := l.lists }
  let ((keys, free, lists), w) ←
    (do return (← batch.foldlM put l.keys, ← writeLists l.free) : Paging _).run draft
  return { batch := l.batch + 1, next := w.next, keys, free, lists }

/-! ### Copies -/

/-- Gives the pages of a tree new numbers from `next` on: first the long values of a leaf, then the
leaf, and a branch after all that is below it.  Nodes of the copy are those of no batch. -/
def packNode (long : Std.ExtTreeMap Bytes PageRun) : Nat → KeyNode →
    StateM (Nat × Std.ExtTreeMap Bytes PageRun) KeyNode
  | height + 1, .branch _ children => do
      let children ← children.mapM fun (low, child) => do
        return (low, ← packNode long height child)
      modifyGet fun (next, moved) => (.branch ⟨next, 1, 0⟩ children, next + 1, moved)
  | _, .leaf _ slots => modifyGet fun (next, moved) =>
      let (next, moved) := slots.foldl (fun (next, moved) s =>
        match long[s.1]? with
        | none => (next, moved)
        | some old => (next + old.count, moved.insert s.1 ⟨next, old.count, 0⟩)) (next, moved)
      (.leaf ⟨next, 1, 0⟩ slots, next + 1, moved)
  | _, node => return node

/-- The layout of a copy that keeps no pages but those of the tree of the keys. -/
def packed (l : Layout) : Layout :=
  match l.keys.root with
  | none => {}
  | some root =>
      let (root, next, long) := (packNode l.keys.long l.keys.height root).run (2, ∅)
      { batch := 1, next, keys := { root := some root, height := l.keys.height, long } }

end Layout

end EpochSplit
