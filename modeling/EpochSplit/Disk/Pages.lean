import Std.Data.ExtTreeMap
/-!
# Pages

A database lies in a file of numbered pages, of which there may be no more than its size allows.  A
batch never writes over a page that an earlier batch has written: it takes other pages, and gives up
those that it no longer needs.  What a batch gave up is listed under its number, and the second
batch after it is the first that may use those pages again.
-/

namespace EpochSplit

/-- The size of a page; the bound on the size of a database is a number of pages. -/
def pageSize : Nat := 4096

/-- Pages with numbers that follow each other, and the batch that wrote them. -/
structure PageRun where
  first : Nat
  count : Nat := 1
  batch : Nat
deriving DecidableEq

namespace PageRun

/-- The numbers of the pages. -/
def pages (r : PageRun) : List Nat := List.range' r.first r.count

end PageRun

/-- The pages as a batch sees them that is being written. -/
structure PageDraft where
  /-- The number of the batch. -/
  batch : Nat
  /-- The number of pages that there may be. -/
  limit : Nat
  /-- The first page that was never used. -/
  next : Nat
  /-- What earlier batches gave up, by their number. -/
  lists : Std.ExtTreeMap Nat (List Nat)
  /-- The pages found in the lists that were looked at so far, if any was. -/
  spare : Option (List Nat) := none
  /-- The last list that was looked at. -/
  drawn : Nat := 0
  /-- The pages that this batch gives up. -/
  given : List Nat := []

/-- Steps that need pages.  They fail where the database has no room for them. -/
abbrev Paging := StateT PageDraft Option

namespace PageDraft

/-- The spare pages that are at hand, from the lowest on. -/
def atHand (w : PageDraft) : List Nat := w.spare.getD []

/-- The lowest page at hand that starts a run of the given length. -/
def run? (w : PageDraft) (count : Nat) : Option Nat :=
  w.atHand.find? fun first => (List.range' first count).all w.atHand.contains

/-- Puts a page before the first that is greater. -/
def insertPage (page : Nat) : List Nat → List Nat
  | [] => [page]
  | next :: pages => if page ≤ next then page :: next :: pages else next :: insertPage page pages

/-- The pages at hand together with others. -/
def withSpare (w : PageDraft) (pages : List Nat) : PageDraft :=
  { w with spare := some (pages.foldr insertPage w.atHand) }

/-- The lists that may still be looked at. -/
def drawable (w : PageDraft) : List (Nat × List Nat) :=
  w.lists.toList.filter fun l => w.drawn < l.1 && l.1 + 1 < w.batch

/-- Looks at lists until a run of the given length is at hand. -/
def drawFor (count : Nat) (w : PageDraft) : List (Nat × List Nat) → PageDraft
  | [] => w
  | (batch, pages) :: rest =>
      if (w.run? count).isSome then w
      else drawFor count { w.withSpare pages with drawn := batch } rest

end PageDraft

namespace Paging

/-- Takes a run of pages: spare ones if enough lie in a row, else ones that were never used. -/
def allocate (count : Nat) : Paging PageRun := fun w =>
  let w := w.drawFor count w.drawable
  match w.run? count with
  | some first =>
      let left := w.atHand.filter fun page => page < first || first + count ≤ page
      some (⟨first, count, w.batch⟩, { w with spare := some left })
  | none =>
      if w.limit ≤ w.next + count then none
      else some (⟨w.next, count, w.batch⟩, { w with next := w.next + count })

/-- Gives up pages that the batch itself need not have written. -/
def giveUp (r : PageRun) : Paging Unit :=
  modify fun w => { w with given := r.pages ++ w.given }

/-- Gives up a run of pages.  Pages of this batch are at hand again, provided that any list was
looked at. -/
def release (r : PageRun) : Paging Unit := do
  let w ← get
  if r.batch = w.batch && w.spare.isSome then set (w.withSpare r.pages) else giveUp r

/-- A copy of a page for this batch.  A page that the batch wrote itself stays as it is. -/
def renew (page : PageRun) : Paging PageRun := do
  if page.batch = (← get).batch then return page
  let copy ← allocate 1
  giveUp page
  return copy

end Paging

end EpochSplit
