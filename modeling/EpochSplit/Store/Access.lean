import EpochSplit.Error
import EpochSplit.Store.Contents
/-!
# Access to stores

All that a run asks of the archive is to look up a key and to scan a range of keys, and all that it
asks of the store of an epoch is to take a batch of pairs, to compact itself and to close.  A
`Source` answers the former.  A `Target` does the latter to a world of type `σ`, which holds the
store together with all else that a run may touch.
-/

namespace EpochSplit

/-- A store that is read. -/
structure Source where
  /-- The value under a key. -/
  get : Bytes → Except StoreFault (Option Bytes)
  /-- The pairs whose key lies in a range, in ascending order. -/
  scan : KeyRange → Except StoreFault (List Entry)

namespace Source

/-- The store that holds the given contents. -/
def ofContents (c : Contents) : Source where
  get key := .ok (c.get? key)
  scan r := .ok (c.scan r)

/-- Hands pairs to a visitor one after the other, up to the first at which it fails. -/
def visitAll {α : Type} (visit : Entry → α → Except Error Unit × α) :
    List Entry → α → Except Error Unit × α
  | [], a => (.ok (), a)
  | e :: entries, a =>
      match visit e a with
      | (.ok (), a) => visitAll visit entries a
      | failed => failed

/-- Hands the pairs whose key lies in a range to a visitor, in ascending order, up to the first at
which it fails. -/
def visit {α : Type} (s : Source) (r : KeyRange) (visit : Entry → α → Except Error Unit × α)
    (a : α) : Except Error Unit × α :=
  match s.scan r with
  | .ok entries => visitAll visit entries a
  | .error fault => (.error (.store fault), a)

/-- The pairs whose key lies in a range as items of a stream; a scan that fails is a single item. -/
def items (s : Source) (r : KeyRange) : List (Except Error Entry) :=
  match s.scan r with
  | .ok entries => entries.map .ok
  | .error fault => [.error (.store fault)]

@[simp] theorem items_ofContents (c : Contents) (r : KeyRange) :
    (ofContents c).items r = (c.scan r).map .ok := rfl

end Source

/-- A store that is written, as a part of the world `σ`. -/
structure Target (σ : Type) where
  /-- Writes the pairs of a batch, all or none.  A durable commit has reached the disk when it is
  over. -/
  commit : (durable : Bool) → List Entry → σ → Except StoreFault Unit × σ
  /-- Gives back the room that the store no longer uses. -/
  compact : σ → Except StoreFault Unit × σ
  /-- Gives the store back.  It is closed even where that reports a fault. -/
  close : σ → Except StoreFault Unit × σ

end EpochSplit
