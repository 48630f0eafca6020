import EpochSplit.Tick.Range
import Std.Data.ExtTreeMap
/-!
# Metadata

What an archive knows about its epochs: for each epoch the ranges of ticks that were processed
without a gap, and the last processed tick.
-/

namespace EpochSplit

/-- What an archive knows about one epoch. -/
structure EpochMetadata where
  epoch : UInt32
  /-- The processed ranges in stored order; the position of a range is its interval index. -/
  ranges : List TickRange
  lastTick : UInt32
deriving DecidableEq

namespace EpochMetadata

/-- The number of ticks in all ranges together. -/
def tickCount (m : EpochMetadata) : Nat :=
  m.ranges.foldr (fun r count => r.size + count) 0

/-- The listing of one epoch. -/
def render (m : EpochMetadata) : String :=
  s!"Epoch: {m.epoch}\n  - Last processed tick: {m.lastTick}\n  - Tick ranges:\n" ++
    String.join (m.ranges.map fun r => s!"    - {r.start} : {r.stop}\n")

end EpochMetadata

/-- What an archive knows about its epochs, by number of the epoch. -/
structure StoreMetadata where
  epochs : Std.ExtTreeMap UInt32 EpochMetadata := ∅

namespace StoreMetadata

/-- The metadata of an archive without epochs. -/
instance : EmptyCollection StoreMetadata := ⟨{}⟩

/-- Adds what is known about one epoch, in place of what was known before. -/
def insert (s : StoreMetadata) (m : EpochMetadata) : StoreMetadata :=
  ⟨s.epochs.insert m.epoch m⟩

/-- What is known about the epochs of a list; a later entry replaces an earlier one. -/
def ofList (ms : List EpochMetadata) : StoreMetadata :=
  ms.foldl insert ∅

/-- What is known about an epoch. -/
def get? (s : StoreMetadata) (epoch : UInt32) : Option EpochMetadata :=
  s.epochs[epoch]?

/-- The known epochs, in ascending order. -/
def epochNumbers (s : StoreMetadata) : List UInt32 :=
  s.epochs.keys

/-- The entries of the known epochs, in ascending order. -/
def toList (s : StoreMetadata) : List EpochMetadata :=
  s.epochs.toList.map Prod.snd

/-- The listing of all epochs. -/
def render (s : StoreMetadata) : String :=
  String.join (s.toList.map EpochMetadata.render)

theorem pairwise_epochNumbers (s : StoreMetadata) : s.epochNumbers.Pairwise (· < ·) :=
  (Std.ExtTreeMap.ordered_keys (t := s.epochs)).imp fun h => Std.compare_eq_lt.1 h

theorem get?_insert (s : StoreMetadata) (m : EpochMetadata) (epoch : UInt32) :
    (s.insert m).get? epoch = if m.epoch = epoch then some m else s.get? epoch := by
  simp [insert, get?, Std.ExtTreeMap.getElem?_insert]

end StoreMetadata

end EpochSplit
