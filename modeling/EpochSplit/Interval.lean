import EpochSplit.Metadata
import EpochSplit.Error
/-!
# Intervals

Each tick of an epoch is attributed to the first processed range that contains it.  An
`IntervalIndex` knows the ranges of some epochs and answers with the position of that range.
-/

namespace EpochSplit

/-- The position of the first range that contains a tick. -/
def TickRange.indexOf? (ranges : List TickRange) (tick : UInt32) : Option Nat :=
  ranges.findIdx? (·.contains tick)

/-- The processed ranges of some epochs. -/
structure IntervalIndex where
  ranges : Std.ExtTreeMap UInt32 (List TickRange) := ∅

namespace IntervalIndex

/-- Adds the ranges of one epoch, in place of those known before. -/
def insert (i : IntervalIndex) (m : EpochMetadata) : IntervalIndex :=
  ⟨i.ranges.insert m.epoch m.ranges⟩

/-- The index of one epoch. -/
def ofEpoch (m : EpochMetadata) : IntervalIndex :=
  IntervalIndex.insert {} m

/-- The index of all epochs of an archive. -/
def ofStore (s : StoreMetadata) : IntervalIndex :=
  s.toList.foldl insert {}

/-- The position of the first range of the epoch that contains the tick. -/
def find (i : IntervalIndex) (epoch tick : UInt32) : Except ConsistencyFault Nat :=
  match i.ranges[epoch]? with
  | none => .error (.epochMetadataMissing epoch)
  | some ranges =>
      match TickRange.indexOf? ranges tick with
      | none => .error (.tickOutsideIntervals epoch tick)
      | some index => .ok index

end IntervalIndex

end EpochSplit
