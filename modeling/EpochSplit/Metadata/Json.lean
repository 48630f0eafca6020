import EpochSplit.Json
import EpochSplit.Metadata
/-!
# Metadata in JSON

Metadata are written as an object with one member for each epoch, named by the number of the epoch,
in ascending order.  They are read back from such an object; each record may also be given as the
array of its fields.
-/

namespace EpochSplit

/-- A range of ticks as an object. -/
def TickRange.toJson (r : TickRange) : Json :=
  .object [("start", .natural r.start.toNat), ("end", .natural r.stop.toNat)]

/-- Reads a range of ticks. -/
def TickRange.ofJson? (j : Json) : Option TickRange :=
  match j.fields? ["start", "end"] with
  | some [start, stop] => do
      return ⟨← start.toWord?, ← stop.toWord?⟩
  | _ => none

/-- What is known about an epoch as an object. -/
def EpochMetadata.toJson (m : EpochMetadata) : Json :=
  .object
    [("epoch", .natural m.epoch.toNat),
      ("processed_tick_ranges", .array (m.ranges.map TickRange.toJson)),
      ("last_processed_tick", .natural m.lastTick.toNat)]

/-- Reads what is known about an epoch. -/
def EpochMetadata.ofJson? (j : Json) : Option EpochMetadata :=
  match j.fields? ["epoch", "processed_tick_ranges", "last_processed_tick"] with
  | some [epoch, .array ranges, lastTick] => do
      return ⟨← epoch.toWord?, ← ranges.mapM TickRange.ofJson?, ← lastTick.toWord?⟩
  | _ => none

namespace StoreMetadata

/-- Metadata as an object. -/
def toJson (s : StoreMetadata) : Json :=
  .object
    [("epochs", .object (s.epochs.toList.map fun p => (toString p.1.toNat, p.2.toJson)))]

/-- Reads metadata.  The name of a member is a plain number, and a later member of the same name
replaces an earlier one. -/
def ofJson? (j : Json) : Option StoreMetadata :=
  match j.fields? ["epochs"] with
  | some [.object members] => do
      let entries ← members.mapM fun (key, j) => do
        return ((← Json.word? key), (← EpochMetadata.ofJson? j))
      return ⟨entries.foldl (fun epochs p => epochs.insert p.1 p.2) ∅⟩
  | _ => none

/-- Reads metadata from a text. -/
def parse? (text : String) : Option StoreMetadata :=
  (Json.parse? text).bind ofJson?

end StoreMetadata

end EpochSplit
