import EpochSplit.Json
import EpochSplit.Report
import EpochSplit.Report.Time
/-!
# Reports as text

The report of a run, as lines for a reader or in JSON.
-/

namespace EpochSplit

/-- How times are written. -/
structure TimeFormat where
  instant : Nat → String := Time.stamp
  /-- The time from one instant to another, in milliseconds. -/
  duration : Nat → String := toString

/-- A tally as an object, in the order of the namespaces. -/
def Tally.toJson (t : Tally) : Json :=
  .object (t.toList.map fun (ns, n) => (ns.name, .natural n))

namespace EpochReport

/-- The report on an epoch in JSON. -/
def toJson (f : TimeFormat) (r : EpochReport) : Json :=
  .object
    [("epoch", .natural r.epoch.toNat),
      ("started_at", .text (f.instant r.startedAt)),
      ("finished_at", (r.finishedAt.map fun t => .text (f.instant t)).getD .null),
      ("records", r.records.toJson),
      ("compacted", .bool r.compacted)]

/-- The time that the epoch took, in milliseconds; an epoch that is not finished took none. -/
def duration (r : EpochReport) : Nat :=
  (r.finishedAt.map (· - r.startedAt)).getD 0

/-- The report on an epoch as lines: the sum of the records first, then their numbers by
namespace. -/
def lines (f : TimeFormat) (r : EpochReport) : List String :=
  let compacted := if r.compacted then ", compacted" else ""
  s!"Epoch {r.epoch}: {r.total} records in {f.duration r.duration} ms{compacted}" ::
    r.records.toList.map fun (ns, n) => s!"  - {ns.name}: {n}"

end EpochReport

namespace MigrationReport

/-- The report of a run in JSON. -/
def toJson (f : TimeFormat) (r : MigrationReport) : Json :=
  .object
    [("started_at", .text (f.instant r.startedAt)),
      ("finished_at", (r.finishedAt.map fun t => .text (f.instant t)).getD .null),
      ("epochs", .array (r.epochs.map (·.toJson f))),
      ("copied", r.copied.toJson)]

/-- The report of a run as lines. -/
def lines (f : TimeFormat) (r : MigrationReport) : List String :=
  r.epochs.flatMap (·.lines f)

end MigrationReport

end EpochSplit
