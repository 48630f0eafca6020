import EpochSplit.Namespace
import Std.Data.ExtTreeMap
/-!
# Reports

A run counts the records that it writes, by namespace: for each epoch that it completes, and for
the namespaces that it copies.  Times are counted in milliseconds.
-/

namespace EpochSplit

/-- Numbers of records by namespace. -/
abbrev Tally := Std.ExtTreeMap Namespace Nat

namespace Tally

/-- The number of records of a namespace. -/
def count (t : Tally) (ns : Namespace) : Nat :=
  t[ns]?.getD 0

/-- Counts `n` more records of a namespace. -/
def add (t : Tally) (ns : Namespace) (n : Nat) : Tally :=
  t.insert ns (t.count ns + n)

/-- The number of records of all namespaces. -/
def total (t : Tally) : Nat :=
  t.toList.foldr (fun p total => p.2 + total) 0

@[simp] theorem count_empty (ns : Namespace) : count ∅ ns = 0 := by
  simp [count]

theorem count_add (t : Tally) (ns ns' : Namespace) (n : Nat) :
    (t.add ns n).count ns' = if ns = ns' then t.count ns' + n else t.count ns' := by
  by_cases h : ns = ns'
  · subst h; simp [count, add]
  · simp [count, add, Std.ExtTreeMap.getElem?_insert, h]

end Tally

/-- What a run wrote for one epoch. -/
structure EpochReport where
  epoch : UInt32
  startedAt : Nat
  finishedAt : Option Nat := none
  /-- The records committed, by namespace. -/
  records : Tally := ∅
  compacted : Bool := false

namespace EpochReport

/-- Counts records of a namespace. -/
def add (r : EpochReport) (ns : Namespace) (n : Nat) : EpochReport :=
  { r with records := r.records.add ns n }

/-- The number of records committed for the epoch. -/
def total (r : EpochReport) : Nat := r.records.total

/-- Notes the time at which the epoch was completed. -/
def finish (r : EpochReport) (now : Nat) : EpochReport :=
  { r with finishedAt := some now }

end EpochReport

/-- What a run wrote. -/
structure MigrationReport where
  startedAt : Nat
  finishedAt : Option Nat := none
  /-- The completed epochs, in the order in which they ran. -/
  epochs : List EpochReport := []
  /-- The records copied unchanged, by namespace. -/
  copied : Tally := ∅

namespace MigrationReport

/-- The last report on an epoch. -/
def epoch? (r : MigrationReport) (epoch : UInt32) : Option EpochReport :=
  r.epochs.reverse.find? (·.epoch == epoch)

/-- The number of records written for all epochs and copied. -/
def total (r : MigrationReport) : Nat :=
  r.epochs.foldr (fun e total => e.total + total) r.copied.total

/-- Adds a completed epoch. -/
def push (r : MigrationReport) (e : EpochReport) : MigrationReport :=
  { r with epochs := r.epochs ++ [e] }

/-- Notes the time of the last activity. -/
def touch (r : MigrationReport) (now : Nat) : MigrationReport :=
  { r with finishedAt := some now }

end MigrationReport

end EpochSplit
