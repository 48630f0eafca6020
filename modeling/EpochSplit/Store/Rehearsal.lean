import EpochSplit.Migrator
import EpochSplit.Store.Memory
/-!
# Rehearsals

A world in which a run can be rehearsed: an archive and target stores that are kept in memory.
Stores that are opened for the first time are empty, and opening one again finds what it held.  It
can be planned which operations fail and when the run is cancelled.
-/

namespace EpochSplit

/-- The epochs for whose stores an operation fails. -/
structure PlannedFaults where
  onOpen : List UInt32 := []
  onCompact : List UInt32 := []
  onClose : List UInt32 := []

/-- An archive and target stores in memory. -/
structure Rehearsal where
  source : Contents := ∅
  /-- The stores of the epochs. -/
  epochs : Std.ExtTreeMap UInt32 MemoryStore := ∅
  /-- The stores opened by path. -/
  places : Std.ExtTreeMap String MemoryStore := ∅
  /-- Whether the run is to stop. -/
  cancelled : Bool := false
  /-- The number of batches that were taken by all stores together. -/
  commits : Nat := 0
  /-- The number of commits after which the run is cancelled, if it is. -/
  cancelAfter : Option Nat := none
  faults : PlannedFaults := {}

namespace Rehearsal

/-- The reason given for planned faults. -/
def injected : String := "injected"

/-- Counts a commit, and cancels the run if it is time to. -/
def countCommit (w : Rehearsal) : Rehearsal :=
  let commits := w.commits + 1
  { w with commits, cancelled := w.cancelled || w.cancelAfter.any (· ≤ commits) }

/-- The store of an epoch. -/
def epoch (w : Rehearsal) (e : UInt32) : MemoryStore := w.epochs[e]?.getD {}

/-- The store at a path. -/
def place (w : Rehearsal) (path : String) : MemoryStore := w.places[path]?.getD {}

/-- Puts a store in the place of that of an epoch. -/
def setEpoch (w : Rehearsal) (e : UInt32) (s : MemoryStore) : Rehearsal :=
  { w with epochs := w.epochs.insert e s }

/-- Puts a store in the place of that at a path. -/
def setPlace (w : Rehearsal) (path : String) (s : MemoryStore) : Rehearsal :=
  { w with places := w.places.insert path s }

/-- The store of an epoch as one that is written. -/
def epochTarget (e : UInt32) : Target Rehearsal where
  commit durable batch w :=
    match (w.epoch e).commit durable batch with
    | (.ok (), s) => (.ok (), (w.setEpoch e s).countCommit)
    | (.error fault, _) => (.error fault, w)
  compact w :=
    if w.faults.onCompact.contains e then (.error (.compaction injected), w)
    else (.ok (), w.setEpoch e (w.epoch e).compact)
  close w :=
    (if w.faults.onClose.contains e then .error (.close injected) else .ok (),
      w.setEpoch e (w.epoch e).close)

/-- The store at a path as one that is written. -/
def placeTarget (path : String) : Target Rehearsal where
  commit durable batch w :=
    match (w.place path).commit durable batch with
    | (.ok (), s) => (.ok (), (w.setPlace path s).countCommit)
    | (.error fault, _) => (.error fault, w)
  compact w := (.ok (), w.setPlace path (w.place path).compact)
  close w := (.ok (), w.setPlace path (w.place path).close)

/-- Opens the store of an epoch. -/
def openEpoch (e : UInt32) (w : Rehearsal) : Except StoreFault (Target Rehearsal) × Rehearsal :=
  if w.faults.onOpen.contains e then (.error (.openFailed (toString e) injected), w)
  else (.ok (epochTarget e), w.setEpoch e (w.epoch e))

/-- Opens the store at a path. -/
def openPlace (path : String) (w : Rehearsal) : Target Rehearsal × Rehearsal :=
  (placeTarget path, w.setPlace path (w.place path))

/-- How a migrator reaches the stores of a rehearsal.  No time passes in it. -/
def site : Site Rehearsal where
  source w := .ofContents w.source
  openEpoch := openEpoch
  cancelled w := w.cancelled
  now _ := 0

end Rehearsal

end EpochSplit
