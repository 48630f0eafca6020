import EpochSplit.Store.Access
/-!
# Batches

Records are staged and committed in batches of bounded size, so that a run never holds more than one
batch in memory.  A run is cancelled only right after a batch was committed: whatever was staged
until then has been written.
-/

namespace EpochSplit

/-- Where a stream of records goes and how. -/
structure Channel (σ : Type) where
  /-- What takes the batches. -/
  target : Target σ
  /-- Whether the run is to stop. -/
  cancelled : σ → Bool
  /-- The number of records staged before each commit; zero counts as one. -/
  limit : Nat
  /-- Whether a commit has to reach the disk. -/
  durable : Bool := true
  /-- What the stream is called in messages. -/
  label : String

/-- A stream that is being written into the world. -/
structure Batch (σ : Type) where
  world : σ
  /-- The records that are not committed yet. -/
  staged : Array Entry := #[]
  /-- The number of records committed. -/
  written : Nat := 0
  /-- The number of commits. -/
  flushes : Nat := 0

namespace Channel

variable {σ : Type}

/-- Commits what is staged.  Where the commit is refused, it stays staged. -/
def flush (c : Channel σ) (b : Batch σ) : Except Error Unit × Batch σ :=
  if b.staged.isEmpty then (.ok (), b)
  else
    match c.target.commit c.durable b.staged.toList b.world with
    | (.ok (), world) =>
        (.ok (), { world, written := b.written + b.staged.size, flushes := b.flushes + 1 })
    | (.error fault, world) =>
        (.error (.context s!"committing {c.label} batch" (.store fault)), { b with world })

/-- Stages a record and commits once the limit is reached; only then a cancellation is noticed. -/
def stage (c : Channel σ) (e : Entry) (b : Batch σ) : Except Error Unit × Batch σ :=
  let b := { b with staged := b.staged.push e }
  if b.staged.size < max c.limit 1 then (.ok (), b)
  else
    match c.flush b with
    | (.ok (), b) =>
        if c.cancelled b.world then (.error (.run (.cancelled b.written)), b) else (.ok (), b)
    | failed => failed

end Channel

end EpochSplit
