import EpochSplit.Epoch.Plan
/-!
# Writing an epoch

An epoch is written in the order of its plan: the metadata, then range by range the tick data, their
transactions and the statuses of these, and at last the votes.  Records are looked up one by one, in
the moment in which they are to be written, and what is written is counted by what the passes say
that they committed.
-/

namespace EpochSplit

/-- What is done to the world `σ`, up to the first failure. -/
abbrev Action (σ : Type) := ExceptT Error (StateM σ)

namespace Action

variable {σ : Type}

/-- Says of a failure what was being done. -/
def within {α : Type} (doing : String) (act : Action σ α) : Action σ α := fun world =>
  let (r, world) := act world
  (Error.inContext doing r, world)

/-- Makes a pass that keeps a state of its own. -/
def ofPass {τ : Type} (pass : σ → Except Error PassStats × Pass σ × τ) : Action σ (PassStats × τ) :=
  fun world =>
    let (r, p, t) := pass world
    (r.map fun stats => (stats, t), p.batch.world)

end Action

/-- Writes what is staged, the last incomplete batch included.  Nothing is scanned. -/
def Channel.write {σ α : Type} (c : Channel σ) (fill : Action (Batch σ) α) :
    Action σ (α × PassStats) := fun world =>
  match fill { world } with
  | (.error e, b) => (.error e, b.world)
  | (.ok a, b) =>
      match c.flush b with
      | (.error e, b) => (.error e, b.world)
      | (.ok (), b) => (.ok (a, Pass.stats ⟨b, 0⟩), b.world)

/-- Stages a record that was looked up. -/
def Channel.stageFound {σ : Type} (c : Channel σ) (found : Except Error Entry) :
    Action (Batch σ) Unit := do
  c.stage (← found)

/-- An epoch to be written. -/
structure EpochJob (σ : Type) where
  source : Source
  /-- Where the records go; each stream of them has a label of its own. -/
  channel : Channel σ
  metadata : EpochMetadata
  /-- Epochs above it carry a vote signature. -/
  threshold : UInt32

namespace EpochJob

variable {σ : Type}

/-- The channel of a stream of records. -/
def stream (job : EpochJob σ) (label : String) : Channel σ := { job.channel with label }

/-! ### The metadata of the epoch -/

/-- Stages the metadata and says of which namespaces they are. -/
def stageMetadata (job : EpochJob σ) (c : Channel σ) : Action (Batch σ) (List Namespace) := do
  let epoch := job.metadata.epoch
  c.stageFound (EpochPlan.computors job.source epoch)
  c.stageFound (EpochPlan.processedTickIntervals job.source epoch)
  c.stage (EpochEntry.lastProcessedTick epoch job.metadata.lastTick)
  let staged := [.computorList, .processedTickIntervals, .lastProcessedTick]
  if job.threshold < epoch then
    c.stageFound (EpochPlan.voteSignature job.source epoch)
    return staged ++ [.targetTickVoteSignature]
  else
    return staged

/-- Writes the metadata and counts one record of each namespace. -/
def writeMetadata (job : EpochJob σ) (report : EpochReport) : Action σ EpochReport := do
  let c := job.stream "epoch metadata"
  let (namespaces, _) ← c.write (job.stageMetadata c)
  return namespaces.foldl (fun report ns => report.add ns 1) report

/-! ### The ticks of a range -/

/-- What is written of tick data; the ids of their transactions are noted. -/
def noteTransactions : Transform EpochPlan.TickTransactions := fun e ids =>
  match EpochEntry.tickData e with
  | .error fault => (.error (.codec fault), ids)
  | .ok (t, entry) =>
      (.ok entry, ids.insert t.tickNumber (ids[t.tickNumber]?.getD [] ++ t.transactionIds))

/-- Writes the tick data of a range and finds the ids of their transactions. -/
def writeTickData (job : EpochJob σ) (r : TickRange) (report : EpochReport) :
    Action σ (EpochPlan.TickTransactions × EpochReport) := do
  let (stats, ids) ← .ofPass fun world =>
    job.source.transcode (.ofTicks .tickData r) (job.stream "tick data") noteTransactions world ∅
  return (ids, report.add .tickData stats.written)

/-- Writes the transactions of given ids, those of each tick in turn. -/
def writeTransactions (job : EpochJob σ) (ids : EpochPlan.TickTransactions)
    (report : EpochReport) : Action σ EpochReport := do
  let c := job.stream "transactions"
  let (_, stats) ← c.write <| (ids.toList.flatMap Prod.snd).forM fun txId =>
    c.stageFound (EpochPlan.transaction job.source txId)
  return report.add .transaction stats.written

/-- Stages the status of a transaction, and keeps and counts it. -/
def stageStatus (job : EpochJob σ) (c : Channel σ)
    (kept : List Current.TransactionStatus × Nat) (txId : String) :
    Action (Batch σ) (List Current.TransactionStatus × Nat) := do
  let status ← EpochPlan.transactionStatus job.source txId
  c.stage (EpochEntry.transactionStatus status)
  return (kept.1 ++ [status.toCurrent], kept.2 + 1)

/-- Stages the statuses of the transactions of a tick, then all of them together, which is done even
for a tick without transactions.  Only the former are counted. -/
def stageStatuses (job : EpochJob σ) (c : Channel σ) (count : Nat) (tick : UInt32 × List String) :
    Action (Batch σ) Nat := do
  let (statuses, count) ← tick.2.foldlM (job.stageStatus c) ([], count)
  c.stage (EpochEntry.tickTransactionsStatus tick.1 statuses)
  return count

/-- Writes the statuses of the transactions of given ids, tick by tick. -/
def writeStatuses (job : EpochJob σ) (ids : EpochPlan.TickTransactions) (report : EpochReport) :
    Action σ EpochReport := do
  let c := job.stream "transaction statuses"
  let (count, _) ← c.write <| ids.toList.foldlM (job.stageStatuses c) 0
  return (report.add .transactionStatus count).add .tickTransactionsStatus ids.size

/-- Writes all that belongs to the ticks of a range. -/
def writeTicks (job : EpochJob σ) (report : EpochReport) (r : TickRange) : Action σ EpochReport :=
  .within s!"migrating ticks {r.text}" do
    let (ids, report) ← (job.writeTickData r report).within "migrating tick data"
    let report ← (job.writeTransactions ids report).within "migrating transactions"
    (job.writeStatuses ids report).within "migrating transaction statuses"

/-! ### The votes -/

/-- Writes the votes on the ticks of a range and folds them. -/
def foldVotes (job : EpochJob σ) (f : Fold Legacy.QuorumTickData) (r : TickRange) :
    Action σ (Fold Legacy.QuorumTickData) :=
  .within s!"folding quorum data {r.text}" do
    let (_, f, _) ← .ofPass fun world =>
      f.transcodeRange job.source (.ofTicks .quorumData r) (job.stream "quorum data")
        (.stateless fun e => (EpochEntry.quorumData e).mapError .codec) world ()
    return f

/-- Writes the record of the last ticks that a fold kept. -/
def writeLastTicks (job : EpochJob σ) (f : Fold Legacy.QuorumTickData) (report : EpochReport) :
    Action σ EpochReport := do
  let c := job.stream "last tick quorum data"
  let (stats, _) ← .ofPass fun world =>
    let (r, p) := f.persist c EpochEntry.lastTickQuorumData world
    (r, p, ())
  return report.add .lastTickQuorumDataPerEpochInterval stats.written

/-- Writes the votes range by range, and then the record of the last ticks. -/
def writeVotes (job : EpochJob σ) (report : EpochReport) : Action σ EpochReport := do
  let f ← job.metadata.ranges.foldlM job.foldVotes (EpochPlan.fold job.metadata)
  job.writeLastTicks f (report.add .quorumData f.stats.written)

/-! ### The epoch -/

/-- Writes the epoch and counts what was written on top of a report. -/
def run (job : EpochJob σ) (report : EpochReport) : Action σ EpochReport := do
  let report ← (job.writeMetadata report).within "migrating epoch metadata"
  let report ← job.metadata.ranges.foldlM job.writeTicks report
  (job.writeVotes report).within "migrating quorum data"

end EpochJob

end EpochSplit
