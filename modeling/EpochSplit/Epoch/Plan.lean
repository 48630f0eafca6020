import EpochSplit.Archive
import EpochSplit.Epoch.Entry
import EpochSplit.Fold
import EpochSplit.Report
/-!
# The plan of an epoch

All that is written into the store of an epoch, in order, as far as the archive and the metadata of
the epoch determine it.  A plan is a list of streams: first the metadata of the epoch; then for each
processed range the tick data, their transactions and the statuses of these; and at last the votes,
range by range, with the record of the votes on the last tick of each range at the end.  A record
that refers to another is written after it.

Where the archive is at fault, an item of a stream is an error, and what comes after that item has
no meaning.

A plan only says what is to be written.  It is carried out without ever being made: the job of an
epoch looks its records up on the way, with the functions that are defined here, and counts what it
has committed.
-/

namespace EpochSplit

/-- Records of an epoch that are written together. -/
structure EpochStream where
  /-- What is being done while the stream is written, the outermost first. -/
  contexts : List String
  /-- What the stream is called in messages. -/
  label : String
  items : List (Except Error Entry)

namespace EpochPlan

/-- A record that has to be there. -/
def require {α : Type} (found : Except Error (Option α)) (missing : ConsistencyFault) :
    Except Error α := do
  match ← found with
  | some a => return a
  | none => throw (.consistency missing)

/-! ### The metadata of the epoch -/

/-- The computor lists of an epoch. -/
def computors (s : Source) (epoch : UInt32) : Except Error Entry := do
  let c ← require (s.computors? epoch) (.missingRecord .computorList (toString epoch))
  return EpochEntry.computors epoch c

/-- The processed ranges of an epoch; there must be one at least. -/
def processedTickIntervals (s : Source) (epoch : UInt32) : Except Error Entry := do
  let found := (s.intervals? epoch).map fun p? => p?.filter (!·.intervals.isEmpty)
  return EpochEntry.processedTickIntervals (← require found (.emptyTickRanges epoch))

/-- The vote signature of an epoch. -/
def voteSignature (s : Source) (epoch : UInt32) : Except Error Entry := do
  let signature ← require (s.voteSignature? epoch)
    (.missingRecord .targetTickVoteSignature (toString epoch))
  return EpochEntry.voteSignature epoch signature

/-- The stream of the metadata.  Epochs above the threshold carry a vote signature. -/
def metadata (s : Source) (m : EpochMetadata) (threshold : UInt32) : EpochStream :=
  { contexts := ["migrating epoch metadata"]
    label := "epoch metadata"
    items :=
      [computors s m.epoch, processedTickIntervals s m.epoch,
        .ok (EpochEntry.lastProcessedTick m.epoch m.lastTick)] ++
      if threshold < m.epoch then [voteSignature s m.epoch] else [] }

/-! ### The ticks of a range -/

/-- The tick data of a range, with the pairs that hold them in the epoch store. -/
def tickData (s : Source) (r : TickRange) : List (Except Error (Current.TickData × Entry)) :=
  (s.items (KeyRange.ofTicks .tickData r)).map fun item =>
    item.bind fun e => (EpochEntry.tickData e).mapError .codec

/-- The transaction ids of ticks, by the tick that the tick data themselves name. -/
abbrev TickTransactions := Std.ExtTreeMap UInt32 (List String)

/-- The transaction ids in tick data, those of one tick one after the other. -/
def tickTransactions (ticks : List Current.TickData) : TickTransactions :=
  ticks.foldl (fun ids t =>
    ids.insert t.tickNumber (ids[t.tickNumber]?.getD [] ++ t.transactionIds)) ∅

/-- The transaction of a given id. -/
def transaction (s : Source) (txId : String) : Except Error Entry := do
  let t ← require (s.transaction? txId) (.missingRecord .transaction txId)
  return EpochEntry.transaction t

/-- The status of the transaction of a given id. -/
def transactionStatus (s : Source) (txId : String) : Except Error Legacy.TransactionStatus :=
  require (s.status? txId) (.missingRecord .transactionStatus txId)

/-- The statuses of the transactions of a tick one by one, then all of them together. -/
def tickStatuses (s : Source) (tick : UInt32) (txIds : List String) : List (Except Error Entry) :=
  let statuses := txIds.map (transactionStatus s)
  statuses.map (·.map EpochEntry.transactionStatus) ++
    [(statuses.mapM id).map fun found =>
      EpochEntry.tickTransactionsStatus tick (found.map (·.toCurrent))]

/-- The streams of a processed range: the tick data, their transactions and the statuses of
these. -/
def tickRange (s : Source) (r : TickRange) : List EpochStream :=
  let doing := s!"migrating ticks {r.text}"
  let ticks := tickData s r
  let ids := tickTransactions (Fold.records ticks)
  let txIds := ids.toList.flatMap Prod.snd
  [{ contexts := [doing, "migrating tick data"]
     label := "tick data"
     items := ticks.map (·.map Prod.snd) },
    { contexts := [doing, "migrating transactions"]
      label := "transactions"
      items := txIds.map (transaction s) },
    { contexts := [doing, "migrating transaction statuses"]
      label := "transaction statuses"
      items := ids.toList.flatMap fun (tick, txIds) => tickStatuses s tick txIds }]

/-! ### The votes -/

/-- The votes on the ticks of a range, with the pairs that hold them in the epoch store. -/
def quorumData (s : Source) (r : TickRange) : List (Except Error (Legacy.QuorumTickData × Entry)) :=
  (s.items (KeyRange.ofTicks .quorumData r)).map fun item =>
    item.bind fun e => (EpochEntry.quorumData e).mapError .codec

/-- The fold that keeps the votes on the greatest tick of each processed range of an epoch. -/
def fold (m : EpochMetadata) : Fold Legacy.QuorumTickData :=
  { index := .ofEpoch m, prefers := greatestTick }

/-- The streams of the votes: those of each processed range, then the record of the last ticks. -/
def quorum (s : Source) (m : EpochMetadata) : List EpochStream :=
  let votes := m.ranges.map fun r => (r, quorumData s r)
  let all := votes.flatMap Prod.snd
  let last := ((fold m).observeAll (Fold.records all)).kept EpochEntry.lastTickQuorumData
  votes.map (fun (r, items) =>
    { contexts := ["migrating quorum data", s!"folding quorum data {r.text}"]
      label := "quorum data"
      items := (fold m).attributed items }) ++
  [{ contexts := ["migrating quorum data"]
     label := "last tick quorum data"
     items := last }]

end EpochPlan

/-- The plan of an epoch. -/
def epochPlan (s : Source) (m : EpochMetadata) (threshold : UInt32) : List EpochStream :=
  EpochPlan.metadata s m threshold ::
    (m.ranges.flatMap (EpochPlan.tickRange s) ++ EpochPlan.quorum s m)

end EpochSplit
