import EpochSplit.Metadata
import EpochSplit.Record.Legacy
import EpochSplit.Store.Access
/-!
# Reading an archive

The records of an archive by what they are about, and the metadata of the archive: the processed
ranges of each epoch joined with its last processed tick.
-/

namespace EpochSplit.Source

/-- The record under a key of a namespace. -/
def record? (s : Source) (M : Type) [Wire.Record M] (ns : Namespace) (key : Bytes) :
    Except Error (Option M) := do
  match ← (s.get key).mapError .store with
  | none => return none
  | some value => return some (← (Wire.decode M ns value).mapError .codec)

/-- The computors of an epoch. -/
def computors? (s : Source) (epoch : UInt32) : Except Error (Option Legacy.Computors) :=
  s.record? Legacy.Computors .computorList (Key.word .computorList epoch)

/-- The processed ranges of an epoch. -/
def intervals? (s : Source) (epoch : UInt32) :
    Except Error (Option Legacy.ProcessedTickIntervalsPerEpoch) :=
  s.record? Legacy.ProcessedTickIntervalsPerEpoch .processedTickIntervals
    (Key.word .processedTickIntervals epoch)

/-- The transaction of a given id. -/
def transaction? (s : Source) (txId : String) : Except Error (Option Legacy.Transaction) :=
  s.record? Legacy.Transaction .transaction (Key.text .transaction txId)

/-- The status of the transaction of a given id. -/
def status? (s : Source) (txId : String) : Except Error (Option Legacy.TransactionStatus) :=
  s.record? Legacy.TransactionStatus .transactionStatus (Key.text .transactionStatus txId)

/-- The vote signature of an epoch. -/
def voteSignature? (s : Source) (epoch : UInt32) : Except Error (Option UInt32) := do
  match ← (s.get (Key.word .targetTickVoteSignature epoch)).mapError .store with
  | none => return none
  | some value => return some (← (Wire.decodeWord .targetTickVoteSignature value).mapError .codec)

/-- What `read` finds in each pair of a namespace, in the order of the keys. -/
def readAll {α : Type} (s : Source) (ns : Namespace) (read : Entry → Except CodecFault α) :
    Except Error (List α) :=
  (s.items (KeyRange.ofNamespace ns)).mapM fun item =>
    item.bind fun e => (read e).mapError .codec

/-- The processed ranges of all epochs, in the order of the keys. -/
def intervals (s : Source) : Except Error (List Legacy.ProcessedTickIntervalsPerEpoch) :=
  s.readAll .processedTickIntervals fun e =>
    Wire.decode Legacy.ProcessedTickIntervalsPerEpoch .processedTickIntervals e.2

/-- The last processed ticks by epoch. -/
def lastTicks (s : Source) : Except Error (Std.ExtTreeMap UInt32 UInt32) := do
  let pairs ← s.readAll .lastProcessedTickPerEpoch fun e => do
    let epoch ← Key.decodeEpoch .lastProcessedTickPerEpoch e.1
    return (epoch, ← Wire.decodeWord .lastProcessedTickPerEpoch e.2)
  return pairs.foldl (fun ticks p => ticks.insert p.1 p.2) ∅

end Source

/-- What an archive knows about an epoch with the given processed ranges. -/
def EpochMetadata.ofRecord (lastTicks : Std.ExtTreeMap UInt32 UInt32)
    (p : Legacy.ProcessedTickIntervalsPerEpoch) : EpochMetadata where
  epoch := p.epoch
  ranges := p.intervals.map fun i => ⟨i.initialProcessedTick, i.lastProcessedTick⟩
  lastTick := lastTicks[p.epoch]?.getD 0

/-- The metadata of an archive.  Epochs without a processed range are left out, for there is nothing
in them to move. -/
def Source.metadata (s : Source) : Except Error StoreMetadata := do
  let lastTicks ← Error.inContext "reading last processed tick per epoch" s.lastTicks
  let intervals ← Error.inContext "reading processed tick intervals per epoch" s.intervals
  return StoreMetadata.ofList <|
    (intervals.filter (!·.intervals.isEmpty)).map (EpochMetadata.ofRecord lastTicks)

end EpochSplit
