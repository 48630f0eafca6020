import EpochSplit.Key
import EpochSplit.Record.Conversion
/-!
# Entries of an epoch store

Each record of an archive gives a pair of the store of its epoch: the key is written anew from the
record's own number or id, and the value holds the record's counterpart.  `canonical` reads such a
value and writes it again, which changes nothing about a value that was written here.
-/

namespace EpochSplit.EpochEntry

/-- Tick data of an epoch store, from a pair of an archive. -/
def tickData (e : Entry) : Except CodecFault (Current.TickData × Entry) := do
  let tick ← Key.decodeTick .tickData e.1
  let record := (← Wire.decode Legacy.TickData .tickData e.2).toCurrent
  return (record, Key.word .tickData tick, Wire.encode record)

/-- The votes on a tick as an epoch store holds them, from a pair of an archive.  The full votes are
returned too.  Votes without their common part are refused. -/
def quorumData (e : Entry) : Except CodecFault (Legacy.QuorumTickData × Entry) := do
  let tick ← Key.decodeTick .quorumData e.1
  let full ← Wire.decode Legacy.QuorumTickData .quorumData e.2
  if full.quorumTickStructure.isNone then
    throw (.decode .quorumData s!"quorum data for tick {tick} has no tick structure")
  return (full, Key.word .quorumData tick, Wire.encode full.reduced)

/-- The full votes on the last tick of each interval of an epoch.  An interval is numbered by a
signed 32-bit number. -/
def lastTickQuorumData (epoch : UInt32) (selected : Std.ExtTreeMap Nat Legacy.QuorumTickData) :
    Except CodecFault Entry := do
  let votes ← selected.toList.foldlM (fun votes (interval, quorum) =>
      if interval < 0x80000000 then .ok (votes.insert (Int32.ofNat interval) quorum.toCurrent)
      else
        .error (CodecFault.encode .lastTickQuorumDataPerEpochInterval
          s!"interval index {interval} does not fit in 32 bits"))
    (∅ : Std.ExtTreeMap Int32 Current.QuorumTickData)
  let record : Current.LastTickQuorumDataPerEpochIntervals := ⟨votes⟩
  return (Key.word .lastTickQuorumDataPerEpochInterval epoch, Wire.encode record)

/-- The computor lists of an epoch. -/
def computors (epoch : UInt32) (c : Legacy.Computors) : Entry :=
  (Key.word .computorList epoch, Wire.encode c.toList)

/-- The processed ranges of an epoch, under the epoch that the record itself names. -/
def processedTickIntervals (p : Legacy.ProcessedTickIntervalsPerEpoch) : Entry :=
  (Key.word .processedTickIntervals p.epoch, Wire.encode p.toCurrent)

/-- The last processed tick; an epoch store holds just one. -/
def lastProcessedTick (epoch tick : UInt32) : Entry :=
  let record : Current.ProcessedTick := { tickNumber := tick, epoch }
  (Key.encode .lastProcessedTick .singleton, Wire.encode record)

/-- The vote signature of an epoch. -/
def voteSignature (epoch signature : UInt32) : Entry :=
  (Key.word .targetTickVoteSignature epoch, Wire.encodeWord signature)

/-- A transaction, under the id that the record itself names. -/
def transaction (t : Legacy.Transaction) : Entry :=
  (Key.text .transaction t.txId, Wire.encode t.toCurrent)

/-- The status of a transaction, under the id that the record itself names. -/
def transactionStatus (s : Legacy.TransactionStatus) : Entry :=
  (Key.text .transactionStatus s.txId, Wire.encode s.toCurrent)

/-- The statuses of all transactions of a tick. -/
def tickTransactionsStatus (tick : UInt32) (statuses : List Current.TransactionStatus) : Entry :=
  let record : Current.TickTransactionsStatus := ⟨statuses⟩
  (Key.word .tickTransactionsStatus tick, Wire.encode record)

/-- Reads the value of a record and writes it again. -/
def canonicalAs (M : Type) [Wire.Record M] (ns : Namespace) (value : Bytes) :
    Except CodecFault Bytes :=
  (Wire.decode M ns value).map Wire.encode

/-- The value that is written for the record which a value of an epoch store holds. -/
def canonical (ns : Namespace) (value : Bytes) : Except CodecFault Bytes :=
  match ns with
  | .tickData => canonicalAs Current.TickData ns value
  | .quorumData => canonicalAs Current.QuorumTickDataStored ns value
  | .computorList => canonicalAs Current.ComputorsList ns value
  | .transaction => canonicalAs Current.Transaction ns value
  | .transactionStatus => canonicalAs Current.TransactionStatus ns value
  | .tickTransactionsStatus => canonicalAs Current.TickTransactionsStatus ns value
  | .processedTickIntervals => canonicalAs Current.ProcessedTickIntervalsPerEpoch ns value
  | .lastProcessedTick => canonicalAs Current.ProcessedTick ns value
  | .lastTickQuorumDataPerEpochInterval =>
      canonicalAs Current.LastTickQuorumDataPerEpochIntervals ns value
  | .targetTickVoteSignature => (Wire.decodeWord ns value).map Wire.encodeWord
  | _ => .error (.decode ns "namespace has no v2 epoch record")

end EpochSplit.EpochEntry
