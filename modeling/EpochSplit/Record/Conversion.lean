import EpochSplit.Record.Legacy
import EpochSplit.Record.Current
/-!
# From archive records to epoch records

Each record of an archive has a counterpart in the store of its epoch.  Nothing is computed: fields
are kept, except that `reduced` votes lose their salted digests.
-/

namespace EpochSplit.Legacy

/-- The tick data as an epoch store holds it. -/
def TickData.toCurrent (t : TickData) : Current.TickData where
  computorIndex := t.computorIndex
  epoch := t.epoch
  tickNumber := t.tickNumber
  timestamp := t.timestamp
  varStruct := t.varStruct
  timeLock := t.timeLock
  transactionIds := t.transactionIds
  contractFees := t.contractFees
  signatureHex := t.signatureHex

/-- The common part of the votes on a tick as an epoch store holds it. -/
def QuorumTickStructure.toCurrent (s : QuorumTickStructure) : Current.QuorumTickStructure where
  epoch := s.epoch
  tickNumber := s.tickNumber
  timestamp := s.timestamp
  prevResourceTestingDigestHex := s.prevResourceTestingDigestHex
  prevSpectrumDigestHex := s.prevSpectrumDigestHex
  prevUniverseDigestHex := s.prevUniverseDigestHex
  prevComputerDigestHex := s.prevComputerDigestHex
  txDigestHex := s.txDigestHex
  prevTransactionBodyHex := s.prevTransactionBodyHex

/-- The vote of one computor as an epoch store holds it in full. -/
def QuorumDiff.toCurrent (d : QuorumDiff) : Current.QuorumDiff where
  saltedResourceTestingDigestHex := d.saltedResourceTestingDigestHex
  saltedSpectrumDigestHex := d.saltedSpectrumDigestHex
  saltedUniverseDigestHex := d.saltedUniverseDigestHex
  saltedComputerDigestHex := d.saltedComputerDigestHex
  expectedNextTickTxDigestHex := d.expectedNextTickTxDigestHex
  signatureHex := d.signatureHex
  saltedTransactionBodyHex := d.saltedTransactionBodyHex

/-- The vote of one computor without its salted digests. -/
def QuorumDiff.reduced (d : QuorumDiff) : Current.QuorumDiffStored where
  expectedNextTickTxDigestHex := d.expectedNextTickTxDigestHex
  signatureHex := d.signatureHex

/-- The votes on a tick as an epoch store holds them in full. -/
def QuorumTickData.toCurrent (q : QuorumTickData) : Current.QuorumTickData where
  quorumTickStructure := q.quorumTickStructure.map (·.toCurrent)
  quorumDiffPerComputor := q.quorumDiffPerComputor.map fun _ d => d.toCurrent

/-- The votes on a tick as an epoch store holds them for most ticks. -/
def QuorumTickData.reduced (q : QuorumTickData) : Current.QuorumTickDataStored where
  quorumTickStructure := q.quorumTickStructure.map (·.toCurrent)
  quorumDiffPerComputor := q.quorumDiffPerComputor.map fun _ d => d.reduced

/-- A computor list as an epoch store holds it. -/
def Computors.toCurrent (c : Computors) : Current.Computors where
  epoch := c.epoch
  identities := c.identities
  signatureHex := c.signatureHex

/-- The computor lists of an epoch; an archive has just one for each epoch. -/
def Computors.toList (c : Computors) : Current.ComputorsList where
  computors := [c.toCurrent]

/-- A transaction as an epoch store holds it. -/
def Transaction.toCurrent (t : Transaction) : Current.Transaction where
  sourceId := t.sourceId
  destId := t.destId
  amount := t.amount
  tickNumber := t.tickNumber
  inputType := t.inputType
  inputSize := t.inputSize
  inputHex := t.inputHex
  signatureHex := t.signatureHex
  txId := t.txId

/-- The status of a transaction as an epoch store holds it. -/
def TransactionStatus.toCurrent (s : TransactionStatus) : Current.TransactionStatus where
  txId := s.txId
  moneyFlew := s.moneyFlew

/-- A processed range as an epoch store holds it. -/
def ProcessedTickInterval.toCurrent (i : ProcessedTickInterval) :
    Current.ProcessedTickInterval where
  initialProcessedTick := i.initialProcessedTick
  lastProcessedTick := i.lastProcessedTick

/-- The processed ranges of an epoch as its store holds them. -/
def ProcessedTickIntervalsPerEpoch.toCurrent (p : ProcessedTickIntervalsPerEpoch) :
    Current.ProcessedTickIntervalsPerEpoch where
  epoch := p.epoch
  intervals := p.intervals.map (·.toCurrent)

end EpochSplit.Legacy
