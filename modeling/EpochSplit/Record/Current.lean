import EpochSplit.Wire.Record
/-!
# Records of an epoch store

The records that the store of one epoch holds, and their layouts.  They follow the records of an
archive, except that the votes of most ticks are kept without the salted digests, the statuses of a
tick are also kept together, and the full votes are kept for the last tick of each processed range.
-/

namespace EpochSplit.Current

/-- The ordered transactions of a tick, as the computor that led the tick published them. -/
structure TickData where
  computorIndex : UInt32 := 0
  epoch : UInt32 := 0
  tickNumber : UInt32 := 0
  timestamp : UInt64 := 0
  varStruct : Bytes := []
  timeLock : Bytes := []
  transactionIds : List String := []
  contractFees : List Int64 := []
  signatureHex : String := ""
deriving DecidableEq

/-- The layout of `TickData`. -/
def TickData.schema : Wire.Schema TickData where
  name := "TickData"
  empty := {}
  fields :=
    [⟨1, "computor_index", .scalar .uint32,
        (·.computorIndex), fun m v => { m with computorIndex := v }⟩,
      ⟨2, "epoch", .scalar .uint32, (·.epoch), fun m v => { m with epoch := v }⟩,
      ⟨3, "tick_number", .scalar .uint32, (·.tickNumber), fun m v => { m with tickNumber := v }⟩,
      ⟨4, "timestamp", .scalar .uint64, (·.timestamp), fun m v => { m with timestamp := v }⟩,
      ⟨5, "var_struct", .scalar .bytes, (·.varStruct), fun m v => { m with varStruct := v }⟩,
      ⟨6, "time_lock", .scalar .bytes, (·.timeLock), fun m v => { m with timeLock := v }⟩,
      ⟨7, "transaction_ids", .repeated .text,
        (·.transactionIds), fun m v => { m with transactionIds := v }⟩,
      ⟨8, "contract_fees", .packed .int64,
        (·.contractFees), fun m v => { m with contractFees := v }⟩,
      ⟨9, "signature_hex", .scalar .text,
        (·.signatureHex), fun m v => { m with signatureHex := v }⟩]

instance : Wire.Record TickData := ⟨TickData.schema⟩

/-- What the computors agreed on for a tick. -/
structure QuorumTickStructure where
  epoch : UInt32 := 0
  tickNumber : UInt32 := 0
  timestamp : UInt64 := 0
  prevResourceTestingDigestHex : String := ""
  prevSpectrumDigestHex : String := ""
  prevUniverseDigestHex : String := ""
  prevComputerDigestHex : String := ""
  txDigestHex : String := ""
  prevTransactionBodyHex : String := ""
deriving DecidableEq

/-- The layout of `QuorumTickStructure`. -/
def QuorumTickStructure.schema : Wire.Schema QuorumTickStructure where
  name := "QuorumTickStructure"
  empty := {}
  fields :=
    [⟨1, "epoch", .scalar .uint32, (·.epoch), fun m v => { m with epoch := v }⟩,
      ⟨2, "tick_number", .scalar .uint32, (·.tickNumber), fun m v => { m with tickNumber := v }⟩,
      ⟨3, "timestamp", .scalar .uint64, (·.timestamp), fun m v => { m with timestamp := v }⟩,
      ⟨4, "prev_resource_testing_digest_hex", .scalar .text,
        (·.prevResourceTestingDigestHex), fun m v => { m with prevResourceTestingDigestHex := v }⟩,
      ⟨5, "prev_spectrum_digest_hex", .scalar .text,
        (·.prevSpectrumDigestHex), fun m v => { m with prevSpectrumDigestHex := v }⟩,
      ⟨6, "prev_universe_digest_hex", .scalar .text,
        (·.prevUniverseDigestHex), fun m v => { m with prevUniverseDigestHex := v }⟩,
      ⟨7, "prev_computer_digest_hex", .scalar .text,
        (·.prevComputerDigestHex), fun m v => { m with prevComputerDigestHex := v }⟩,
      ⟨8, "tx_digest_hex", .scalar .text, (·.txDigestHex), fun m v => { m with txDigestHex := v }⟩,
      ⟨9, "prev_transaction_body_hex", .scalar .text,
        (·.prevTransactionBodyHex), fun m v => { m with prevTransactionBodyHex := v }⟩]

instance : Wire.Record QuorumTickStructure := ⟨QuorumTickStructure.schema⟩

/-- What one computor's vote on a tick adds to the common part. -/
structure QuorumDiff where
  saltedResourceTestingDigestHex : String := ""
  saltedSpectrumDigestHex : String := ""
  saltedUniverseDigestHex : String := ""
  saltedComputerDigestHex : String := ""
  expectedNextTickTxDigestHex : String := ""
  signatureHex : String := ""
  saltedTransactionBodyHex : String := ""
deriving DecidableEq

/-- The layout of `QuorumDiff`. -/
def QuorumDiff.schema : Wire.Schema QuorumDiff where
  name := "QuorumDiff"
  empty := {}
  fields :=
    [⟨1, "salted_resource_testing_digest_hex", .scalar .text,
        (·.saltedResourceTestingDigestHex),
        fun m v => { m with saltedResourceTestingDigestHex := v }⟩,
      ⟨2, "salted_spectrum_digest_hex", .scalar .text,
        (·.saltedSpectrumDigestHex), fun m v => { m with saltedSpectrumDigestHex := v }⟩,
      ⟨3, "salted_universe_digest_hex", .scalar .text,
        (·.saltedUniverseDigestHex), fun m v => { m with saltedUniverseDigestHex := v }⟩,
      ⟨4, "salted_computer_digest_hex", .scalar .text,
        (·.saltedComputerDigestHex), fun m v => { m with saltedComputerDigestHex := v }⟩,
      ⟨5, "expected_next_tick_tx_digest_hex", .scalar .text,
        (·.expectedNextTickTxDigestHex), fun m v => { m with expectedNextTickTxDigestHex := v }⟩,
      ⟨6, "signature_hex", .scalar .text,
        (·.signatureHex), fun m v => { m with signatureHex := v }⟩,
      ⟨7, "salted_transaction_body_hex", .scalar .text,
        (·.saltedTransactionBodyHex), fun m v => { m with saltedTransactionBodyHex := v }⟩]

instance : Wire.Record QuorumDiff := ⟨QuorumDiff.schema⟩

/-- The votes of the computors on a tick: the common part, and what each computor adds, by its
index. -/
structure QuorumTickData where
  quorumTickStructure : Option QuorumTickStructure := none
  quorumDiffPerComputor : Std.ExtTreeMap UInt32 QuorumDiff := ∅

/-- The layout of `QuorumTickData`. -/
def QuorumTickData.schema : Wire.Schema QuorumTickData where
  name := "QuorumTickData"
  empty := {}
  fields :=
    [⟨1, "quorum_tick_structure", .optional QuorumTickStructure.schema,
        (·.quorumTickStructure), fun m v => { m with quorumTickStructure := v }⟩,
      ⟨2, "quorum_diff_per_computor", .map .uint32 QuorumDiff.schema,
        (·.quorumDiffPerComputor), fun m v => { m with quorumDiffPerComputor := v }⟩]

instance : Wire.Record QuorumTickData := ⟨QuorumTickData.schema⟩

/-- The part of a computor's vote that is kept for every tick. -/
structure QuorumDiffStored where
  expectedNextTickTxDigestHex : String := ""
  signatureHex : String := ""
deriving DecidableEq

/-- The layout of `QuorumDiffStored`. -/
def QuorumDiffStored.schema : Wire.Schema QuorumDiffStored where
  name := "QuorumDiffStored"
  empty := {}
  fields :=
    [⟨1, "expected_next_tick_tx_digest_hex", .scalar .text,
        (·.expectedNextTickTxDigestHex), fun m v => { m with expectedNextTickTxDigestHex := v }⟩,
      ⟨2, "signature_hex", .scalar .text,
        (·.signatureHex), fun m v => { m with signatureHex := v }⟩]

instance : Wire.Record QuorumDiffStored := ⟨QuorumDiffStored.schema⟩

/-- The votes of the computors on a tick, without the salted digests. -/
structure QuorumTickDataStored where
  quorumTickStructure : Option QuorumTickStructure := none
  quorumDiffPerComputor : Std.ExtTreeMap UInt32 QuorumDiffStored := ∅

/-- The layout of `QuorumTickDataStored`. -/
def QuorumTickDataStored.schema : Wire.Schema QuorumTickDataStored where
  name := "QuorumTickDataStored"
  empty := {}
  fields :=
    [⟨1, "quorum_tick_structure", .optional QuorumTickStructure.schema,
        (·.quorumTickStructure), fun m v => { m with quorumTickStructure := v }⟩,
      ⟨2, "quorum_diff_per_computor", .map .uint32 QuorumDiffStored.schema,
        (·.quorumDiffPerComputor), fun m v => { m with quorumDiffPerComputor := v }⟩]

instance : Wire.Record QuorumTickDataStored := ⟨QuorumTickDataStored.schema⟩

/-- The full votes on the last tick of each processed range, by the position of the range. -/
structure LastTickQuorumDataPerEpochIntervals where
  quorumDataPerInterval : Std.ExtTreeMap Int32 QuorumTickData := ∅

/-- The layout of `LastTickQuorumDataPerEpochIntervals`. -/
def LastTickQuorumDataPerEpochIntervals.schema :
    Wire.Schema LastTickQuorumDataPerEpochIntervals where
  name := "LastTickQuorumDataPerEpochIntervals"
  empty := {}
  fields :=
    [⟨1, "quorum_data_per_interval", .map .int32 QuorumTickData.schema,
        (·.quorumDataPerInterval), fun m v => { m with quorumDataPerInterval := v }⟩]

instance : Wire.Record LastTickQuorumDataPerEpochIntervals :=
  ⟨LastTickQuorumDataPerEpochIntervals.schema⟩

/-- The computors of an epoch. -/
structure Computors where
  epoch : UInt32 := 0
  identities : List String := []
  signatureHex : String := ""
deriving DecidableEq

/-- The layout of `Computors`. -/
def Computors.schema : Wire.Schema Computors where
  name := "Computors"
  empty := {}
  fields :=
    [⟨1, "epoch", .scalar .uint32, (·.epoch), fun m v => { m with epoch := v }⟩,
      ⟨2, "identities", .repeated .text, (·.identities), fun m v => { m with identities := v }⟩,
      ⟨3, "signature_hex", .scalar .text,
        (·.signatureHex), fun m v => { m with signatureHex := v }⟩]

instance : Wire.Record Computors := ⟨Computors.schema⟩

/-- The computor lists of an epoch. -/
structure ComputorsList where
  computors : List Computors := []
deriving DecidableEq

/-- The layout of `ComputorsList`. -/
def ComputorsList.schema : Wire.Schema ComputorsList where
  name := "ComputorsList"
  empty := {}
  fields :=
    [⟨1, "computors", .records Computors.schema,
        (·.computors), fun m v => { m with computors := v }⟩]

instance : Wire.Record ComputorsList := ⟨ComputorsList.schema⟩

/-- A transaction. -/
structure Transaction where
  sourceId : String := ""
  destId : String := ""
  amount : Int64 := 0
  tickNumber : UInt32 := 0
  inputType : UInt32 := 0
  inputSize : UInt32 := 0
  inputHex : String := ""
  signatureHex : String := ""
  txId : String := ""
deriving DecidableEq

/-- The layout of `Transaction`. -/
def Transaction.schema : Wire.Schema Transaction where
  name := "Transaction"
  empty := {}
  fields :=
    [⟨1, "source_id", .scalar .text, (·.sourceId), fun m v => { m with sourceId := v }⟩,
      ⟨2, "dest_id", .scalar .text, (·.destId), fun m v => { m with destId := v }⟩,
      ⟨3, "amount", .scalar .int64, (·.amount), fun m v => { m with amount := v }⟩,
      ⟨4, "tick_number", .scalar .uint32, (·.tickNumber), fun m v => { m with tickNumber := v }⟩,
      ⟨5, "input_type", .scalar .uint32, (·.inputType), fun m v => { m with inputType := v }⟩,
      ⟨6, "input_size", .scalar .uint32, (·.inputSize), fun m v => { m with inputSize := v }⟩,
      ⟨7, "input_hex", .scalar .text, (·.inputHex), fun m v => { m with inputHex := v }⟩,
      ⟨8, "signature_hex", .scalar .text,
        (·.signatureHex), fun m v => { m with signatureHex := v }⟩,
      ⟨9, "tx_id", .scalar .text, (·.txId), fun m v => { m with txId := v }⟩]

instance : Wire.Record Transaction := ⟨Transaction.schema⟩

/-- Whether the amount of a transaction was moved. -/
structure TransactionStatus where
  txId : String := ""
  moneyFlew : Bool := false
deriving DecidableEq

/-- The layout of `TransactionStatus`. -/
def TransactionStatus.schema : Wire.Schema TransactionStatus where
  name := "TransactionStatus"
  empty := {}
  fields :=
    [⟨1, "tx_id", .scalar .text, (·.txId), fun m v => { m with txId := v }⟩,
      ⟨2, "money_flew", .scalar .bool, (·.moneyFlew), fun m v => { m with moneyFlew := v }⟩]

instance : Wire.Record TransactionStatus := ⟨TransactionStatus.schema⟩

/-- The statuses of the transactions of a tick, in their order. -/
structure TickTransactionsStatus where
  transactions : List TransactionStatus := []
deriving DecidableEq

/-- The layout of `TickTransactionsStatus`. -/
def TickTransactionsStatus.schema : Wire.Schema TickTransactionsStatus where
  name := "TickTransactionsStatus"
  empty := {}
  fields :=
    [⟨1, "transactions", .records TransactionStatus.schema,
        (·.transactions), fun m v => { m with transactions := v }⟩]

instance : Wire.Record TickTransactionsStatus := ⟨TickTransactionsStatus.schema⟩

/-- A range of ticks that was processed without a gap, both ends included. -/
structure ProcessedTickInterval where
  initialProcessedTick : UInt32 := 0
  lastProcessedTick : UInt32 := 0
deriving DecidableEq

/-- The layout of `ProcessedTickInterval`. -/
def ProcessedTickInterval.schema : Wire.Schema ProcessedTickInterval where
  name := "ProcessedTickInterval"
  empty := {}
  fields :=
    [⟨1, "initial_processed_tick", .scalar .uint32,
        (·.initialProcessedTick), fun m v => { m with initialProcessedTick := v }⟩,
      ⟨2, "last_processed_tick", .scalar .uint32,
        (·.lastProcessedTick), fun m v => { m with lastProcessedTick := v }⟩]

instance : Wire.Record ProcessedTickInterval := ⟨ProcessedTickInterval.schema⟩

/-- The processed ranges of an epoch. -/
structure ProcessedTickIntervalsPerEpoch where
  epoch : UInt32 := 0
  intervals : List ProcessedTickInterval := []
deriving DecidableEq

/-- The layout of `ProcessedTickIntervalsPerEpoch`. -/
def ProcessedTickIntervalsPerEpoch.schema : Wire.Schema ProcessedTickIntervalsPerEpoch where
  name := "ProcessedTickIntervalsPerEpoch"
  empty := {}
  fields :=
    [⟨1, "epoch", .scalar .uint32, (·.epoch), fun m v => { m with epoch := v }⟩,
      ⟨2, "intervals", .records ProcessedTickInterval.schema,
        (·.intervals), fun m v => { m with intervals := v }⟩]

instance : Wire.Record ProcessedTickIntervalsPerEpoch := ⟨ProcessedTickIntervalsPerEpoch.schema⟩

/-- A tick and the epoch that it belongs to. -/
structure ProcessedTick where
  tickNumber : UInt32 := 0
  epoch : UInt32 := 0
deriving DecidableEq

/-- The layout of `ProcessedTick`. -/
def ProcessedTick.schema : Wire.Schema ProcessedTick where
  name := "ProcessedTick"
  empty := {}
  fields :=
    [⟨1, "tick_number", .scalar .uint32, (·.tickNumber), fun m v => { m with tickNumber := v }⟩,
      ⟨2, "epoch", .scalar .uint32, (·.epoch), fun m v => { m with epoch := v }⟩]

instance : Wire.Record ProcessedTick := ⟨ProcessedTick.schema⟩

end EpochSplit.Current
