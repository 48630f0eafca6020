import EpochSplit.Key
import EpochSplit.Record.Legacy
import EpochSplit.Store.Contents
import EpochSplit.Tick.Range
/-!
# Sample archives

Archives made up for trials.  An epoch is described by its processed ranges, and each of its ticks
gets tick data, votes, transactions and statuses that can be told apart from those of all other
ticks.
-/

namespace EpochSplit.SampleArchive

/-! ### Names -/

/-- A text made at least sixty characters long by adding a character at its end. -/
def padded (c : Char) (cs : List Char) : String :=
  String.ofList (cs ++ List.replicate (60 - cs.length) c)

/-- The letter that stands for a digit, where `a` is the letter for zero; other characters stand for
themselves. -/
def letter (a : Char) (c : Char) : Char :=
  if c.isDigit then Char.ofNat (a.toNat + (c.toNat - 48)) else c

/-- The id of a transaction of a tick: sixty lower-case letters. -/
def txId (epoch tick : UInt32) (slot : Nat) : String :=
  padded 'x' (s!"e{epoch}t{tick}s{slot}".toList.map (letter 'a'))

/-- An identity: sixty upper-case letters. -/
def identity (n : Nat) : String :=
  padded 'X' ((toString n).toList.map (letter 'A'))

/-! ### Records -/

/-- The vote of a computor on a tick. -/
def quorumDiff (tick computor : UInt32) : Legacy.QuorumDiff where
  saltedResourceTestingDigestHex := s!"rt{computor}"
  saltedSpectrumDigestHex := s!"sp{computor}"
  saltedUniverseDigestHex := s!"un{computor}"
  saltedComputerDigestHex := s!"co{computor}"
  expectedNextTickTxDigestHex := s!"next{tick}-{computor}"
  signatureHex := s!"sig{tick}-{computor}"
  saltedTransactionBodyHex := s!"tb{computor}"

/-- The votes of two computors on a tick. -/
def quorumTickData (epoch tick : UInt32) : Legacy.QuorumTickData where
  quorumTickStructure := some
    { epoch, tickNumber := tick, timestamp := tick.toUInt64 * 1000, txDigestHex := s!"txd{tick}" }
  quorumDiffPerComputor :=
    Std.ExtTreeMap.ofList [((0 : UInt32), quorumDiff tick 0), (1, quorumDiff tick 1)]

/-- A transaction of a tick. -/
def transaction (epoch tick : UInt32) (slot : Nat) : Legacy.Transaction where
  sourceId := identity slot
  destId := identity (slot + 1)
  amount := Int64.ofNat (tick.toNat + slot)
  tickNumber := tick
  inputHex := "00ff"
  signatureHex := "txsig" ++ txId epoch tick slot
  txId := txId epoch tick slot

/-- The tick data of a tick with a number of transactions. -/
def tickData (epoch tick : UInt32) (transactions : Nat) : Legacy.TickData where
  computorIndex := tick % 676
  epoch := epoch
  tickNumber := tick
  timestamp := tick.toUInt64 * 1000
  transactionIds := (List.range transactions).map (txId epoch tick)
  contractFees := [Int64.ofNat tick.toNat]
  signatureHex := s!"ticksig{tick}"

/-! ### Epochs -/

/-- What an epoch is to hold. -/
structure EpochSample where
  epoch : UInt32
  ranges : List TickRange
  transactionsPerTick : Nat := 1
  /-- The last processed tick, if it is to be recorded. -/
  lastTick : Option UInt32 := ranges.getLast?.map (·.stop)

namespace EpochSample

/-- The ticks of all ranges. -/
def ticks (s : EpochSample) : List UInt32 :=
  s.ranges.flatMap fun r => (List.range' r.start.toNat r.size).map UInt32.ofNat

/-- The pairs of one tick. -/
def tickEntries (s : EpochSample) (tick : UInt32) : List Entry :=
  (List.range s.transactionsPerTick).flatMap (fun slot =>
    let id := txId s.epoch tick slot
    let status : Legacy.TransactionStatus := { txId := id, moneyFlew := slot % 2 == 0 }
    [(Key.text .transaction id, Wire.encode (transaction s.epoch tick slot)),
      (Key.text .transactionStatus id, Wire.encode status)]) ++
  [(Key.word .tickData tick, Wire.encode (tickData s.epoch tick s.transactionsPerTick)),
    (Key.word .quorumData tick, Wire.encode (quorumTickData s.epoch tick))]

/-- The pairs of the epoch: its computors, its processed ranges, its last processed tick, its vote
signature and its ticks. -/
def entries (s : EpochSample) : List Entry :=
  let computors : Legacy.Computors :=
    { epoch := s.epoch
      identities := (List.range 4).map identity
      signatureHex := s!"computors{s.epoch}" }
  let intervals : Legacy.ProcessedTickIntervalsPerEpoch :=
    { epoch := s.epoch
      intervals := s.ranges.map fun r =>
        { initialProcessedTick := r.start, lastProcessedTick := r.stop } }
  [(Key.word .computorList s.epoch, Wire.encode computors),
    (Key.word .processedTickIntervals s.epoch, Wire.encode intervals)] ++
  s.lastTick.toList.map (fun tick =>
    (Key.word .lastProcessedTickPerEpoch s.epoch, Wire.encodeWord tick)) ++
  [(Key.word .targetTickVoteSignature s.epoch, Wire.encodeWord (0xC0DE0000 ||| s.epoch))] ++
  s.ticks.flatMap s.tickEntries

end EpochSample

/-! ### The whole archive -/

/-- Pairs of the namespaces that belong to no epoch. -/
def globalEntries (lastTick lastEpoch : UInt32) : List Entry :=
  let processed : Legacy.ProcessedTick := { tickNumber := lastTick, epoch := lastEpoch }
  [(Key.encode .lastProcessedTick .singleton, Wire.encode processed),
    (Key.encode .skippedTicksInterval .singleton, [0x0A, 0x00])] ++
  [1, 2, 3].flatMap (fun n : UInt8 =>
    [(Key.numeric .chainDigest n.toUInt64, List.replicate 32 n),
      (Key.numeric .storeDigest n.toUInt64, List.replicate 32 (~~~n))]) ++
  [(Key.composite .identityTransferTransactions (identity 7) 2, Bytes.ofText "transfers"),
    (Key.word .emptyTicksPerEpoch lastEpoch, [0, 0, 0, 5])]

/-- A step in making up an archive. -/
inductive Item where
  | epoch (sample : EpochSample)
  | globals (lastTick lastEpoch : UInt32)
  | put (entry : Entry)
  | without (key : Bytes)

/-- Takes one step. -/
def add (c : Contents) : Item → Contents
  | .epoch sample => c.overlay sample.entries
  | .globals lastTick lastEpoch => c.overlay (globalEntries lastTick lastEpoch)
  | .put entry => c.insert entry.1 entry.2
  | .without key => c.erase key

/-- The archive that a list of steps makes up. -/
def ofItems (items : List Item) : Contents :=
  items.foldl add ∅

end EpochSplit.SampleArchive
