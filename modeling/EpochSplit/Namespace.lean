import EpochSplit.Text.Blank
/-!
# Namespaces

A store holds sixteen kinds of record side by side.  Each kind is a namespace: its name appears in
settings, reports and messages, its tag is the first byte of all its keys, and its shape says what
follows the tag.
-/

namespace EpochSplit

/-- The kinds of record in a store, in the order of their tags. -/
inductive Namespace where
  | tickData
  | quorumData
  | computorList
  | transaction
  | lastProcessedTick
  | lastProcessedTickPerEpoch
  | skippedTicksInterval
  | identityTransferTransactions
  | chainDigest
  | processedTickIntervals
  | tickTransactionsStatus
  | transactionStatus
  | storeDigest
  | emptyTicksPerEpoch
  | lastTickQuorumDataPerEpochInterval
  | targetTickVoteSignature
deriving DecidableEq

/-- What follows the tag in the keys of a namespace. -/
inductive KeyShape where
  /-- Nothing: the namespace holds one record. -/
  | singleton
  /-- A number in eight bytes, most significant first. -/
  | numeric
  /-- A text; `upper` bounds the texts that are in use. -/
  | text (upper : String)
  /-- A text and a number in eight bytes; `upper` bounds the texts that are in use. -/
  | composite (upper : String)
deriving DecidableEq

namespace Namespace

/-- Every namespace, in the order of the tags. -/
def all : List Namespace :=
  [tickData, quorumData, computorList, transaction, lastProcessedTick, lastProcessedTickPerEpoch,
    skippedTicksInterval, identityTransferTransactions, chainDigest, processedTickIntervals,
    tickTransactionsStatus, transactionStatus, storeDigest, emptyTicksPerEpoch,
    lastTickQuorumDataPerEpochInterval, targetTickVoteSignature]

/-- The namespaces whose records describe the whole archive and belong to no epoch. -/
def global : List Namespace :=
  [lastProcessedTick, lastProcessedTickPerEpoch, skippedTicksInterval,
    identityTransferTransactions, chainDigest, storeDigest, emptyTicksPerEpoch]

/-- The name used in settings, reports and messages. -/
def name : Namespace → String
  | tickData => "tick_data"
  | quorumData => "quorum_data"
  | computorList => "computor_list"
  | transaction => "transaction"
  | lastProcessedTick => "last_processed_tick"
  | lastProcessedTickPerEpoch => "last_processed_tick_per_epoch"
  | skippedTicksInterval => "skipped_ticks_interval"
  | identityTransferTransactions => "identity_transfer_transactions"
  | chainDigest => "chain_digest"
  | processedTickIntervals => "processed_tick_intervals"
  | tickTransactionsStatus => "tick_transactions_status"
  | transactionStatus => "transaction_status"
  | storeDigest => "store_digest"
  | emptyTicksPerEpoch => "empty_ticks_per_epoch"
  | lastTickQuorumDataPerEpochInterval => "last_tick_quorum_data_per_epoch_interval"
  | targetTickVoteSignature => "target_tick_vote_signature"

/-- The first byte of every key of the namespace. -/
def tag : Namespace → UInt8
  | tickData => 0x00
  | quorumData => 0x01
  | computorList => 0x02
  | transaction => 0x03
  | lastProcessedTick => 0x04
  | lastProcessedTickPerEpoch => 0x05
  | skippedTicksInterval => 0x06
  | identityTransferTransactions => 0x07
  | chainDigest => 0x08
  | processedTickIntervals => 0x09
  | tickTransactionsStatus => 0x10
  | transactionStatus => 0x11
  | storeDigest => 0x12
  | emptyTicksPerEpoch => 0x13
  | lastTickQuorumDataPerEpochInterval => 0x14
  | targetTickVoteSignature => 0x15

/-- Transaction ids are sixty lower-case letters, so sixty `z` bound them. -/
def transactionBound : String := String.ofList (List.replicate 60 'z')

/-- Identities are sixty upper-case letters, so sixty `Z` bound them. -/
def identityBound : String := String.ofList (List.replicate 60 'Z')

/-- What follows the tag in the keys of the namespace. -/
def shape : Namespace → KeyShape
  | lastProcessedTick | skippedTicksInterval => .singleton
  | transaction | transactionStatus => .text transactionBound
  | identityTransferTransactions => .composite identityBound
  | _ => .numeric

/-- The namespace with a given tag. -/
def ofTag? (tag : UInt8) : Option Namespace :=
  all.find? (·.tag == tag)

/-- The namespace with exactly this name. -/
def ofName? (name : String) : Option Namespace :=
  all.find? (·.name == name)

/-- The namespace a user means: blanks around the name, the case of its letters, and the choice
between `-` and `_` do not matter. -/
def parse? (text : String) : Option Namespace :=
  ofName? <| String.ofList <| (Text.trim text.toList).map fun c =>
    if c = '-' then '_' else c.toLower

/-- The complaint about a text that names no namespace; it quotes the text as it was given. -/
def unknownMessage (text : String) : String :=
  "unknown namespace '" ++ text ++ "'"

/-! ### Order -/

/-- Namespaces are ordered by their tags. -/
instance : Ord Namespace := ⟨compareOn tag⟩

theorem tag_injective {a b : Namespace} (h : a.tag = b.tag) : a = b := by
  cases a <;> cases b <;> first | rfl | (exact absurd h (by decide))

instance : Std.TransOrd Namespace := inferInstanceAs (Std.TransCmp (compareOn tag))

instance : Std.LawfulEqOrd Namespace where
  eq_of_compare h := tag_injective (Std.LawfulEqOrd.eq_of_compare h)

@[simp] theorem ofTag?_tag (ns : Namespace) : ofTag? ns.tag = some ns := by
  cases ns <;> rfl

theorem mem_all (ns : Namespace) : ns ∈ all := by
  cases ns <;> decide

end Namespace

end EpochSplit
