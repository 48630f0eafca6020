import EpochSplit.Proofs.Wire.Layout
import EpochSplit.Record.Current
import EpochSplit.Record.Legacy
/-!
# Records read back

The layouts of the records of an archive and of an epoch store obey the laws, so each of these
records is read back from the value that stores it (`Wire.decode_encode`).  The records lie at most
four deep in one another, far from the limit.

`recordTypes_readBack` says so of all types of records, and of plain numbers, which are read from
nothing but what is written for them.
-/

namespace EpochSplit

namespace Bytes

lemma ofLittleEndian_lt (bs : Bytes) : ofLittleEndian bs < 256 ^ bs.length := by
  induction bs with
  | nil => decide
  | cons b bs ih =>
      have hb : b.toNat < 256 := b.toNat_lt
      rw [ofLittleEndian, List.length_cons, Nat.pow_succ]
      omega

/-- A number is written with the bytes that it was read from, least significant byte first. -/
theorem littleEndian_ofLittleEndian (bs : Bytes) :
    littleEndian bs.length (ofLittleEndian bs) = bs := by
  induction bs with
  | nil => rfl
  | cons b bs ih =>
      have hb : b.toNat < 256 := b.toNat_lt
      have hquot : (b.toNat + 256 * ofLittleEndian bs) / 256 = ofLittleEndian bs := by omega
      rw [List.length_cons, ofLittleEndian, littleEndian, hquot, ih]
      simp

end Bytes

namespace Wire

/-- A type of records whose layout obeys the laws, down to the depth that is read. -/
class Record.Lawful (M : Type) [Record M] : Prop where
  schema : (Record.schema (M := M)).Lawful Schema.depthLimit

/-- A record is read back from the value that stores it. -/
theorem decode_encode {M : Type} [Record M] [h : Record.Lawful M] (ns : Namespace) {m : M}
    (hlength : (encode m).length < 2 ^ 64) : decode M ns (encode m) = .ok m := by
  have hdecode : (Record.schema (M := M)).decode (encode m) = .ok m :=
    Schema.decode_encode (h := h.schema) hlength
  rw [decode, hdecode]
  rfl

/-- A plain number is read back from the value that stores it. -/
theorem decodeWord_encodeWord (ns : Namespace) (n : UInt32) :
    decodeWord ns (encodeWord n) = .ok n := by
  have hvalue : Bytes.ofLittleEndian (Bytes.littleEndian 4 n.toNat) = n.toNat := by
    have hn : n.toNat < 2 ^ 32 := n.toNat_lt
    simp only [Bytes.littleEndian, Bytes.ofLittleEndian, UInt8.toNat_ofNat']
    omega
  rw [decodeWord, encodeWord, if_pos (Bytes.length_littleEndian 4 _), hvalue, UInt32.ofNat_toNat]

/-- A value that is read as a plain number is the one that stores it. -/
lemma eq_encodeWord_of_decodeWord {ns : Namespace} {value : Bytes} {n : UInt32}
    (h : decodeWord ns value = .ok n) : value = encodeWord n := by
  unfold decodeWord at h
  split at h
  · next hlength =>
      cases h
      have hlt := Bytes.ofLittleEndian_lt value
      have hbytes := Bytes.littleEndian_ofLittleEndian value
      rw [hlength] at hlt hbytes
      rw [encodeWord, UInt32.toNat_ofNat_of_lt' (by simpa [UInt32.size] using hlt), hbytes]
  · cases h

end Wire

/-! ### Records of an epoch store -/

namespace Current

open Wire

variable {budget : Nat}

instance : TickData.schema.Lawful budget := {}

instance : QuorumTickStructure.schema.Lawful budget := {}

instance : QuorumDiff.schema.Lawful budget := {}

instance : QuorumTickData.schema.Lawful (budget + 2) := {}

instance : QuorumDiffStored.schema.Lawful budget := {}

instance : QuorumTickDataStored.schema.Lawful (budget + 2) := {}

instance : LastTickQuorumDataPerEpochIntervals.schema.Lawful (budget + 4) := {}

instance : Computors.schema.Lawful budget := {}

instance : ComputorsList.schema.Lawful (budget + 1) := {}

instance : Transaction.schema.Lawful budget := {}

instance : TransactionStatus.schema.Lawful budget := {}

instance : TickTransactionsStatus.schema.Lawful (budget + 1) := {}

instance : ProcessedTickInterval.schema.Lawful budget := {}

instance : ProcessedTickIntervalsPerEpoch.schema.Lawful (budget + 1) := {}

instance : ProcessedTick.schema.Lawful budget := {}

instance : Record.Lawful TickData := ⟨inferInstanceAs (TickData.schema.Lawful 100)⟩

instance : Record.Lawful QuorumTickStructure :=
  ⟨inferInstanceAs (QuorumTickStructure.schema.Lawful 100)⟩

instance : Record.Lawful QuorumDiff := ⟨inferInstanceAs (QuorumDiff.schema.Lawful 100)⟩

instance : Record.Lawful QuorumTickData := ⟨inferInstanceAs (QuorumTickData.schema.Lawful 100)⟩

instance : Record.Lawful QuorumDiffStored := ⟨inferInstanceAs (QuorumDiffStored.schema.Lawful 100)⟩

instance : Record.Lawful QuorumTickDataStored :=
  ⟨inferInstanceAs (QuorumTickDataStored.schema.Lawful 100)⟩

instance : Record.Lawful LastTickQuorumDataPerEpochIntervals :=
  ⟨inferInstanceAs (LastTickQuorumDataPerEpochIntervals.schema.Lawful 100)⟩

instance : Record.Lawful Computors := ⟨inferInstanceAs (Computors.schema.Lawful 100)⟩

instance : Record.Lawful ComputorsList := ⟨inferInstanceAs (ComputorsList.schema.Lawful 100)⟩

instance : Record.Lawful Transaction := ⟨inferInstanceAs (Transaction.schema.Lawful 100)⟩

instance : Record.Lawful TransactionStatus :=
  ⟨inferInstanceAs (TransactionStatus.schema.Lawful 100)⟩

instance : Record.Lawful TickTransactionsStatus :=
  ⟨inferInstanceAs (TickTransactionsStatus.schema.Lawful 100)⟩

instance : Record.Lawful ProcessedTickInterval :=
  ⟨inferInstanceAs (ProcessedTickInterval.schema.Lawful 100)⟩

instance : Record.Lawful ProcessedTickIntervalsPerEpoch :=
  ⟨inferInstanceAs (ProcessedTickIntervalsPerEpoch.schema.Lawful 100)⟩

instance : Record.Lawful ProcessedTick := ⟨inferInstanceAs (ProcessedTick.schema.Lawful 100)⟩

end Current

/-! ### Records of an archive -/

namespace Legacy

open Wire

variable {budget : Nat}

instance : TickData.schema.Lawful budget := {}

instance : QuorumTickStructure.schema.Lawful budget := {}

instance : QuorumDiff.schema.Lawful budget := {}

instance : QuorumTickData.schema.Lawful (budget + 2) := {}

instance : Computors.schema.Lawful budget := {}

instance : Transaction.schema.Lawful budget := {}

instance : TransactionStatus.schema.Lawful budget := {}

instance : ProcessedTickInterval.schema.Lawful budget := {}

instance : ProcessedTickIntervalsPerEpoch.schema.Lawful (budget + 1) := {}

instance : ProcessedTick.schema.Lawful budget := {}

instance : Record.Lawful TickData := ⟨inferInstanceAs (TickData.schema.Lawful 100)⟩

instance : Record.Lawful QuorumTickStructure :=
  ⟨inferInstanceAs (QuorumTickStructure.schema.Lawful 100)⟩

instance : Record.Lawful QuorumDiff := ⟨inferInstanceAs (QuorumDiff.schema.Lawful 100)⟩

instance : Record.Lawful QuorumTickData := ⟨inferInstanceAs (QuorumTickData.schema.Lawful 100)⟩

instance : Record.Lawful Computors := ⟨inferInstanceAs (Computors.schema.Lawful 100)⟩

instance : Record.Lawful Transaction := ⟨inferInstanceAs (Transaction.schema.Lawful 100)⟩

instance : Record.Lawful TransactionStatus :=
  ⟨inferInstanceAs (TransactionStatus.schema.Lawful 100)⟩

instance : Record.Lawful ProcessedTickInterval :=
  ⟨inferInstanceAs (ProcessedTickInterval.schema.Lawful 100)⟩

instance : Record.Lawful ProcessedTickIntervalsPerEpoch :=
  ⟨inferInstanceAs (ProcessedTickIntervalsPerEpoch.schema.Lawful 100)⟩

instance : Record.Lawful ProcessedTick := ⟨inferInstanceAs (ProcessedTick.schema.Lawful 100)⟩

end Legacy

/-! ### All types of records -/

/-- A type of records, whatever they hold. -/
structure Wire.RecordType where
  Value : Type
  [record : Wire.Record Value]

instance (t : Wire.RecordType) : Wire.Record t.Value := t.record

/-- The types of records of an archive, those inside other records included. -/
def Legacy.recordTypes : List Wire.RecordType :=
  [⟨TickData⟩, ⟨QuorumTickStructure⟩, ⟨QuorumDiff⟩, ⟨QuorumTickData⟩, ⟨Computors⟩, ⟨Transaction⟩,
    ⟨TransactionStatus⟩, ⟨ProcessedTickInterval⟩, ⟨ProcessedTickIntervalsPerEpoch⟩, ⟨ProcessedTick⟩]

/-- The types of records of an epoch store, those inside other records included. -/
def Current.recordTypes : List Wire.RecordType :=
  [⟨TickData⟩, ⟨QuorumTickStructure⟩, ⟨QuorumDiff⟩, ⟨QuorumTickData⟩, ⟨QuorumDiffStored⟩,
    ⟨QuorumTickDataStored⟩, ⟨LastTickQuorumDataPerEpochIntervals⟩, ⟨Computors⟩, ⟨ComputorsList⟩,
    ⟨Transaction⟩, ⟨TransactionStatus⟩, ⟨TickTransactionsStatus⟩, ⟨ProcessedTickInterval⟩,
    ⟨ProcessedTickIntervalsPerEpoch⟩, ⟨ProcessedTick⟩]

/-- The laws hold of the layout of each type. -/
lemma lawful_of_mem_recordTypes {t : Wire.RecordType}
    (ht : t ∈ Legacy.recordTypes ++ Current.recordTypes) : Wire.Record.Lawful t.Value := by
  have hlegacy : ∀ t ∈ Legacy.recordTypes, Wire.Record.Lawful t.Value := by
    unfold Legacy.recordTypes
    repeat refine List.forall_mem_cons.2 ⟨inferInstance, ?_⟩
    exact List.forall_mem_nil _
  have hcurrent : ∀ t ∈ Current.recordTypes, Wire.Record.Lawful t.Value := by
    unfold Current.recordTypes
    repeat refine List.forall_mem_cons.2 ⟨inferInstance, ?_⟩
    exact List.forall_mem_nil _
  exact (List.mem_append.1 ht).elim (hlegacy t) (hcurrent t)

/-- Records of all types are read back from the values that store them.  A plain number is read from
the value that stores it and from no other. -/
theorem recordTypes_readBack (ns : Namespace) :
    (∀ t ∈ Legacy.recordTypes ++ Current.recordTypes, ∀ m : t.Value,
        (Wire.encode m).length < 2 ^ 63 → Wire.decode t.Value ns (Wire.encode m) = .ok m) ∧
      ∀ value n, Wire.decodeWord ns value = .ok n ↔ value = Wire.encodeWord n := by
  refine ⟨fun t ht m hlength => ?_, fun value n => ⟨Wire.eq_encodeWord_of_decodeWord, ?_⟩⟩
  · have hlawful := lawful_of_mem_recordTypes ht
    exact Wire.decode_encode ns (by omega)
  · rintro rfl
    exact Wire.decodeWord_encodeWord ns n

/-- Votes with a common part that is there but empty, and with an empty vote of the computor that
has the default index. -/
def emptyVotes : Current.QuorumTickData where
  quorumTickStructure := some {}
  quorumDiffPerComputor := .insert ∅ 0 {}

/-- These votes under a negative position. -/
def emptyLastVotes : Current.LastTickQuorumDataPerEpochIntervals where
  quorumDataPerInterval := .insert ∅ (-1) emptyVotes

/-- What is empty in a record is told apart from what is missing. -/
theorem recordTypes_readBack_emptyLastVotes :
    ⟨Current.LastTickQuorumDataPerEpochIntervals⟩ ∈ Legacy.recordTypes ++ Current.recordTypes ∧
      Wire.encode emptyLastVotes =
        [10, 17, 8, 255, 255, 255, 255, 255, 255, 255, 255, 255, 1, 18, 4, 10, 0, 18, 0] ∧
      Wire.decode Current.LastTickQuorumDataPerEpochIntervals .lastTickQuorumDataPerEpochInterval
        (Wire.encode emptyLastVotes) = .ok emptyLastVotes := by
  have htype : ⟨Current.LastTickQuorumDataPerEpochIntervals⟩ ∈
      Legacy.recordTypes ++ Current.recordTypes := by
    simp [Current.recordTypes]
  have hbytes : Wire.encode emptyLastVotes =
      [10, 17, 8, 255, 255, 255, 255, 255, 255, 255, 255, 255, 1, 18, 4, 10, 0, 18, 0] := by
    decide +kernel
  have hlength : (Wire.encode emptyLastVotes).length < 2 ^ 63 := by
    rw [hbytes]
    decide
  exact ⟨htype, hbytes, (recordTypes_readBack .lastTickQuorumDataPerEpochInterval).1 _ htype
    emptyLastVotes hlength⟩

end EpochSplit
