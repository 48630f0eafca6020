import EpochSplit.Proofs.Record.RoundTrip
import EpochSplit.Proofs.Sample.Names
import EpochSplit.Proofs.Wire.Sizes
/-!
# The records in a sample archive

The records that a sample puts into an archive, and that they can be read back: their texts are
short, and lists of fewer than `2 ^ 32` ids or ranges are far from the length that a record may not
reach.
-/

namespace EpochSplit.SampleArchive

open Wire

/-! ### The records -/

/-- The status of a transaction of a tick. -/
def transactionStatus (epoch tick : UInt32) (slot : Nat) : Legacy.TransactionStatus where
  txId := txId epoch tick slot
  moneyFlew := slot % 2 == 0

namespace EpochSample

/-- The computors of the epoch. -/
def computors (s : EpochSample) : Legacy.Computors where
  epoch := s.epoch
  identities := (List.range 4).map identity
  signatureHex := s!"computors{s.epoch}"

/-- The processed ranges of the epoch. -/
def intervals (s : EpochSample) : Legacy.ProcessedTickIntervalsPerEpoch where
  epoch := s.epoch
  intervals := s.ranges.map fun r =>
    { initialProcessedTick := r.start, lastProcessedTick := r.stop }

/-- The vote signature of the epoch. -/
def voteSignature (s : EpochSample) : UInt32 := 0xC0DE0000 ||| s.epoch

end EpochSample

/-! ### Short texts -/

lemma length_toString_le (n : UInt32) : (toString n).length ≤ 10 :=
  Nat.repr_length n.toNat 10 (by decide) (Nat.lt_trans n.toNat_lt (by decide))

lemma length_label_le {t : String} (n : UInt32) (h : t.length ≤ 20) :
    (t ++ toString n).length ≤ 100 := by
  have hn := length_toString_le n
  rw [String.length_append]
  omega

lemma length_labels_le {t : String} (n n' : UInt32) (h : t.length ≤ 20) :
    (t ++ toString n ++ "-" ++ toString n').length ≤ 100 := by
  have hn := length_toString_le n
  have hn' := length_toString_le n'
  have hdash : "-".length = 1 := rfl
  rw [String.length_append, String.length_append, String.length_append]
  omega

/-- A text of up to a hundred characters fits a field of up to 420 bytes, and so does a number. -/
lemma fits_short {t : String} (h : t.length ≤ 100) : (FieldKind.scalar .text).Fits 420 t :=
  (FieldKind.fits_text t).mono (by omega)

lemma fits_small {α : Type} {s : Scalar α} [s.Numeric] (v : α) :
    (FieldKind.scalar s).Fits 420 v :=
  (FieldKind.fits_number s v).mono (by decide)

/-! ### How long the records are -/

section Sizes

variable (epoch tick computor : UInt32) {slot transactions : Nat}

lemma length_quorumDiff_le :
    (Legacy.QuorumDiff.schema.encode (quorumDiff tick computor)).length ≤ 3000 := by
  have hfields : ∀ f ∈ Legacy.QuorumDiff.schema.fields,
      f.kind.Fits 420 (f.get (quorumDiff tick computor)) := by
    refine List.forall_mem_cons.2 ⟨fits_short (length_label_le _ (by decide)), ?_⟩
    refine List.forall_mem_cons.2 ⟨fits_short (length_label_le _ (by decide)), ?_⟩
    refine List.forall_mem_cons.2 ⟨fits_short (length_label_le _ (by decide)), ?_⟩
    refine List.forall_mem_cons.2 ⟨fits_short (length_label_le _ (by decide)), ?_⟩
    refine List.forall_mem_cons.2 ⟨fits_short (length_labels_le _ _ (by decide)), ?_⟩
    refine List.forall_mem_cons.2 ⟨fits_short (length_labels_le _ _ (by decide)), ?_⟩
    exact List.forall_mem_singleton.2 (fits_short (length_label_le _ (by decide)))
  exact (Schema.length_encode_le hfields).trans (by decide)

lemma length_quorumTickStructure_le {common : Legacy.QuorumTickStructure}
    (h : (quorumTickData epoch tick).quorumTickStructure = some common) :
    (Legacy.QuorumTickStructure.schema.encode common).length ≤ 4000 := by
  obtain rfl := Option.some.inj h
  have hempty : "".length ≤ 100 := by decide
  have hfields : ∀ f ∈ Legacy.QuorumTickStructure.schema.fields, f.kind.Fits 420 (f.get
      { epoch
        tickNumber := tick
        timestamp := tick.toUInt64 * 1000
        txDigestHex := s!"txd{tick}" }) := by
    refine List.forall_mem_cons.2 ⟨fits_small _, ?_⟩
    refine List.forall_mem_cons.2 ⟨fits_small _, ?_⟩
    refine List.forall_mem_cons.2 ⟨fits_small _, ?_⟩
    refine List.forall_mem_cons.2 ⟨fits_short hempty, ?_⟩
    refine List.forall_mem_cons.2 ⟨fits_short hempty, ?_⟩
    refine List.forall_mem_cons.2 ⟨fits_short hempty, ?_⟩
    refine List.forall_mem_cons.2 ⟨fits_short hempty, ?_⟩
    refine List.forall_mem_cons.2 ⟨fits_short (length_label_le _ (by decide)), ?_⟩
    exact List.forall_mem_singleton.2 (fits_short hempty)
  exact (Schema.length_encode_le hfields).trans (by decide)

lemma length_quorumTickData_lt : (Wire.encode (quorumTickData epoch tick)).length < 2 ^ 64 := by
  have hcommon := length_quorumTickStructure_le epoch tick rfl
  have hvotes : ∀ p ∈ (quorumTickData epoch tick).quorumDiffPerComputor.toList,
      (Legacy.QuorumDiff.schema.encode p.2).length ≤ 3000 := by
    refine List.forall_mem_cons.2 ⟨length_quorumDiff_le tick 0, ?_⟩
    exact List.forall_mem_singleton.2 (length_quorumDiff_le tick 1)
  have hcount : (quorumTickData epoch tick).quorumDiffPerComputor.toList.length = 2 := rfl
  have hfields : ∀ f ∈ Legacy.QuorumTickData.schema.fields,
      f.kind.Fits 7000 (f.get (quorumTickData epoch tick)) := by
    refine List.forall_mem_cons.2 ⟨(FieldKind.fits_optional hcommon).mono (by decide), ?_⟩
    exact List.forall_mem_singleton.2 ((FieldKind.fits_map hvotes).mono (by omega))
  exact (Schema.length_encode_le hfields).trans_lt (by decide)

lemma length_transaction_lt (hslot : slot < 2 ^ 32) :
    (Wire.encode (transaction epoch tick slot)).length < 2 ^ 64 := by
  have hsource : (identity slot).length ≤ 100 := by
    rw [length_identity (Nat.lt_trans hslot (by decide))]
    decide
  have hdest : (identity (slot + 1)).length ≤ 100 := by
    rw [length_identity (by omega)]
    decide
  have hinput : "00ff".length ≤ 100 := by decide
  have hid : (txId epoch tick slot).length ≤ 100 := by
    rw [length_txId epoch tick (hslot.trans (by decide))]
    decide
  have hsignature : ("txsig" ++ txId epoch tick slot).length ≤ 100 := by
    rw [String.length_append, length_txId epoch tick (hslot.trans (by decide))]
    decide
  have hfields : ∀ f ∈ Legacy.Transaction.schema.fields,
      f.kind.Fits 420 (f.get (transaction epoch tick slot)) := by
    refine List.forall_mem_cons.2 ⟨fits_short hsource, ?_⟩
    refine List.forall_mem_cons.2 ⟨fits_short hdest, ?_⟩
    refine List.forall_mem_cons.2 ⟨fits_small _, ?_⟩
    refine List.forall_mem_cons.2 ⟨fits_small _, ?_⟩
    refine List.forall_mem_cons.2 ⟨fits_small _, ?_⟩
    refine List.forall_mem_cons.2 ⟨fits_small _, ?_⟩
    refine List.forall_mem_cons.2 ⟨fits_short hinput, ?_⟩
    refine List.forall_mem_cons.2 ⟨fits_short hsignature, ?_⟩
    exact List.forall_mem_singleton.2 (fits_short hid)
  exact (Schema.length_encode_le hfields).trans_lt (by decide)

lemma length_transactionStatus_lt (hslot : slot < 2 ^ 32) :
    (Wire.encode (transactionStatus epoch tick slot)).length < 2 ^ 64 := by
  have hid : (txId epoch tick slot).length ≤ 100 := by
    rw [length_txId epoch tick (hslot.trans (by decide))]
    decide
  have hfields : ∀ f ∈ Legacy.TransactionStatus.schema.fields,
      f.kind.Fits 420 (f.get (transactionStatus epoch tick slot)) := by
    refine List.forall_mem_cons.2 ⟨fits_short hid, ?_⟩
    exact List.forall_mem_singleton.2 (fits_small _)
  exact (Schema.length_encode_le hfields).trans_lt (by decide)

lemma length_tickData_lt (h : transactions < 2 ^ 32) :
    (Wire.encode (tickData epoch tick transactions)).length < 2 ^ 64 := by
  have hids : ∀ id ∈ (tickData epoch tick transactions).transactionIds,
      (Scalar.text.write id).length ≤ 250 := by
    refine List.forall_mem_map.2 fun slot hslot => ?_
    have hwrite := Scalar.length_text_le (txId epoch tick slot)
    rwa [length_txId epoch tick ((List.mem_range.1 hslot).trans (h.trans (by decide)))] at hwrite
  have hcount : (tickData epoch tick transactions).transactionIds.length < 2 ^ 32 := by
    rwa [tickData, List.length_map, List.length_range]
  have hfees : ∀ fee ∈ (tickData epoch tick transactions).contractFees,
      (Scalar.int64.write fee).length ≤ 10 := fun fee _ => Scalar.length_write_le _ fee
  have hfee : (tickData epoch tick transactions).contractFees.length = 1 := rfl
  have hbytes : (Scalar.bytes.write []).length ≤ 410 := by decide
  have hfields : ∀ f ∈ Legacy.TickData.schema.fields,
      f.kind.Fits (2 ^ 42) (f.get (tickData epoch tick transactions)) := by
    refine List.forall_mem_cons.2 ⟨(fits_small _).mono (by decide), ?_⟩
    refine List.forall_mem_cons.2 ⟨(fits_small _).mono (by decide), ?_⟩
    refine List.forall_mem_cons.2 ⟨(fits_small _).mono (by decide), ?_⟩
    refine List.forall_mem_cons.2 ⟨(fits_small _).mono (by decide), ?_⟩
    refine List.forall_mem_cons.2 ⟨(FieldKind.fits_scalar hbytes).mono (by decide), ?_⟩
    refine List.forall_mem_cons.2 ⟨(FieldKind.fits_scalar hbytes).mono (by decide), ?_⟩
    refine List.forall_mem_cons.2 ⟨(FieldKind.fits_repeated hids).mono (by omega), ?_⟩
    refine List.forall_mem_cons.2 ⟨(FieldKind.fits_packed hfees).mono (by omega), ?_⟩
    exact List.forall_mem_singleton.2
      ((fits_short (length_label_le _ (by decide))).mono (by decide))
  exact (Schema.length_encode_le hfields).trans_lt (by decide)

end Sizes

namespace EpochSample

variable (s : EpochSample)

lemma length_computors_lt : (Wire.encode s.computors).length < 2 ^ 64 := by
  have hidentities : ∀ name ∈ s.computors.identities, (Scalar.text.write name).length ≤ 250 := by
    refine List.forall_mem_map.2 fun n hn => ?_
    have hwrite := Scalar.length_text_le (identity n)
    rwa [length_identity (Nat.lt_trans (List.mem_range.1 hn) (by decide))] at hwrite
  have hcount : s.computors.identities.length = 4 := rfl
  have hfields : ∀ f ∈ Legacy.Computors.schema.fields, f.kind.Fits 2000 (f.get s.computors) := by
    refine List.forall_mem_cons.2 ⟨(fits_small _).mono (by decide), ?_⟩
    refine List.forall_mem_cons.2 ⟨(FieldKind.fits_repeated hidentities).mono (by omega), ?_⟩
    exact List.forall_mem_singleton.2
      ((fits_short (length_label_le _ (by decide))).mono (by decide))
  exact (Schema.length_encode_le hfields).trans_lt (by decide)

lemma length_intervals_lt (h : s.ranges.length ≤ 2 ^ 32) :
    (Wire.encode s.intervals).length < 2 ^ 64 := by
  have hinterval : ∀ i ∈ s.intervals.intervals,
      (Legacy.ProcessedTickInterval.schema.encode i).length ≤ 2 * 420 := by
    intro i _
    have hfields : ∀ f ∈ Legacy.ProcessedTickInterval.schema.fields, f.kind.Fits 420 (f.get i) := by
      refine List.forall_mem_cons.2 ⟨fits_small _, ?_⟩
      exact List.forall_mem_singleton.2 (fits_small _)
    exact Schema.length_encode_le hfields
  have hcount : s.intervals.intervals.length ≤ 2 ^ 32 := by
    rwa [intervals, List.length_map]
  have hfields : ∀ f ∈ Legacy.ProcessedTickIntervalsPerEpoch.schema.fields,
      f.kind.Fits (2 ^ 42) (f.get s.intervals) := by
    refine List.forall_mem_cons.2 ⟨(fits_small _).mono (by decide), ?_⟩
    exact List.forall_mem_singleton.2 ((FieldKind.fits_records hinterval).mono (by omega))
  exact (Schema.length_encode_le hfields).trans_lt (by decide)

end EpochSample

end EpochSplit.SampleArchive
