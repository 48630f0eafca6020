import EpochSplit.Epoch.Plan
import EpochSplit.Proofs.Epoch.Writes
import EpochSplit.Proofs.Record.RoundTrip
/-!
# Conversion keeps the bytes

The records of an archive and their counterparts in an epoch store are laid out alike, so that a
record and its conversion are written with the same bytes (`encode_toCurrent`).  What an epoch store
holds in another form reads back as what it was made of: a list of one computor list, and votes
without their salted digests (`Reduces`).

A value of an archive that is the very encoding of the record in it is therefore written into the
store of its epoch as it is (`KeepsCanonical`).
-/

namespace EpochSplit

namespace Wire

/-! ### Records with the same bytes -/

/-- Two fields, of records of two types, that are written with the same bytes. -/
def Field.Agrees {M M' : Type} (m : M) (m' : M') (f : Field M) (f' : Field M') : Prop :=
  f'.kind.write f'.number (f'.get m') = f.kind.write f.number (f.get m)

/-- Records whose fields agree one by one are written with the same bytes. -/
lemma Schema.encode_congr {M M' : Type} {s : Schema M} {s' : Schema M'} {m : M} {m' : M'}
    (h : List.Forall₂ (Field.Agrees m m') s.fields s'.fields) : s'.encode m' = s.encode m := by
  unfold encode
  generalize s.fields = fields, s'.fields = fields' at h
  induction h with
  | nil => rfl
  | cons hfield _ ih => rw [List.flatMap_cons, List.flatMap_cons, hfield, ih]

namespace FieldKind

variable {M M' : Type} {s : Schema M} {s' : Schema M'} {convert : M → M'}

lemma write_optional_map (h : ∀ m, s'.encode (convert m) = s.encode m) (number : Nat)
    (m? : Option M) :
    (optional s').write number (m?.map convert) = (optional s).write number m? := by
  cases m? with
  | none => rfl
  | some m => simp only [optional, Option.map_some, h]

lemma write_records_map (h : ∀ m, s'.encode (convert m) = s.encode m) (number : Nat)
    (ms : List M) :
    (records s').write number (ms.map convert) = (records s).write number ms := by
  simp only [records, List.flatMap_map, h]

lemma write_map_map {κ : Type} [Ord κ] [Std.TransOrd κ] [Std.LawfulEqOrd κ] (key : Scalar κ)
    (h : ∀ m, s'.encode (convert m) = s.encode m) (number : Nat) (ps : Std.ExtTreeMap κ M) :
    (map key s').write number (ps.map fun _ m => convert m) = (map key s).write number ps := by
  simp only [map, Std.ExtTreeMap.toList_map, List.flatMap_map, writePair, h]

end FieldKind

end Wire

open Wire

namespace Legacy

/-! ### Conversions -/

theorem TickData.encode_toCurrent (t : TickData) : encode t.toCurrent = encode t := rfl

theorem QuorumTickStructure.encode_toCurrent (s : QuorumTickStructure) :
    encode s.toCurrent = encode s := rfl

theorem QuorumDiff.encode_toCurrent (d : QuorumDiff) : encode d.toCurrent = encode d := rfl

theorem QuorumTickData.encode_toCurrent (q : QuorumTickData) : encode q.toCurrent = encode q := by
  refine Schema.encode_congr (.cons ?_ (.cons ?_ .nil))
  · exact FieldKind.write_optional_map QuorumTickStructure.encode_toCurrent _ _
  · exact FieldKind.write_map_map _ QuorumDiff.encode_toCurrent _ _

theorem Computors.encode_toCurrent (c : Computors) : encode c.toCurrent = encode c := rfl

theorem Transaction.encode_toCurrent (t : Transaction) : encode t.toCurrent = encode t := rfl

theorem TransactionStatus.encode_toCurrent (s : TransactionStatus) :
    encode s.toCurrent = encode s := rfl

theorem ProcessedTickInterval.encode_toCurrent (i : ProcessedTickInterval) :
    encode i.toCurrent = encode i := rfl

theorem ProcessedTickIntervalsPerEpoch.encode_toCurrent (p : ProcessedTickIntervalsPerEpoch) :
    encode p.toCurrent = encode p := by
  refine Schema.encode_congr (.cons rfl (.cons ?_ .nil))
  exact FieldKind.write_records_map ProcessedTickInterval.encode_toCurrent _ _

/-- Votes `r` have the common part of the votes `q` and the same computors, and of the vote of each
computor just what is kept for every tick. -/
structure QuorumTickData.Reduces (q : QuorumTickData) (r : Current.QuorumTickDataStored) :
    Prop where
  commonPart : r.quorumTickStructure = q.quorumTickStructure.map (·.toCurrent)
  commonBytes : r.quorumTickStructure.map encode = q.quorumTickStructure.map encode
  computors : r.quorumDiffPerComputor.keys = q.quorumDiffPerComputor.keys
  votes : ∀ id : UInt32, r.quorumDiffPerComputor[id]? = q.quorumDiffPerComputor[id]?.map fun d =>
    { expectedNextTickTxDigestHex := d.expectedNextTickTxDigestHex, signatureHex := d.signatureHex }

lemma QuorumTickData.reduces_reduced (q : QuorumTickData) : q.Reduces q.reduced where
  commonPart := rfl
  commonBytes := by
    rw [reduced, Option.map_map]
    rfl
  computors := by
    rw [reduced, ← Std.ExtTreeMap.map_fst_toList_eq_keys, ← Std.ExtTreeMap.map_fst_toList_eq_keys,
      Std.ExtTreeMap.toList_map, List.map_map]
    rfl
  votes id := by
    rw [reduced, Std.ExtTreeMap.getElem?_map]
    rfl

end Legacy

/-! ### Canonical values -/

/-- The values of an archive that are the very encoding of the record in them are the values of the
pairs that are written for these records. -/
structure EpochPlan.KeepsCanonical (s : Source) : Prop where
  tickData : ∀ {tick : UInt32} {stored : Bytes},
    EpochEntry.canonicalAs Legacy.TickData .tickData stored = .ok stored →
      ∃ record, EpochEntry.tickData (Key.word .tickData tick, stored) =
        .ok (record, (Key.word .tickData tick, stored))
  transaction : ∀ {txId : String} {stored : Bytes},
    s.get (Key.text .transaction txId) = .ok (some stored) →
    EpochEntry.canonicalAs Legacy.Transaction .transaction stored = .ok stored →
      ∃ named, EpochPlan.transaction s txId = .ok (Key.text .transaction named, stored)
  transactionStatus : ∀ {txId : String} {stored : Bytes},
    s.get (Key.text .transactionStatus txId) = .ok (some stored) →
    EpochEntry.canonicalAs Legacy.TransactionStatus .transactionStatus stored = .ok stored →
      ∃ status, EpochPlan.transactionStatus s txId = .ok status ∧
        EpochEntry.transactionStatus status = (Key.text .transactionStatus status.txId, stored)

namespace EpochEntry

variable {M : Type} [Record M] {ns : Namespace} {stored : Bytes}

/-- A canonical value is read as a record that it is the encoding of. -/
lemma exists_of_canonicalAs {value : Bytes} (h : canonicalAs M ns stored = .ok value) :
    ∃ m : M, Wire.decode M ns stored = .ok m ∧ encode m = value := by
  unfold canonicalAs at h
  rcases hdecode : Wire.decode M ns stored with fault | m
  · rw [hdecode] at h
    cases h
  · rw [hdecode] at h
    cases h
    exact ⟨m, rfl, rfl⟩

end EpochEntry

/-- A record is found if the value under its key can be read. -/
lemma Source.record?_of_decode {s : Source} {M : Type} [Record M] {ns : Namespace}
    {key stored : Bytes} {m : M} (hget : s.get key = .ok (some stored))
    (hdecode : Wire.decode M ns stored = .ok m) : s.record? M ns key = .ok (some m) := by
  simp only [record?, hget, hdecode, bind, Except.bind, Except.mapError]
  rfl

namespace EpochPlan

lemma keepsCanonical (s : Source) : KeepsCanonical s where
  tickData hstored := by
    obtain ⟨t, hdecode, rfl⟩ := EpochEntry.exists_of_canonicalAs hstored
    exact ⟨t.toCurrent, EpochEntry.tickData_word hdecode⟩
  transaction {txId stored} hget hstored := by
    obtain ⟨t, hdecode, rfl⟩ := EpochEntry.exists_of_canonicalAs hstored
    have hfound : s.transaction? txId = .ok (some t) :=
      Source.record?_of_decode hget hdecode
    refine ⟨t.txId, ?_⟩
    rw [transaction, hfound]
    rfl
  transactionStatus {txId stored} hget hstored := by
    obtain ⟨status, hdecode, rfl⟩ := EpochEntry.exists_of_canonicalAs hstored
    have hfound : s.status? txId = .ok (some status) :=
      Source.record?_of_decode hget hdecode
    refine ⟨status, ?_, rfl⟩
    rw [transactionStatus, hfound]
    rfl

end EpochPlan

namespace Legacy

/-- Records of an archive are written with the same bytes once they are converted.  The list that is
made of one computor list is read back as a list of one, which is written with the same bytes, and
reduced votes are read back as a reduction of the votes.  Canonical tick data, transactions and
statuses are written as they are. -/
theorem conversion_keepsBytes :
    ((∀ t : TickData, encode t.toCurrent = encode t) ∧
      (∀ t : Transaction, encode t.toCurrent = encode t) ∧
      (∀ s : TransactionStatus, encode s.toCurrent = encode s) ∧
      (∀ c : Computors, encode c.toCurrent = encode c) ∧
      (∀ q : QuorumTickData, encode q.toCurrent = encode q) ∧
      ∀ p : ProcessedTickIntervalsPerEpoch, encode p.toCurrent = encode p) ∧
    (∀ ns (c : Computors), (encode c.toList).length < 2 ^ 63 →
      ∃ entry, Wire.decode Current.ComputorsList ns (encode c.toList) = .ok ⟨[entry]⟩ ∧
        encode entry = encode c) ∧
    (∀ ns (q : QuorumTickData), (encode q.reduced).length < 2 ^ 63 →
      ∃ r, Wire.decode Current.QuorumTickDataStored ns (encode q.reduced) = .ok r ∧
        q.Reduces r) ∧
    ∀ s : Source, EpochPlan.KeepsCanonical s := by
  refine ⟨?_, ?_, ?_, EpochPlan.keepsCanonical⟩
  · exact ⟨TickData.encode_toCurrent, Transaction.encode_toCurrent,
      TransactionStatus.encode_toCurrent, Computors.encode_toCurrent,
      QuorumTickData.encode_toCurrent, ProcessedTickIntervalsPerEpoch.encode_toCurrent⟩
  · intro ns c hlength
    have hread : Wire.decode Current.ComputorsList ns (encode c.toList) = .ok c.toList :=
      decode_encode ns (by omega)
    exact ⟨c.toCurrent, hread, c.encode_toCurrent⟩
  · intro ns q hlength
    have hread : Wire.decode Current.QuorumTickDataStored ns (encode q.reduced) = .ok q.reduced :=
      decode_encode ns (by omega)
    exact ⟨q.reduced, hread, q.reduces_reduced⟩

/-- Tick data that name two transactions. -/
def twoTransfers : TickData :=
  { computorIndex := 3, epoch := 5, tickNumber := 12, transactionIds := ["a", "b"] }

/-- A computor list with two identities. -/
def twoComputors : Computors :=
  { epoch := 5, identities := ["A", "B"], signatureHex := "ff" }

/-- Votes of two computors, one of which gave no next digest. -/
def twoVotes : QuorumTickData where
  quorumTickStructure := some { epoch := 5, tickNumber := 12, txDigestHex := "d0" }
  quorumDiffPerComputor := .insert (.insert ∅ 7 { saltedSpectrumDigestHex := "aa" }) 0
    { expectedNextTickTxDigestHex := "bb", signatureHex := "cc" }

/-- The list of the two computors and the reduced votes are read back, and the tick data are written
as they are. -/
theorem conversion_keepsBytes_sample :
    (∃ entry, Wire.decode Current.ComputorsList .computorList (encode twoComputors.toList) =
        .ok ⟨[entry]⟩ ∧ encode entry = encode twoComputors) ∧
      (∃ r, Wire.decode Current.QuorumTickDataStored .quorumData (encode twoVotes.reduced) =
        .ok r ∧ twoVotes.Reduces r) ∧
      ∃ record, EpochEntry.tickData (Key.word .tickData 12, encode twoTransfers) =
        .ok (record, (Key.word .tickData 12, encode twoTransfers)) := by
  refine ⟨conversion_keepsBytes.2.1 .computorList twoComputors (by decide +kernel),
    conversion_keepsBytes.2.2.1 .quorumData twoVotes (by decide +kernel), ?_⟩
  have hcanonical : EpochEntry.canonicalAs TickData .tickData (encode twoTransfers) =
      .ok (encode twoTransfers) := by decide +kernel
  exact (conversion_keepsBytes.2.2.2 (.ofContents ∅)).tickData hcanonical

end Legacy

end EpochSplit
