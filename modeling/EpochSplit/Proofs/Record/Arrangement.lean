import EpochSplit.Epoch.Entry
import EpochSplit.Proofs.Record.RoundTrip
import EpochSplit.Proofs.Wire.Pieces
/-!
# Arrangements of votes

The votes on a tick are written in pieces: one for the common part, and one for the vote of each
computor.  A value that holds these pieces in any order (`Legacy.QuorumTickData.LaidOut`) is read as
the votes themselves, and becomes the same pair of an epoch store as the value that holds them in
the order of the computors.
-/

namespace EpochSplit

open Wire

namespace Legacy.QuorumTickData

/-- The pieces in which votes are written, those of one field after those of the other. -/
def pieces (q : QuorumTickData) : List Piece :=
  [Piece.ofOption QuorumTickStructure.schema 1 q.quorumTickStructure,
    Piece.ofPairs .uint32 QuorumDiff.schema 2 q.quorumDiffPerComputor.toList].flatten

/-- A value that holds the pieces of votes in some order. -/
def LaidOut (q : QuorumTickData) (value : Bytes) : Prop :=
  ∃ pieces : List Piece, pieces.Perm q.pieces ∧ value = pieces.flatMap Piece.bytes

variable {q : QuorumTickData} {value : Bytes}

lemma cutInto_pieces (q : QuorumTickData) :
    List.Forall₂ (Field.CutInto Schema.depthLimit q) schema.fields
      [Piece.ofOption QuorumTickStructure.schema 1 q.quorumTickStructure,
        Piece.ofPairs .uint32 QuorumDiff.schema 2 q.quorumDiffPerComputor.toList] :=
  .cons (FieldKind.cutInto_optional _) (.cons (FieldKind.cutInto_map .uint32 _) .nil)

lemma encode_eq_flatMap (q : QuorumTickData) : encode q = q.pieces.flatMap Piece.bytes :=
  (Schema.flatMap_of_cut q.cutInto_pieces).symm

lemma laidOut_encode (q : QuorumTickData) : q.LaidOut (encode q) :=
  ⟨q.pieces, .refl _, q.encode_eq_flatMap⟩

/-- All arrangements of votes are equally long. -/
lemma LaidOut.length_eq (h : q.LaidOut value) : value.length = (encode q).length := by
  obtain ⟨pieces, hpieces, rfl⟩ := h
  rw [encode_eq_flatMap]
  exact (hpieces.flatMap_right _).length_eq

/-- Votes are read from their pieces in whatever order they come. -/
theorem LaidOut.decode_eq (h : q.LaidOut value) (hlength : value.length < 2 ^ 64)
    (ns : Namespace) : Wire.decode QuorumTickData ns value = .ok q := by
  obtain ⟨pieces, hpieces, rfl⟩ := h
  have hlawful : schema.Lawful Schema.depthLimit := Record.Lawful.schema (M := QuorumTickData)
  have hdecode : schema.decode (pieces.flatMap Piece.bytes) = .ok q :=
    Schema.decode_of_perm q.cutInto_pieces hpieces hlength
  have hschema : Record.schema (M := QuorumTickData) = schema := rfl
  rw [Wire.decode, hschema, hdecode]
  rfl

end Legacy.QuorumTickData

/-- Two values that are arrangements of the same votes. -/
def Legacy.SameVotes (value value' : Bytes) : Prop :=
  ∃ q : QuorumTickData, q.LaidOut value ∧ q.LaidOut value' ∧ value.length < 2 ^ 64

/-- Votes become the same pair of an epoch store, or are refused for the same reason, however they
are arranged. -/
lemma Legacy.SameVotes.quorumData_eq {value value' : Bytes} (h : SameVotes value value')
    (key : Bytes) : EpochEntry.quorumData (key, value) = EpochEntry.quorumData (key, value') := by
  obtain ⟨q, hvalue, hvalue', hlength⟩ := h
  have hlength' : value'.length < 2 ^ 64 := by rwa [hvalue'.length_eq, ← hvalue.length_eq]
  rw [EpochEntry.quorumData, EpochEntry.quorumData, hvalue.decode_eq hlength,
    hvalue'.decode_eq hlength']

end EpochSplit
