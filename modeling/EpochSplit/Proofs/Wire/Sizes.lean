import EpochSplit.Proofs.Wire.Reads
import EpochSplit.Wire.Schema
import Mathlib.Algebra.Group.Action.Defs
import Mathlib.Algebra.Order.BigOperators.Group.List
import Mathlib.Algebra.Order.Group.Nat
/-!
# How long records are

A number takes ten bytes at most, and so do the header of a field and the length of a content.  So a
field is not much longer than what it holds (`FieldKind.Fits`), and a record is as long as its
fields together (`Schema.length_encode_le`).  The bounds are generous: they are to tell that records
are far shorter than `2 ^ 64` bytes, so that they are read back.
-/

namespace EpochSplit

namespace Bytes

lemma size_utf8Encode_le (cs : List Char) : cs.utf8Encode.size ≤ 4 * cs.length := by
  induction cs with
  | nil => exact Nat.le_refl 0
  | cons c cs ih =>
      have hc := c.utf8Size_le_four
      have hfirst : [c].utf8Encode.size = c.utf8Size := by
        rw [List.utf8Encode_singleton, List.size_toByteArray, String.length_utf8EncodeChar]
      rw [List.utf8Encode_cons, ByteArray.size_append, hfirst, List.length_cons]
      omega

/-- A character takes four bytes at most. -/
lemma length_ofText_le (t : String) : (ofText t).length ≤ 4 * t.length := by
  have hsize : (ofText t).length = t.toList.utf8Encode.size := by
    rw [String.utf8Encode_toList]
    rfl
  rw [hsize, ← String.length_toList]
  exact size_utf8Encode_le t.toList

end Bytes

namespace Wire

/-! ### Numbers, headers and contents -/

lemma Varint.length_writeWithin_le (more n : Nat) : (writeWithin more n).length ≤ more + 1 := by
  induction more generalizing n with
  | zero => exact Nat.le_refl 1
  | succ more ih =>
      rw [writeWithin]
      split
      · exact Nat.succ_le_succ (Nat.zero_le _)
      · exact Nat.succ_le_succ (ih _)

lemma Varint.length_write_le (n : Nat) : (write n).length ≤ 10 := length_writeWithin_le 9 n

lemma Header.length_write_le (h : Header) : h.write.length ≤ 10 := Varint.length_write_le _

lemma length_writeDelimited_le (content : Bytes) :
    (writeDelimited content).length ≤ 10 + content.length := by
  have hlength := Varint.length_write_le content.length
  rw [length_writeDelimited]
  omega

/-- Pieces of bounded length are as long together as their number allows. -/
lemma length_flatMap_le {α : Type*} {write : α → Bytes} {as : List α} {size : Nat}
    (h : ∀ a ∈ as, (write a).length ≤ size) : (as.flatMap write).length ≤ as.length * size := by
  have hsum := List.sum_le_card_nsmul (as.map fun a => (write a).length) size
    (List.forall_mem_map.2 h)
  rwa [List.length_map, smul_eq_mul, ← List.length_flatMap] at hsum

/-- A scalar that is written as one number. -/
class Scalar.Numeric {α : Type} (s : Scalar α) : Prop where
  write_eq : ∀ v, ∃ n, s.write v = Varint.write n

instance : Scalar.uint32.Numeric := ⟨fun _ => ⟨_, rfl⟩⟩

instance : Scalar.uint64.Numeric := ⟨fun _ => ⟨_, rfl⟩⟩

instance : Scalar.int64.Numeric := ⟨fun _ => ⟨_, rfl⟩⟩

instance : Scalar.bool.Numeric := ⟨fun _ => ⟨_, rfl⟩⟩

lemma Scalar.length_write_le {α : Type} (s : Scalar α) [h : s.Numeric] (v : α) :
    (s.write v).length ≤ 10 := by
  obtain ⟨n, hwrite⟩ := h.write_eq v
  rw [hwrite]
  exact Varint.length_write_le n

lemma Scalar.length_text_le (t : String) : (text.write t).length ≤ 10 + 4 * t.length :=
  (length_writeDelimited_le _).trans (Nat.add_le_add_left (Bytes.length_ofText_le t) 10)

/-! ### Fields -/

namespace FieldKind

variable {α M κ : Type} {k : FieldKind α} {s : Scalar α} {size size' : Nat} {v : α} {vs : List α}

/-- A value takes up at most so many bytes in a field, whatever the number of the field. -/
def Fits (k : FieldKind α) (size : Nat) (v : α) : Prop :=
  ∀ number, (k.write number v).length ≤ size

lemma Fits.mono (h : k.Fits size v) (hsize : size ≤ size') : k.Fits size' v :=
  fun number => (h number).trans hsize

lemma fits_scalar (h : (s.write v).length ≤ size) : (scalar s).Fits (10 + size) v := by
  intro number
  have hheader := Header.length_write_le ⟨number, s.wire⟩
  simp only [scalar]
  split
  · exact Nat.zero_le _
  · rw [List.length_append]
    omega

lemma fits_number (s : Scalar α) [s.Numeric] (v : α) : (scalar s).Fits 20 v :=
  fits_scalar (s.length_write_le v)

lemma fits_text (t : String) : (scalar .text).Fits (20 + 4 * t.length) t :=
  (fits_scalar (Scalar.length_text_le t)).mono (by omega)

lemma fits_repeated (h : ∀ v ∈ vs, (s.write v).length ≤ size) :
    (repeated s).Fits (vs.length * (10 + size)) vs := by
  intro number
  refine length_flatMap_le fun v hv => ?_
  have hheader := Header.length_write_le ⟨number, s.wire⟩
  have hv := h v hv
  rw [List.length_append]
  omega

lemma fits_packed (h : ∀ v ∈ vs, (s.write v).length ≤ size) :
    (packed s).Fits (20 + vs.length * size) vs := by
  intro number
  have hheader := Header.length_write_le ⟨number, .lengthDelimited⟩
  have hcontent := length_writeDelimited_le (vs.flatMap s.write)
  have hvs := length_flatMap_le h
  simp only [packed]
  split
  · exact Nat.zero_le _
  · rw [List.length_append]
    omega

variable {layout : Schema M}

/-- A record inside a record comes with a header and its length. -/
lemma length_delimited_le (number : Nat) {content : Bytes} (h : content.length ≤ size) :
    (Header.write ⟨number, .lengthDelimited⟩ ++ writeDelimited content).length ≤ 20 + size := by
  have hheader := Header.length_write_le ⟨number, .lengthDelimited⟩
  have hcontent := length_writeDelimited_le content
  rw [List.length_append]
  omega

lemma fits_optional {m : M} (h : (layout.encode m).length ≤ size) :
    (optional layout).Fits (20 + size) (some m) :=
  fun number => length_delimited_le number h

lemma fits_records {ms : List M} (h : ∀ m ∈ ms, (layout.encode m).length ≤ size) :
    (records layout).Fits (ms.length * (20 + size)) ms :=
  fun number => length_flatMap_le fun m hm => length_delimited_le number (h m hm)

lemma fits_map [Ord κ] [Std.TransOrd κ] {key : Scalar κ} [key.Numeric] {ps : Std.ExtTreeMap κ M}
    (h : ∀ p ∈ ps.toList, (layout.encode p.2).length ≤ size) :
    (map key layout).Fits (ps.toList.length * (60 + size)) ps := by
  intro number
  refine length_flatMap_le fun p hp => ?_
  have hkey := fits_number key p.1 1
  have hvalue := length_delimited_le 2 (h p hp)
  have hpair : (writePair key layout p).length ≤ 40 + size := by
    rw [writePair, List.length_append]
    split
    · rw [List.length_nil]
      omega
    · omega
  have hwhole := length_delimited_le number hpair
  omega

end FieldKind

/-- A record is as long as its fields together. -/
theorem Schema.length_encode_le {M : Type} {s : Schema M} {m : M} {size : Nat}
    (h : ∀ f ∈ s.fields, f.kind.Fits size (f.get m)) :
    (s.encode m).length ≤ s.fields.length * size := by
  refine length_flatMap_le fun f hf => ?_
  exact h f hf f.number

end Wire

end EpochSplit
