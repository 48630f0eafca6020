import EpochSplit.Wire.Reader
import Mathlib.Algebra.Group.Nat.Defs
import Mathlib.Tactic.Common
/-!
# Reading what was written

Numbers, headers and delimited contents are read back, whatever follows them.  A record is read in
steps; that steps read some bytes to their end, whatever follows, is `Reads`, and a loop over such
bytes ends where they end (`Reads.repeatAbove`, `Reads.repeatDelimited`).

All of this is about contents shorter than `2 ^ 64` bytes, whose length is a number that can be
written.
-/

namespace EpochSplit.Wire

/-! ### Variable-length numbers -/

namespace Varint

lemma writeWithin_ne_nil (more n : Nat) : writeWithin more n ≠ [] := by
  cases more with
  | zero => exact List.cons_ne_nil _ _
  | succ more =>
      rw [writeWithin]
      split <;> exact List.cons_ne_nil _ _

@[simp] lemma write_ne_nil (n : Nat) : write n ≠ [] := writeWithin_ne_nil 9 n

/-- The last byte that there is room for holds one bit, and each byte before it seven. -/
lemma readWithin_writeWithin {more n : Nat} (h : n < 2 * 128 ^ more) (rest : Bytes) :
    readWithin more (writeWithin more n ++ rest) = some (n, rest) := by
  induction more generalizing n with
  | zero =>
      have hn : n < 2 := by simpa using h
      have hbyte : UInt8.ofNat n < 2 := by
        rw [UInt8.lt_iff_toNat_lt, UInt8.toNat_ofNat']
        simp only [UInt8.reduceToNat]
        omega
      simp only [writeWithin, List.singleton_append, readWithin, if_pos hbyte, UInt8.toNat_ofNat']
      rw [Nat.mod_eq_of_lt (by omega)]
  | succ more ih =>
      rw [writeWithin]
      by_cases hlast : n < 128
      · have hbyte : UInt8.ofNat n < 128 := by
          rw [UInt8.lt_iff_toNat_lt, UInt8.toNat_ofNat']
          simp only [UInt8.reduceToNat]
          omega
        simp only [if_pos hlast, List.singleton_append, readWithin, if_pos hbyte,
          UInt8.toNat_ofNat']
        rw [Nat.mod_eq_of_lt (by omega)]
      · have hvalue : (UInt8.ofNat (n % 128 + 128)).toNat = n % 128 + 128 := by
          rw [UInt8.toNat_ofNat']
          omega
        have hbyte : ¬UInt8.ofNat (n % 128 + 128) < 128 := by
          rw [UInt8.lt_iff_toNat_lt, hvalue]
          simp only [UInt8.reduceToNat]
          omega
        have hhigh : n / 128 < 2 * 128 ^ more := by
          rw [Nat.pow_succ] at h
          omega
        rw [if_neg hlast, List.cons_append, readWithin, if_neg hbyte, ih hhigh, Option.map_some,
          hvalue]
        simp only [Option.some.injEq, Prod.mk.injEq, and_true]
        omega

/-- Ten bytes are enough for a number below `2 ^ 64`. -/
theorem read?_write {n : Nat} (h : n < 2 ^ 64) (rest : Bytes) :
    read? (write n ++ rest) = some (n, rest) := by
  have hroom : n < 2 * 128 ^ 9 := by omega
  exact readWithin_writeWithin hroom rest

end Varint

lemma readNumber_write {n : Nat} (h : n < 2 ^ 64) (rest : Bytes) :
    readNumber (Varint.write n ++ rest) = .ok (n, rest) := by
  rw [readNumber, Varint.read?_write h]

/-! ### Headers and delimited contents -/

/-- The numbers that fields can have, so that a header fits 32 bits. -/
def FieldNumber (number : Nat) : Prop := 0 < number ∧ number < 2 ^ 29

instance (number : Nat) : Decidable (FieldNumber number) :=
  inferInstanceAs (Decidable (_ ∧ _))

@[simp] lemma Header.write_ne_nil (h : Header) : h.write ≠ [] := Varint.write_ne_nil _

lemma readHeader_write {number : Nat} (h : FieldNumber number) (wire : WireType) (rest : Bytes) :
    readHeader (Header.write ⟨number, wire⟩ ++ rest) = .ok (⟨number, wire⟩, rest) := by
  obtain ⟨hpos, hlt⟩ := h
  have hcode : wire.code < 8 := by cases wire <;> decide
  have hbound : ¬UInt32.size ≤ 8 * number + wire.code := by
    simp only [UInt32.size]
    omega
  have hmod : (8 * number + wire.code) % 8 = wire.code := by omega
  have hdiv : (8 * number + wire.code) / 8 = number := by omega
  have hne : number ≠ 0 := Nat.ne_of_gt hpos
  rw [readHeader, Header.write, readNumber_write (by dsimp only; omega)]
  simp only [bind, Except.bind, if_neg hbound, hmod, hdiv, WireType.ofCode?_code, if_neg hne]

lemma length_writeDelimited (content : Bytes) :
    (writeDelimited content).length = (Varint.write content.length).length + content.length :=
  List.length_append

@[simp] lemma writeDelimited_ne_nil (content : Bytes) : writeDelimited content ≠ [] := by
  simp [writeDelimited]

lemma readDelimited_write {content : Bytes} (h : content.length < 2 ^ 64) (rest : Bytes) :
    readDelimited (writeDelimited content ++ rest) = .ok (content, rest) := by
  have hroom : ¬(content ++ rest).length < content.length := by simp
  rw [readDelimited, writeDelimited, List.append_assoc, readNumber_write h]
  simp only [bind, Except.bind, if_neg hroom, List.take_left, List.drop_left]

/-! ### Reading in steps -/

/-- Step by step, the bytes are read to their end and take `a` to `b`, whatever follows them. -/
inductive Reads {α : Type} (step : α → Bytes → Decoding (α × Bytes)) : α → Bytes → α → Prop
  | done (a : α) : Reads step a [] a
  | next {a b c : α} {chunk bytes : Bytes} (nonempty : chunk ≠ [])
      (first : ∀ rest, step a (chunk ++ rest) = .ok (b, rest)) (more : Reads step b bytes c) :
      Reads step a (chunk ++ bytes) c

namespace Reads

variable {α : Type} {step : α → Bytes → Decoding (α × Bytes)} {a b c : α} {bytes more : Bytes}

lemma single (nonempty : bytes ≠ []) (h : ∀ rest, step a (bytes ++ rest) = .ok (b, rest)) :
    Reads step a bytes b := by
  have hall := next nonempty h (.done b)
  rwa [List.append_nil] at hall

lemma append (h : Reads step a bytes b) (hmore : Reads step b more c) :
    Reads step a (bytes ++ more) c := by
  induction h with
  | done _ => exact hmore
  | next nonempty first _ ih =>
      rw [List.append_assoc]
      exact .next nonempty first (ih hmore)

/-- Where there is nothing to read, nothing changes. -/
lemma eq_of_nil (h : Reads step a [] b) : a = b := by
  generalize hbytes : ([] : Bytes) = bytes at h
  cases h with
  | done _ => rfl
  | next nonempty _ _ => exact absurd (List.append_eq_nil_iff.1 hbytes.symm).1 nonempty

/-- A loop over the bytes ends where they end. -/
theorem repeatAbove (h : Reads step a bytes b) (rest : Bytes) {steps : Nat}
    (hsteps : bytes.length ≤ steps) :
    repeatAbove rest.length step steps a (bytes ++ rest) = .ok (b, rest) := by
  induction h generalizing steps with
  | done a => cases steps <;> simp [Wire.repeatAbove]
  | @next a b c chunk bytes nonempty first _ ih =>
      -- each step takes a byte at least, so that the steps do not run out
      have hchunk : 0 < chunk.length := List.length_pos_iff.2 nonempty
      rw [List.length_append] at hsteps
      cases steps with
      | zero => omega
      | succ steps =>
          have hroom : ¬(chunk ++ bytes ++ rest).length ≤ rest.length := by
            simp only [List.length_append]
            omega
          rw [Wire.repeatAbove, if_neg hroom, List.append_assoc, first]
          exact ih (by omega)

/-- A loop over a content that is written together with its length ends with the content. -/
theorem repeatDelimited (h : Reads step a bytes b) (hlength : bytes.length < 2 ^ 64)
    (rest : Bytes) :
    repeatDelimited step a (writeDelimited bytes ++ rest) = .ok (b, rest) := by
  have hroom : ¬(bytes ++ rest).length < bytes.length := by simp
  have hstop : (bytes ++ rest).length - bytes.length = rest.length := by simp
  have henough : bytes.length ≤ (bytes ++ rest).length := by simp
  have hloop := h.repeatAbove rest henough
  rw [Wire.repeatDelimited, writeDelimited, List.append_assoc, readNumber_write hlength]
  simp only [bind, Except.bind, if_neg hroom, hstop, hloop, if_true]

end Reads

end EpochSplit.Wire
