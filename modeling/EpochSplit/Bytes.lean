/-!
# Byte strings

Keys and values are byte strings.  This file fixes their order, the fixed-width numbers written
inside them, and the passage to and from text.
-/

namespace EpochSplit

/-- A key or a value.  Byte strings are compared byte by byte, and a string comes before its own
continuations. -/
abbrev Bytes := List UInt8

/-- One pair of a store: a key and the value under it. -/
abbrev Entry := Bytes × Bytes

namespace Bytes

/-! ### Fixed-width numbers -/

/-- The last `width` bytes of `n`, most significant byte first. -/
def bigEndian : (width : Nat) → Nat → Bytes
  | 0, _ => []
  | width + 1, n => bigEndian width (n / 256) ++ [UInt8.ofNat n]

/-- The number written with its most significant byte first. -/
def ofBigEndian (bs : Bytes) : Nat :=
  bs.foldl (fun n b => n * 256 + b.toNat) 0

/-- The last `width` bytes of `n`, least significant byte first. -/
def littleEndian : (width : Nat) → Nat → Bytes
  | 0, _ => []
  | width + 1, n => UInt8.ofNat n :: littleEndian width (n / 256)

/-- The number written with its least significant byte first. -/
def ofLittleEndian : Bytes → Nat
  | [] => 0
  | b :: bs => b.toNat + 256 * ofLittleEndian bs

@[simp] theorem length_bigEndian (width n : Nat) : (bigEndian width n).length = width := by
  induction width generalizing n with
  | zero => rfl
  | succ width ih => simp [bigEndian, ih]

@[simp] theorem length_littleEndian (width n : Nat) : (littleEndian width n).length = width := by
  induction width generalizing n with
  | zero => rfl
  | succ width ih => simp [littleEndian, ih]

/-! ### Text -/

/-- The UTF-8 form of a text. -/
def ofText (text : String) : Bytes :=
  text.toUTF8.data.toList

/-- The text whose UTF-8 form the bytes are, if they are one. -/
def toText? (bs : Bytes) : Option String :=
  String.fromUTF8? ⟨bs.toArray⟩

/-- A text is read back from its UTF-8 form. -/
theorem toText?_ofText (text : String) : toText? (ofText text) = some text :=
  dif_pos text.isValidUTF8

end Bytes

end EpochSplit
