import EpochSplit.Bytes
/-!
# Variable-length numbers

A number below `2 ^ 64` is written in groups of seven bits, least significant group first, one
group a byte; every byte but the last has its top bit set.  Ten bytes are enough, and the tenth can
only hold one bit.
-/

namespace EpochSplit.Wire.Varint

/-- Writes a number with at most `more` bytes before the last. -/
def writeWithin : (more : Nat) → Nat → Bytes
  | 0, n => [UInt8.ofNat n]
  | more + 1, n =>
      if n < 128 then [UInt8.ofNat n]
      else UInt8.ofNat (n % 128 + 128) :: writeWithin more (n / 128)

/-- Writes a number in at most ten bytes. -/
def write (n : Nat) : Bytes := writeWithin 9 n

/-- Reads a number with at most `more` bytes before the last, and gives back what follows it.  The
last byte that there is room for holds one bit. -/
def readWithin : (more : Nat) → Bytes → Option (Nat × Bytes)
  | _, [] => none
  | 0, b :: rest => if b < 2 then some (b.toNat, rest) else none
  | more + 1, b :: rest =>
      if b < 128 then some (b.toNat, rest)
      else (readWithin more rest).map fun (high, rest) => (b.toNat - 128 + 128 * high, rest)

/-- Reads a number of at most ten bytes, and gives back what follows it. -/
def read? (input : Bytes) : Option (Nat × Bytes) := readWithin 9 input

end EpochSplit.Wire.Varint
