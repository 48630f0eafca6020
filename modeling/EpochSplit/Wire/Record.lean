import EpochSplit.Wire.Schema
import EpochSplit.Error
/-!
# Records

A record type is a type with a layout.  Records are written to the values of a store by `encode` and
read from them by `decode`, which names the namespace in its errors.  Some namespaces hold a plain
32-bit number instead, in four bytes, least significant first.
-/

namespace EpochSplit.Wire

/-- A type of records that are stored in the layout `schema`. -/
class Record (M : Type) where
  /-- The layout of the records. -/
  schema : Schema M

/-- The value that stores a record. -/
def encode {M : Type} [Record M] (m : M) : Bytes :=
  (Record.schema (M := M)).encode m

/-- The record that a value of the namespace stores. -/
def decode (M : Type) [Record M] (ns : Namespace) (value : Bytes) : Except CodecFault M :=
  ((Record.schema (M := M)).decode value).mapError fun e => .decode ns e.message

/-- The value that stores a 32-bit number. -/
def encodeWord (n : UInt32) : Bytes :=
  Bytes.littleEndian 4 n.toNat

/-- The 32-bit number that a value of the namespace stores. -/
def decodeWord (ns : Namespace) (value : Bytes) : Except CodecFault UInt32 :=
  if value.length = 4 then .ok (UInt32.ofNat (Bytes.ofLittleEndian value))
  else .error (.decode ns s!"expected 4 bytes, got {value.length}")

end EpochSplit.Wire
