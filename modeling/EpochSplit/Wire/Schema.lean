import EpochSplit.Wire.Reader
import Std.Data.ExtTreeMap
/-!
# Record layouts

A record type is laid out by its schema: a name and a list of fields, each with a number, a name
and a kind.  The kind says how the values of the field are written, and how a written value is
merged into the value that is already there.  From its schema a record is written by
`Schema.encode` and read by `Schema.decode`.

Fields that have their default value are not written.  When a record is read, the last scalar wins,
lists grow, a record inside a record is merged field by field, and fields of unknown number are
skipped.
-/

namespace EpochSplit.Wire

/-! ### Scalars -/

/-- A type of values that are written as one number or as one delimited content. -/
structure Scalar (α : Type) where
  wire : WireType
  /-- The value that is not written. -/
  default : α
  /-- Whether a value is the one that is not written. -/
  isDefault : α → Bool
  write : α → Bytes
  read : Bytes → Decoding (α × Bytes)

namespace Scalar

/-- Words of 32 bits.  Of a longer number the low 32 bits are kept. -/
def uint32 : Scalar UInt32 where
  wire := .varint
  default := 0
  isDefault n := n == 0
  write n := Varint.write n.toNat
  read input := do
    let (n, rest) ← readNumber input
    .ok (UInt32.ofNat n, rest)

/-- Words of 64 bits. -/
def uint64 : Scalar UInt64 where
  wire := .varint
  default := 0
  isDefault n := n == 0
  write n := Varint.write n.toNat
  read input := do
    let (n, rest) ← readNumber input
    .ok (UInt64.ofNat n, rest)

/-- Signed numbers of 64 bits, written in two's complement. -/
def int64 : Scalar Int64 where
  wire := .varint
  default := 0
  isDefault n := n == 0
  write n := Varint.write n.toUInt64.toNat
  read input := do
    let (n, rest) ← readNumber input
    .ok ((UInt64.ofNat n).toInt64, rest)

/-- Signed numbers of 32 bits, written in the two's complement of 64 bits.  Of a longer number the
low 32 bits are kept. -/
def int32 : Scalar Int32 where
  wire := .varint
  default := 0
  isDefault n := n == 0
  write n := Varint.write n.toInt64.toUInt64.toNat
  read input := do
    let (n, rest) ← readNumber input
    .ok ((UInt32.ofNat n).toInt32, rest)

/-- Truth values.  Any number but zero is true. -/
def bool : Scalar Bool where
  wire := .varint
  default := false
  isDefault b := !b
  write b := Varint.write b.toNat
  read input := do
    let (n, rest) ← readNumber input
    .ok (n != 0, rest)

/-- Byte strings. -/
def bytes : Scalar Bytes where
  wire := .lengthDelimited
  default := []
  isDefault b := b.isEmpty
  write b := writeDelimited b
  read input := readDelimited input

/-- Texts, in UTF-8. -/
def text : Scalar String where
  wire := .lengthDelimited
  default := ""
  isDefault t := t.isEmpty
  write t := writeDelimited (Bytes.ofText t)
  read input := do
    let (b, rest) ← readDelimited input
    match Bytes.toText? b with
    | some t => .ok (t, rest)
    | none => refuse .invalidText

end Scalar

/-! ### Fields and schemas -/

/-- How the values of a field are written under its number, and how a written value is merged into
the value that is already there.  The first argument of `merge` bounds how deep records may lie in
one another. -/
structure FieldKind (α : Type) where
  /-- The value of a field that is not written. -/
  absent : α
  write : Nat → α → Bytes
  merge : Nat → WireType → α → Bytes → Decoding (α × Bytes)

/-- A field of the record type `M`. -/
structure Field (M : Type) where
  number : Nat
  name : String
  {Value : Type}
  kind : FieldKind Value
  get : M → Value
  set : M → Value → M

/-- The layout of the record type `M`. -/
structure Schema (M : Type) where
  name : String
  /-- The record with no field written. -/
  empty : M
  /-- The fields in the order in which they are written. -/
  fields : List (Field M)

namespace Schema

/-- The bytes of a record: its fields one after the other. -/
def encode {M : Type} (s : Schema M) (m : M) : Bytes :=
  s.fields.flatMap fun f => f.kind.write f.number (f.get m)

/-- Reads the content of one field into a record. -/
def mergeField {M : Type} (s : Schema M) (budget : Nat) (header : Header) (m : M)
    (input : Bytes) : Decoding (M × Bytes) :=
  match s.fields.find? (·.number == header.number) with
  | none => (skip budget header input).map fun rest => (m, rest)
  | some f =>
      match f.kind.merge budget header.wire (f.get m) input with
      | .ok (v, rest) => .ok (f.set m v, rest)
      | .error e => .error (e.inField ⟨s.name, f.name⟩)

/-- Reads one field, header and content, into a record. -/
def step {M : Type} (s : Schema M) (budget : Nat) (m : M) (input : Bytes) :
    Decoding (M × Bytes) := do
  let (header, rest) ← readHeader input
  s.mergeField budget header m rest

/-- How deep records may lie in one another. -/
def depthLimit : Nat := 100

/-- Reads a record. -/
def decode {M : Type} (s : Schema M) (input : Bytes) : Decoding M :=
  (repeatAbove 0 (s.step depthLimit) input.length s.empty input).map Prod.fst

/-- Reads a record written together with its length into a record of the same type. -/
def mergeDelimited {M : Type} (s : Schema M) (budget : Nat) (wire : WireType) (m : M)
    (input : Bytes) : Decoding (M × Bytes) := do
  expectWire .lengthDelimited wire
  match budget with
  | 0 => refuse .recursionLimit
  | budget + 1 => repeatDelimited (s.step budget) m input

end Schema

/-! ### Kinds of field -/

namespace FieldKind

/-- One scalar; the last one written wins. -/
def scalar {α : Type} (s : Scalar α) : FieldKind α where
  absent := s.default
  write number v := if s.isDefault v then [] else Header.write ⟨number, s.wire⟩ ++ s.write v
  merge _ wire _ input := do
    expectWire s.wire wire
    s.read input

/-- A list of scalars, written one by one. -/
def repeated {α : Type} (s : Scalar α) : FieldKind (List α) where
  absent := []
  write number vs := vs.flatMap fun v => Header.write ⟨number, s.wire⟩ ++ s.write v
  merge _ wire vs input := do
    expectWire s.wire wire
    let (v, rest) ← s.read input
    .ok (vs ++ [v], rest)

/-- A list of scalars, written as one delimited content.  Scalars written one by one are read
too. -/
def packed {α : Type} (s : Scalar α) : FieldKind (List α) where
  absent := []
  write number vs :=
    if vs.isEmpty then []
    else Header.write ⟨number, .lengthDelimited⟩ ++ writeDelimited (vs.flatMap s.write)
  merge _ wire vs input :=
    let one (vs : List α) (input : Bytes) : Decoding (List α × Bytes) := do
      let (v, rest) ← s.read input
      .ok (vs ++ [v], rest)
    if wire = .lengthDelimited then repeatDelimited one vs input
    else do
      expectWire s.wire wire
      one vs input

/-- A record that may be missing.  A record that is there but empty is written with length zero. -/
def optional {M : Type} (s : Schema M) : FieldKind (Option M) where
  absent := none
  write number m? :=
    match m? with
    | none => []
    | some m => Header.write ⟨number, .lengthDelimited⟩ ++ writeDelimited (s.encode m)
  merge budget wire m? input := do
    let (m, rest) ← s.mergeDelimited budget wire (m?.getD s.empty) input
    .ok (some m, rest)

/-- A list of records, written one by one. -/
def records {M : Type} (s : Schema M) : FieldKind (List M) where
  absent := []
  write number ms :=
    ms.flatMap fun m => Header.write ⟨number, .lengthDelimited⟩ ++ writeDelimited (s.encode m)
  merge budget wire ms input := do
    let (m, rest) ← s.mergeDelimited budget wire s.empty input
    .ok (ms ++ [m], rest)

/-- One pair of a map: a record whose first field is the key and whose second is the value. -/
def writePair {κ M : Type} (key : Scalar κ) (s : Schema M) (p : κ × M) : Bytes :=
  let content := s.encode p.2
  (scalar key).write 1 p.1 ++
    if content.isEmpty then []
    else Header.write ⟨2, .lengthDelimited⟩ ++ writeDelimited content

/-- Reads one field of a pair of a map. -/
def readPairField {κ M : Type} (key : Scalar κ) (s : Schema M) (budget : Nat) (p : κ × M)
    (input : Bytes) : Decoding ((κ × M) × Bytes) := do
  let (header, rest) ← readHeader input
  match header.number with
  | 1 =>
      let (k, rest) ← (scalar key).merge budget header.wire p.1 rest
      .ok ((k, p.2), rest)
  | 2 =>
      let (m, rest) ← s.mergeDelimited budget header.wire p.2 rest
      .ok ((p.1, m), rest)
  | _ =>
      let rest ← skip budget header rest
      .ok (p, rest)

/-- A map to records, written pair by pair in the order of the keys.  A later pair replaces an
earlier one with the same key.  The wire type of a pair is not looked at. -/
def map {κ M : Type} [Ord κ] [Std.TransOrd κ] (key : Scalar κ) (s : Schema M) :
    FieldKind (Std.ExtTreeMap κ M) where
  absent := ∅
  write number ps :=
    ps.toList.flatMap fun p =>
      Header.write ⟨number, .lengthDelimited⟩ ++ writeDelimited (writePair key s p)
  merge budget _ ps input :=
    match budget with
    | 0 => refuse .recursionLimit
    | budget + 1 => do
        let ((k, m), rest) ←
          repeatDelimited (readPairField key s budget) (key.default, s.empty) input
        .ok (ps.insert k m, rest)

end FieldKind

end EpochSplit.Wire
