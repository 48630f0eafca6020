import EpochSplit.Wire.Varint
/-!
# Reading records

A record is a sequence of fields.  Each field starts with a header, a number that holds the field's
own number and its wire type; the wire type says how far the field's content reaches.  This file
reads headers, contents of a known length and contents that nobody asked for.

A content of known length is read from everything that is left of the input, until the bytes
consumed reach its length; a last item that reaches beyond the length is an error.
-/

namespace EpochSplit.Wire

/-- How far the content of a field reaches. -/
inductive WireType where
  | varint
  | sixtyFourBit
  | lengthDelimited
  | startGroup
  | endGroup
  | thirtyTwoBit
deriving DecidableEq

namespace WireType

/-- The number of a wire type in a header. -/
def code : WireType → Nat
  | varint => 0
  | sixtyFourBit => 1
  | lengthDelimited => 2
  | startGroup => 3
  | endGroup => 4
  | thirtyTwoBit => 5

/-- The wire type with a given number. -/
def ofCode? : Nat → Option WireType
  | 0 => some varint
  | 1 => some sixtyFourBit
  | 2 => some lengthDelimited
  | 3 => some startGroup
  | 4 => some endGroup
  | 5 => some thirtyTwoBit
  | _ => none

/-- The name of a wire type in messages. -/
def name : WireType → String
  | varint => "Varint"
  | sixtyFourBit => "SixtyFourBit"
  | lengthDelimited => "LengthDelimited"
  | startGroup => "StartGroup"
  | endGroup => "EndGroup"
  | thirtyTwoBit => "ThirtyTwoBit"

@[simp] theorem ofCode?_code (w : WireType) : ofCode? w.code = some w := by
  cases w <;> rfl

end WireType

/-! ### Errors -/

/-- What is wrong with the bytes of a record. -/
inductive Fault where
  | invalidVarint
  | invalidHeader (n : Nat)
  | invalidWireType (code : Nat)
  | zeroFieldNumber
  | wireTypeMismatch (found expected : WireType)
  | underflow
  | lengthExceeded
  | invalidText
  | unexpectedEndGroup
  | recursionLimit
deriving DecidableEq

/-- The text of a fault. -/
def Fault.message : Fault → String
  | invalidVarint => "invalid varint"
  | invalidHeader n => s!"invalid key value: {n}"
  | invalidWireType code => s!"invalid wire type value: {code}"
  | zeroFieldNumber => "invalid tag value: 0"
  | wireTypeMismatch found expected =>
      s!"invalid wire type: {found.name} (expected {expected.name})"
  | underflow => "buffer underflow"
  | lengthExceeded => "delimited length exceeded"
  | invalidText => "invalid string value: data is not UTF-8 encoded"
  | unexpectedEndGroup => "unexpected end group tag"
  | recursionLimit => "recursion limit reached"

/-- A field of a record type, as messages name it. -/
structure FieldName where
  record : String
  field : String
deriving DecidableEq

/-- A fault and the fields it lies in, the innermost first. -/
structure DecodeError where
  fault : Fault
  path : List FieldName
deriving DecidableEq

namespace DecodeError

/-- A fault outside any field. -/
def bare (fault : Fault) : DecodeError := ⟨fault, []⟩

/-- The error seen from one field further out. -/
def inField (field : FieldName) (e : DecodeError) : DecodeError :=
  { e with path := e.path ++ [field] }

/-- The text of the error: the fields from the innermost out, then the fault. -/
def message (e : DecodeError) : String :=
  "failed to decode Protobuf message: " ++
    String.join (e.path.map fun f => f.record ++ "." ++ f.field ++ ": ") ++ e.fault.message

end DecodeError

/-- What a reader makes of its input, or an error. -/
abbrev Decoding := Except DecodeError

/-- Gives up with a fault. -/
def refuse {α : Type} (fault : Fault) : Decoding α :=
  .error (.bare fault)

/-! ### Numbers, headers and contents -/

/-- Reads a variable-length number. -/
def readNumber (input : Bytes) : Decoding (Nat × Bytes) :=
  match Varint.read? input with
  | some r => .ok r
  | none => refuse .invalidVarint

/-- The header of a field. -/
structure Header where
  number : Nat
  wire : WireType
deriving DecidableEq

/-- Writes a header. -/
def Header.write (h : Header) : Bytes :=
  Varint.write (8 * h.number + h.wire.code)

/-- Reads a header.  It must fit 32 bits, and its field number must not be zero. -/
def readHeader (input : Bytes) : Decoding (Header × Bytes) := do
  let (n, rest) ← readNumber input
  if UInt32.size ≤ n then refuse (.invalidHeader n)
  else match WireType.ofCode? (n % 8) with
    | none => refuse (.invalidWireType (n % 8))
    | some wire =>
        if n / 8 = 0 then refuse .zeroFieldNumber
        else .ok (⟨n / 8, wire⟩, rest)

/-- Refuses a field whose wire type is not the one its kind asks for. -/
def expectWire (expected found : WireType) : Decoding Unit :=
  if found = expected then .ok () else refuse (.wireTypeMismatch found expected)

/-- Drops `n` bytes. -/
def dropBytes (n : Nat) (input : Bytes) : Decoding Bytes :=
  if input.length < n then refuse .underflow else .ok (input.drop n)

/-- Writes a content together with its length. -/
def writeDelimited (content : Bytes) : Bytes :=
  Varint.write content.length ++ content

/-- Reads a content written together with its length. -/
def readDelimited (input : Bytes) : Decoding (Bytes × Bytes) := do
  let (n, rest) ← readNumber input
  if rest.length < n then refuse .underflow
  else .ok (rest.take n, rest.drop n)

/-- Repeats a step until no more than `stop` bytes are left.  A step consumes a byte at least, so as
many steps as there are bytes are enough. -/
def repeatAbove {α : Type} (stop : Nat) (step : α → Bytes → Decoding (α × Bytes)) :
    (steps : Nat) → α → Bytes → Decoding (α × Bytes)
  | 0, a, input => .ok (a, input)
  | steps + 1, a, input =>
      if input.length ≤ stop then .ok (a, input)
      else do
        let (a, rest) ← step a input
        repeatAbove stop step steps a rest

/-- Repeats a step over a content written together with its length. -/
def repeatDelimited {α : Type} (step : α → Bytes → Decoding (α × Bytes)) (a : α) (input : Bytes) :
    Decoding (α × Bytes) := do
  let (n, rest) ← readNumber input
  if rest.length < n then refuse .underflow
  else
    let stop := rest.length - n
    let (a, rest) ← repeatAbove stop step rest.length a rest
    if rest.length = stop then .ok (a, rest) else refuse .lengthExceeded

/-! ### Contents that nobody asked for -/

/-- Skips the fields of a group up to the end of the group; `skipField` skips one of them. -/
def skipGroup (number : Nat) (skipField : Header → Bytes → Decoding Bytes) :
    (steps : Nat) → Bytes → Decoding Bytes
  | 0, _ => refuse .invalidVarint
  | steps + 1, input => do
      let (header, rest) ← readHeader input
      if header.wire = .endGroup then
        if header.number = number then .ok rest else refuse .unexpectedEndGroup
      else
        let rest ← skipField header rest
        skipGroup number skipField steps rest

/-- Skips the content of a field.  `budget` bounds how deep groups may lie in one another. -/
def skip : (budget : Nat) → Header → Bytes → Decoding Bytes
  | 0, _, _ => refuse .recursionLimit
  | budget + 1, header, input =>
      match header.wire with
      | .varint => do
          let (_, rest) ← readNumber input
          .ok rest
      | .thirtyTwoBit => dropBytes 4 input
      | .sixtyFourBit => dropBytes 8 input
      | .lengthDelimited => do
          let (n, rest) ← readNumber input
          dropBytes n rest
      | .startGroup => skipGroup header.number (skip budget) (input.length + 1) input
      | .endGroup => refuse .unexpectedEndGroup

end EpochSplit.Wire
