import EpochSplit.Bytes
import EpochSplit.Error
/-!
# Keys

A key is the tag of its namespace followed by the id of the record.  `encode` writes a key and
`decode` reads it back; the shape of the namespace says which ids fit.
-/

namespace EpochSplit

/-- The id of a record within its namespace. -/
inductive RecordId where
  | singleton
  | numeric (number : UInt64)
  | text (text : String)
  | composite (text : String) (number : UInt64)
deriving DecidableEq

namespace RecordId

/-- The id of a record that belongs to a tick or to an epoch. -/
def ofWord (n : UInt32) : RecordId := numeric n.toUInt64

/-- The number in the id, if it has one. -/
def number? : RecordId → Option UInt64
  | numeric n | composite _ n => some n
  | _ => none

/-- The id as it appears in messages. -/
def display : RecordId → String
  | singleton => "<singleton>"
  | numeric n => s!"{n}"
  | text t => t
  | composite t n => s!"{t}/{n}"

/-- Whether the id is of the kind that a shape asks for. -/
def fits : RecordId → KeyShape → Bool
  | singleton, .singleton | numeric _, .numeric | text _, .text _ | composite _ _, .composite _ =>
      true
  | _, _ => false

/-- The id in bytes, as it follows the tag. -/
def bytes : RecordId → Bytes
  | singleton => []
  | numeric n => Bytes.bigEndian 8 n.toNat
  | text t => Bytes.ofText t
  | composite t n => Bytes.ofText t ++ Bytes.bigEndian 8 n.toNat

end RecordId

namespace Key

/-- The key of a record: the tag of its namespace, then its id. -/
def encode (ns : Namespace) (id : RecordId) : Bytes :=
  ns.tag :: id.bytes

/-- The key under a number. -/
def numeric (ns : Namespace) (n : UInt64) : Bytes :=
  encode ns (.numeric n)

/-- The key under the number of a tick or of an epoch. -/
def word (ns : Namespace) (n : UInt32) : Bytes :=
  numeric ns n.toUInt64

/-- The key under a text. -/
def text (ns : Namespace) (t : String) : Bytes :=
  encode ns (.text t)

/-- The key under a text and a number. -/
def composite (ns : Namespace) (t : String) (n : UInt64) : Bytes :=
  encode ns (.composite t n)

/-- Reads the bytes after the tag as an id of the given shape, or says what is wrong with them. -/
def idOfBytes (shape : KeyShape) (body : Bytes) : Except String RecordId :=
  match shape with
  | .singleton => if body.isEmpty then .ok .singleton else .error "singleton key carries an id"
  | .numeric =>
      if body.length = 8 then .ok (.numeric (UInt64.ofNat (Bytes.ofBigEndian body)))
      else .error "numeric id is not 8 bytes"
  | .text _ =>
      match Bytes.toText? body with
      | some t => .ok (.text t)
      | none => .error "id is not valid UTF-8"
  | .composite _ =>
      if body.length < 8 then .error "composite id shorter than its numeric suffix"
      else
        let split := body.length - 8
        match Bytes.toText? (body.take split) with
        | some t => .ok (.composite t (UInt64.ofNat (Bytes.ofBigEndian (body.drop split))))
        | none => .error "id is not valid UTF-8"

/-- Reads a key of the namespace. -/
def decode (ns : Namespace) (key : Bytes) : Except CodecFault RecordId :=
  let invalid := CodecFault.invalidKey ns key.length
  match key with
  | [] => .error (invalid "empty key")
  | tag :: body =>
      if tag = ns.tag then (idOfBytes ns.shape body).mapError invalid
      else .error (invalid "tag does not match namespace")

/-- Reads the tick in a key of the namespace; a number above 32 bits is none. -/
def decodeTick (ns : Namespace) (key : Bytes) : Except CodecFault UInt32 := do
  let id ← decode ns key
  match id.number? with
  | some n =>
      if n.toNat < UInt32.size then return n.toUInt32
      else throw (.invalidKey ns key.length s!"id {id.display} is not a 32-bit tick")
  | none => throw (.invalidKey ns key.length s!"id {id.display} is not a 32-bit tick")

/-- Reads the epoch in a key of the namespace; a number above 32 bits is none. -/
def decodeEpoch (ns : Namespace) (key : Bytes) : Except CodecFault UInt32 := do
  match ← decode ns key with
  | .numeric n =>
      if n.toNat < UInt32.size then return n.toUInt32
      else throw (.invalidKey ns key.length s!"epoch {n} does not fit in 32 bits")
  | id => throw (.invalidKey ns key.length s!"expected a numeric epoch id, got {id.display}")

end Key

end EpochSplit
