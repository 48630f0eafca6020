import EpochSplit.Interval
import EpochSplit.Record.Legacy
import EpochSplit.Transcode
/-!
# Folding records into groups

Every record that passes through a fold belongs to a group, which is given by its epoch and by the
interval that its tick lies in.  Of each group the fold keeps one record, for instance one of the
greatest tick.
-/

namespace EpochSplit

/-- Records that say which tick of which epoch they are about. -/
class Attributed (V : Type) where
  /-- What the records are called in messages. -/
  label : String
  /-- The epoch and the tick, unless the record says neither. -/
  attribution : V → Option (UInt32 × UInt32)

instance : Attributed Legacy.QuorumTickData where
  label := "QuorumTickData"
  attribution q := q.quorumTickStructure.map fun s => (s.epoch, s.tickNumber)

/-- Prefers a record of a greater tick; of two records of one tick, the one seen first is kept. -/
def greatestTick {V : Type} [Attributed V] (current candidate : V) : Bool :=
  match Attributed.attribution current, Attributed.attribution candidate with
  | some (_, tick), some (_, tick') => tick < tick'
  | none, some _ => true
  | _, none => false

/-- The records kept, by epoch and by interval. -/
abbrev Groups (V : Type) := Std.ExtTreeMap UInt32 (Std.ExtTreeMap Nat V)

/-- A fold under way. -/
structure Fold (V : Type) where
  /-- What attributes ticks to intervals. -/
  index : IntervalIndex
  /-- Whether a candidate, the second record, takes the place of the record kept so far. -/
  prefers : V → V → Bool
  groups : Groups V := ∅
  /-- What the passes so far did together. -/
  stats : PassStats := {}

namespace Fold

variable {V : Type}

/-- The group of a record. -/
def groupOf [Attributed V] (f : Fold V) (v : V) : Except ConsistencyFault (UInt32 × Nat) :=
  match Attributed.attribution v with
  | none => .error (.unattributed (Attributed.label V))
  | some (epoch, tick) => (f.index.find epoch tick).map (epoch, ·)

/-- Offers a record to a group. -/
def offer (f : Fold V) (epoch : UInt32) (interval : Nat) (v : V) : Fold V :=
  let group := f.groups[epoch]?.getD ∅
  if group[interval]?.any fun current => !f.prefers current v then f
  else { f with groups := f.groups.insert epoch (group.insert interval v) }

/-- Offers a record to its group. -/
def observe [Attributed V] (f : Fold V) (v : V) : Except ConsistencyFault (Fold V) :=
  (f.groupOf v).map fun (epoch, interval) => f.offer epoch interval v

/-- Offers a record to its group in place: the outcome, and what the fold is afterwards.  The groups
of an epoch are made on demand, once it is known which of them the record belongs to. -/
def observeInPlace [Attributed V] (f : Fold V) (v : V) : Except ConsistencyFault Unit × Fold V :=
  match Attributed.attribution v with
  | none => (.error (.unattributed (Attributed.label V)), f)
  | some (epoch, tick) =>
      match f.index.find epoch tick with
      | .error fault => (.error fault, f)
      | .ok interval =>
          let f := { f with groups := f.groups.insertIfNew epoch ∅ }
          let group := f.groups[epoch]?.getD ∅
          if group[interval]?.any fun current => !f.prefers current v then (.ok (), f)
          else (.ok (), { f with groups := f.groups.insert epoch (group.insert interval v) })

/-- Offers the records of a list to their groups; records that belong to no group are passed
over. -/
def observeAll [Attributed V] (f : Fold V) (vs : List V) : Fold V :=
  vs.foldl (fun f v => (f.observe v).toOption.getD f) f

/-- The items of a pass through the fold: a record that belongs to no group becomes an error. -/
def attributed [Attributed V] (f : Fold V) (items : List (Except Error (V × Entry))) :
    List (Except Error Entry) :=
  items.map fun item => do
    let (v, entry) ← item
    let _ ← (f.groupOf v).mapError .consistency
    return entry

/-- The records among the items of a stream. -/
def records (items : List (Except Error (V × Entry))) : List V :=
  items.filterMap fun item => item.toOption.map Prod.fst

/-- Writes the items of a stream and offers their records to their groups. -/
def transcode {σ : Type} [Attributed V] (f : Fold V) (c : Channel σ)
    (items : List (Except Error (V × Entry))) (world : σ) :
    Except Error PassStats × Fold V × Pass σ :=
  let (r, p) := c.transcode (f.attributed items) world
  let f := f.observeAll (records (items.take p.scanned))
  match r with
  | .ok stats => (r, { f with stats := f.stats + stats }, p)
  | .error _ => (r, f, p)

/-- What makes a record of a pair, together with the pair to write for it, or fails.  It may keep a
state of its own. -/
abbrev Decoder (V τ : Type) := Entry → τ → Except Error (V × Entry) × τ

/-- A decoder that keeps no state. -/
def Decoder.stateless (decode : Entry → Except Error (V × Entry)) : Decoder V Unit := fun e t =>
  (decode e, t)

/-- Decodes a pair, offers the record to its group, and only then stages what is to be written. -/
def stageOffered {σ τ : Type} [Attributed V] (c : Channel σ) (decode : Decoder V τ) (e : Entry)
    (p : Pass σ × Fold V × τ) : Except Error Unit × Pass σ × Fold V × τ :=
  let scanned := p.1.scanned + 1
  match decode e p.2.2 with
  | (.error fault, t) => (.error fault, { p.1 with scanned }, p.2.1, t)
  | (.ok (v, entry), t) =>
      match p.2.1.observeInPlace v with
      | (.error fault, f) => (.error (.consistency fault), { p.1 with scanned }, f, t)
      | (.ok (), f) =>
          let (r, batch) := c.stage entry p.1.batch
          (r, ⟨batch, scanned⟩, f, t)

/-- Writes what is decoded of the pairs of a source in a range, and offers the records to their
groups.  What a pass did is counted once it is over. -/
def transcodeRange {σ τ : Type} [Attributed V] (f : Fold V) (s : Source) (r : KeyRange)
    (c : Channel σ) (decode : Decoder V τ) (world : σ) (t : τ) :
    Except Error PassStats × Pass σ × Fold V × τ :=
  match s.visit r (stageOffered c decode) (⟨{ world }, 0⟩, f, t) with
  | (.error fault, p, f, t) => (.error fault, p, f, t)
  | (.ok (), p, f, t) =>
      match c.flush p.batch with
      | (.error fault, batch) => (.error fault, { p with batch }, f, t)
      | (.ok (), batch) =>
          let p := { p with batch }
          (.ok p.stats, p, { f with stats := f.stats + p.stats }, t)

/-- One item for each epoch, made of the records kept for it. -/
def kept (f : Fold V) (encode : UInt32 → Std.ExtTreeMap Nat V → Except CodecFault Entry) :
    List (Except Error Entry) :=
  f.groups.toList.map fun (epoch, selected) => (encode epoch selected).mapError .codec

/-- Writes one record for each epoch, made of the records kept for it.  Nothing is scanned. -/
def persist {σ : Type} (f : Fold V) (c : Channel σ)
    (encode : UInt32 → Std.ExtTreeMap Nat V → Except CodecFault Entry) (world : σ) :
    Except Error PassStats × Pass σ :=
  let (r, p) := c.transcode (f.kept encode) world
  (r.map fun stats => { stats with scanned := 0 }, p)

end Fold

end EpochSplit
