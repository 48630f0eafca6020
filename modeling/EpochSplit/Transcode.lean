import EpochSplit.Batch
/-!
# Transcoding

A pass writes the items of a stream one after the other.  An item is a record to write, or the
error that stands in its place; the pass stops at the first failure, and what was committed until
then stays written.
-/

namespace EpochSplit

/-- What a pass did. -/
structure PassStats where
  /-- The number of items read. -/
  scanned : Nat := 0
  /-- The number of records committed. -/
  written : Nat := 0
  /-- The number of commits. -/
  flushes : Nat := 0
deriving DecidableEq

/-- The sum of two passes. -/
instance : Add PassStats where
  add a b := ⟨a.scanned + b.scanned, a.written + b.written, a.flushes + b.flushes⟩

/-- A pass under way. -/
structure Pass (σ : Type) where
  batch : Batch σ
  /-- The number of items looked at, the one that failed included. -/
  scanned : Nat := 0

namespace Pass

/-- What the pass did so far. -/
def stats {σ : Type} (p : Pass σ) : PassStats :=
  ⟨p.scanned, p.batch.written, p.batch.flushes⟩

end Pass

namespace Channel

variable {σ : Type}

/-- Stages the items of a stream one after the other, up to the first failure. -/
def stageAll (c : Channel σ) : List (Except Error Entry) → Pass σ → Except Error Unit × Pass σ
  | [], p => (.ok (), p)
  | .error e :: _, p => (.error e, { p with scanned := p.scanned + 1 })
  | .ok entry :: items, p =>
      match c.stage entry p.batch with
      | (.ok (), batch) => c.stageAll items ⟨batch, p.scanned + 1⟩
      | (.error e, batch) => (.error e, ⟨batch, p.scanned + 1⟩)

/-- Writes the items of a stream, the last incomplete batch included. -/
def transcode (c : Channel σ) (items : List (Except Error Entry)) (world : σ) :
    Except Error PassStats × Pass σ :=
  match c.stageAll items ⟨{ world }, 0⟩ with
  | (.error e, p) => (.error e, p)
  | (.ok (), p) =>
      match c.flush p.batch with
      | (.error e, batch) => (.error e, { p with batch })
      | (.ok (), batch) =>
          let p := { p with batch }
          (.ok p.stats, p)

end Channel

/-! ### Transforms -/

/-- What makes a record of a pair, or fails.  It may keep a state of its own. -/
abbrev Transform (τ : Type) := Entry → τ → Except Error Entry × τ

/-- Stages what a transform makes of a pair. -/
def Channel.stageMade {σ τ : Type} (c : Channel σ) (transform : Transform τ) (e : Entry)
    (p : Pass σ × τ) : Except Error Unit × Pass σ × τ :=
  let scanned := p.1.scanned + 1
  match transform e p.2 with
  | (.error fault, t) => (.error fault, { p.1 with scanned }, t)
  | (.ok entry, t) =>
      let (r, batch) := c.stage entry p.1.batch
      (r, ⟨batch, scanned⟩, t)

/-- Writes what a transform makes of the pairs of a source in a range, to which it is applied one
after the other. -/
def Source.transcode {σ τ : Type} (s : Source) (r : KeyRange) (c : Channel σ)
    (transform : Transform τ) (world : σ) (t : τ) : Except Error PassStats × Pass σ × τ :=
  match s.visit r (c.stageMade transform) (⟨{ world }, 0⟩, t) with
  | (.error fault, p, t) => (.error fault, p, t)
  | (.ok (), p, t) =>
      match c.flush p.batch with
      | (.error fault, batch) => (.error fault, { p with batch }, t)
      | (.ok (), batch) =>
          let p := { p with batch }
          (.ok p.stats, p, t)

/-- The items that a transform makes of the pairs of a source in a range. -/
def Source.transformed (s : Source) (r : KeyRange) (transform : Entry → Except Error Entry) :
    List (Except Error Entry) :=
  (s.items r).map (·.bind transform)

end EpochSplit
