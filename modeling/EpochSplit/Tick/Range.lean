/-!
# Tick ranges

Ticks are numbered by 32-bit words.  A range is given by its first and its last tick, both
included; a range whose last tick comes before its first holds no tick.
-/

namespace EpochSplit

/-- The ticks from `start` to `stop`, both included. -/
structure TickRange where
  /-- The first tick. -/
  start : UInt32
  /-- The last tick. -/
  stop : UInt32
deriving DecidableEq

namespace TickRange

/-- Whether a tick lies in the range. -/
def contains (r : TickRange) (tick : UInt32) : Bool :=
  r.start ≤ tick && tick ≤ r.stop

/-- The number of ticks in the range. -/
def size (r : TickRange) : Nat :=
  r.stop.toNat + 1 - r.start.toNat

/-- Whether the range holds no tick. -/
def isEmpty (r : TickRange) : Bool :=
  r.size == 0

/-- The range as it appears in messages. -/
def text (r : TickRange) : String :=
  s!"[{r.start}, {r.stop}]"

@[simp] theorem contains_iff {r : TickRange} {tick : UInt32} :
    r.contains tick = true ↔ r.start ≤ tick ∧ tick ≤ r.stop := by
  simp [contains]

end TickRange

end EpochSplit
