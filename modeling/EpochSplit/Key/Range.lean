import EpochSplit.Key
import EpochSplit.Tick.Range
/-!
# Key ranges

A range of keys is half open: it holds its lower bound and the keys up to, but without, its upper
bound.  Whole namespaces and ranges of ticks are read through such ranges.
-/

namespace EpochSplit

/-- The keys from `lower` up to, but without, `upper`. -/
structure KeyRange where
  lower : Bytes
  upper : Bytes
deriving DecidableEq

namespace KeyRange

/-- Whether a key lies in the range. -/
def contains (r : KeyRange) (key : Bytes) : Bool :=
  (compare r.lower key).isLE && (compare key r.upper).isLT

/-- Whether the bounds leave no room for a key. -/
def isEmpty (r : KeyRange) : Bool :=
  (compare r.upper r.lower).isLE

theorem contains_iff {r : KeyRange} {key : Bytes} :
    r.contains key = true ↔
      (compare r.lower key).isLE = true ∧ compare key r.upper = .lt := by
  rw [contains, Bool.and_eq_true, Ordering.isLT_iff_eq_lt]

theorem isEmpty_eq_false_iff {r : KeyRange} :
    r.isEmpty = false ↔ compare r.lower r.upper = .lt := by
  have hswap : compare r.upper r.lower = (compare r.lower r.upper).swap :=
    Std.OrientedCmp.eq_swap
  rw [isEmpty, hswap]
  cases compare r.lower r.upper <;> decide

/-- A range is empty if there is no key in it, and only then. -/
theorem isEmpty_iff {r : KeyRange} : r.isEmpty = true ↔ ∀ key, r.contains key = false := by
  constructor
  · intro hempty key
    rw [Bool.eq_false_iff]
    intro hkey
    rw [contains_iff] at hkey
    have hroom := isEmpty_eq_false_iff.2 (Std.TransCmp.lt_of_isLE_of_lt hkey.1 hkey.2)
    exact Bool.false_ne_true (hroom.symm.trans hempty)
  · intro hnone
    rw [← Bool.not_eq_false]
    intro hroom
    -- otherwise the lower bound is in it
    have hlower : r.contains r.lower = true :=
      contains_iff.2 ⟨Std.ReflCmp.isLE_rfl, isEmpty_eq_false_iff.1 hroom⟩
    exact Bool.false_ne_true ((hnone r.lower).symm.trans hlower)

/-- Puts the bounds of a range to a query.  There is no query for bounds in the wrong order, and a
range without room for a key is answered without asking. -/
def ask {α : Type} (r : KeyRange) (vacant : α)
    (query : (lower upper : Bytes) → (compare lower upper).isLE = true → α) : α :=
  if h : r.isEmpty = false then
    query r.lower r.upper (Ordering.isLE_of_eq_lt (isEmpty_eq_false_iff.1 h))
  else vacant

theorem ask_of_isEmpty {α : Type} {r : KeyRange} (h : r.isEmpty = true) (vacant : α)
    (query : (lower upper : Bytes) → (compare lower upper).isLE = true → α) :
    r.ask vacant query = vacant :=
  dif_neg fun hroom => Bool.false_ne_true (hroom.symm.trans h)

theorem ask_of_lt {α : Type} {r : KeyRange} (h : compare r.lower r.upper = .lt) (vacant : α)
    (query : (lower upper : Bytes) → (compare lower upper).isLE = true → α) :
    r.ask vacant query = query r.lower r.upper (Ordering.isLE_of_eq_lt h) :=
  dif_pos (isEmpty_eq_false_iff.2 h)

/-- The bound that the keys in use of a namespace stay below. -/
def upperBound (ns : Namespace) : Bytes :=
  match ns.shape with
  | .singleton => [ns.tag, 0x00]
  | .numeric => Key.numeric ns 0xFFFFFFFFFFFFFFFF
  | .text upper => Key.text ns upper
  | .composite upper => Key.composite ns upper 0xFFFFFFFFFFFFFFFF

/-- The keys of a namespace. -/
def ofNamespace (ns : Namespace) : KeyRange :=
  ⟨[ns.tag], upperBound ns⟩

/-- The keys of a numeric namespace whose numbers lie in a range of ticks. -/
def ofTicks (ns : Namespace) (r : TickRange) : KeyRange :=
  ⟨Key.numeric ns r.start.toUInt64, Key.numeric ns (r.stop.toUInt64 + 1)⟩

end KeyRange

end EpochSplit
