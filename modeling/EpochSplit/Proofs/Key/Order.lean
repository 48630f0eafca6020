import EpochSplit.Key.Range
import EpochSplit.Proofs.Key.Codec
/-!
# The order of keys

Byte strings are compared byte by byte, so that numbers with the most significant byte first are in
the order of the numbers.  The range of a namespace ends in front of a sentinel: it holds the keys
of the ids that come before the sentinel, and only these (`contains_encode_iff`).
-/

namespace EpochSplit

/-! ### Comparing byte strings -/

namespace Bytes

/-- Where the first parts are of the same length, they are compared first. -/
lemma compare_append {as bs : Bytes} (h : as.length = bs.length) (xs ys : Bytes) :
    compare (as ++ xs) (bs ++ ys) = (compare as bs).then (compare xs ys) := by
  induction as generalizing bs with
  | nil =>
      rw [List.eq_nil_of_length_eq_zero h.symm]
      rfl
  | cons a as ih =>
      cases bs with
      | nil => cases h
      | cons b bs =>
          rw [List.cons_append, List.cons_append, List.compare_cons_cons, List.compare_cons_cons,
            ih (Nat.succ.inj h), Ordering.then_assoc]

lemma compare_toNat (a b : UInt8) : compare a.toNat b.toNat = compare a b := by
  simp only [compare, compareOfLessAndEq, UInt8.lt_iff_toNat_lt, UInt8.toNat_inj]

lemma compare_divMod (a b : Nat) :
    (compare (a / 256) (b / 256)).then (compare (a % 256) (b % 256)) = compare a b := by
  obtain hlt | rfl | hgt := Nat.lt_trichotomy a b
  · rw [Nat.compare_eq_lt.2 hlt, Ordering.then_eq_lt, Nat.compare_eq_lt, Nat.compare_eq_eq,
      Nat.compare_eq_lt]
    omega
  · simp
  · rw [Nat.compare_eq_gt.2 hgt, Ordering.then_eq_gt, Nat.compare_eq_gt, Nat.compare_eq_eq,
      Nat.compare_eq_gt]
    omega

/-- Numbers are in the order of their bytes, the most significant byte first. -/
theorem compare_bigEndian {width a b : Nat} (ha : a < 256 ^ width) (hb : b < 256 ^ width) :
    compare (bigEndian width a) (bigEndian width b) = compare a b := by
  induction width generalizing a b with
  | zero =>
      rw [Nat.pow_zero, Nat.lt_one_iff] at ha hb
      rw [ha, hb]
      rfl
  | succ width ih =>
      rw [Nat.pow_succ] at ha hb
      -- all but the last byte are those of `a / 256`, and the last is `a % 256`
      rw [bigEndian, bigEndian, compare_append (by simp), ih (by omega) (by omega),
        List.compare_cons_cons, Std.compare_self, Ordering.then_eq, ← compare_toNat,
        UInt8.toNat_ofNat', UInt8.toNat_ofNat']
      exact compare_divMod a b

lemma compare_word {a b : UInt64} :
    compare (bigEndian 8 a.toNat) (bigEndian 8 b.toNat) = .lt ↔ a < b := by
  rw [compare_bigEndian a.toNat_lt b.toNat_lt, Nat.compare_eq_lt, UInt64.lt_iff_toNat_lt]

end Bytes

/-! ### The range of a namespace -/

/-- What follows the tag in the upper bound of a namespace. -/
def KeyShape.sentinel : KeyShape → Bytes
  | singleton => [0x00]
  | numeric => Bytes.bigEndian 8 0xFFFFFFFFFFFFFFFF
  | text upper => Bytes.ofText upper
  | composite upper => Bytes.ofText upper ++ Bytes.bigEndian 8 0xFFFFFFFFFFFFFFFF

namespace RecordId

/-- The id comes before the sentinel at which the range of its namespace ends. -/
def Below : RecordId → KeyShape → Prop
  | singleton, .singleton => True
  | numeric n, .numeric => n < 0xFFFFFFFFFFFFFFFF
  | text t, .text upper => compare (Bytes.ofText t) (Bytes.ofText upper) = .lt
  | composite t n, .composite upper =>
      compare (Bytes.ofText t ++ Bytes.bigEndian 8 n.toNat)
        (Bytes.ofText upper ++ Bytes.bigEndian 8 0xFFFFFFFFFFFFFFFF) = .lt
  | _, _ => False

lemma below_iff {id : RecordId} {shape : KeyShape} (h : id.fits shape = true) :
    id.Below shape ↔ compare id.bytes shape.sentinel = .lt := by
  cases id with
  | singleton =>
      cases shape with
      | singleton => exact ⟨fun _ => rfl, fun _ => trivial⟩
      | _ => cases h
  | numeric n =>
      cases shape with
      | numeric =>
          exact (Bytes.compare_word (b := 0xFFFFFFFFFFFFFFFF)).symm
      | _ => cases h
  | text t =>
      cases shape with
      | text upper => exact Iff.rfl
      | _ => cases h
  | composite t n =>
      cases shape with
      | composite upper => exact Iff.rfl
      | _ => cases h

end RecordId

namespace KeyRange

lemma upperBound_eq (ns : Namespace) : upperBound ns = ns.tag :: ns.shape.sentinel := by
  unfold upperBound
  cases ns.shape <;> rfl

/-- The keys of a namespace are compared by what follows the tag. -/
lemma contains_tagged {ns : Namespace} {body : Bytes} :
    (ofNamespace ns).contains (ns.tag :: body) = true ↔ compare body ns.shape.sentinel = .lt := by
  have hlower : (compare [ns.tag] (ns.tag :: body)).isLE = true := by
    rw [List.compare_cons_cons, Std.compare_self, Ordering.eq_then]
    cases body <;> rfl
  rw [contains, ofNamespace, hlower, upperBound_eq, List.compare_cons_cons, Std.compare_self,
    Ordering.eq_then, Bool.true_and, Ordering.isLT_iff_eq_lt]

/-- The range of a namespace holds the keys of the ids that come before its sentinel. -/
theorem contains_encode_iff {ns : Namespace} {id : RecordId} (h : id.fits ns.shape = true) :
    (ofNamespace ns).contains (Key.encode ns id) = true ↔ id.Below ns.shape := by
  rw [Key.encode, contains_tagged, RecordId.below_iff h]

/-- The range of a namespace holds the keys of all ticks and epochs. -/
lemma contains_word {ns : Namespace} (hns : ns.shape = .numeric) (n : UInt32) :
    (ofNamespace ns).contains (Key.word ns n) = true := by
  have hfits : (RecordId.numeric n.toUInt64).fits ns.shape = true := by
    rw [hns]
    rfl
  refine (contains_encode_iff hfits).2 ?_
  have hlt : n.toNat < 2 ^ 32 := n.toNat_lt
  have hsentinel : (0xFFFFFFFFFFFFFFFF : UInt64).toNat = 0xFFFFFFFFFFFFFFFF := rfl
  rw [hns]
  change n.toUInt64 < 0xFFFFFFFFFFFFFFFF
  rw [UInt64.lt_iff_toNat_lt, UInt32.toNat_toUInt64, hsentinel]
  omega

/-- Between two keys of a namespace there are only keys of that namespace. -/
lemma head?_of_contains {r : KeyRange} {tag : UInt8} {key : Bytes}
    (hlower : r.lower.head? = some tag) (hupper : r.upper.head? = some tag)
    (h : r.contains key = true) : key.head? = some tag := by
  obtain ⟨lower, hlower⟩ := List.head?_eq_some_iff.1 hlower
  obtain ⟨upper, hupper⟩ := List.head?_eq_some_iff.1 hupper
  rw [contains, hlower, hupper, Bool.and_eq_true, Ordering.isLT_iff_eq_lt] at h
  obtain ⟨habove, hbelow⟩ := h
  cases key with
  | nil => cases habove
  | cons first key =>
      rw [List.compare_cons_cons, Ordering.isLE_then_iff_and] at habove
      rw [List.compare_cons_cons] at hbelow
      have hle : (compare first tag).isLE = true :=
        (Ordering.isLE_then_iff_and.1 (Ordering.isLE_of_eq_lt hbelow)).1
      rw [Std.LawfulEqOrd.eq_of_compare (Std.OrientedCmp.isLE_antisymm hle habove.1)]
      rfl

/-! ### Ranges of ticks -/

/-- Keys under numbers are in the order of the numbers. -/
lemma compare_numeric (ns : Namespace) (a b : UInt64) :
    compare (Key.numeric ns a) (Key.numeric ns b) = compare a.toNat b.toNat := by
  rw [Key.numeric, Key.numeric, Key.encode, Key.encode, List.compare_cons_cons, Std.compare_self,
    Ordering.eq_then]
  exact Bytes.compare_bigEndian a.toNat_lt b.toNat_lt

/-- There is room for the number after the last tick. -/
lemma toNat_succ (n : UInt32) : (n.toUInt64 + 1).toNat = n.toNat + 1 := by
  have hlt : n.toNat < 2 ^ 32 := n.toNat_lt
  rw [UInt64.toNat_add, UInt32.toNat_toUInt64]
  simp only [UInt64.reduceToNat]
  omega

/-- Of the keys under numbers, a range of ticks holds those under the numbers between its ends. -/
lemma contains_ofTicks_numeric {ns : Namespace} {r : TickRange} {n : UInt64} :
    (ofTicks ns r).contains (Key.numeric ns n) = true ↔
      r.start.toUInt64 ≤ n ∧ n ≤ r.stop.toUInt64 := by
  rw [contains, ofTicks, compare_numeric, compare_numeric, toNat_succ, Bool.and_eq_true,
    Nat.isLE_compare, Ordering.isLT_iff_eq_lt, Nat.compare_eq_lt, Nat.lt_succ_iff,
    UInt64.le_iff_toNat_le, UInt64.le_iff_toNat_le, UInt32.toNat_toUInt64, UInt32.toNat_toUInt64]

/-- A range of ticks holds the keys of its ticks. -/
theorem contains_ofTicks {ns : Namespace} {r : TickRange} {tick : UInt32} :
    (ofTicks ns r).contains (Key.word ns tick) = true ↔ r.contains tick = true := by
  rw [Key.word, contains_ofTicks_numeric, TickRange.contains_iff, UInt64.le_iff_toNat_le,
    UInt64.le_iff_toNat_le, UInt32.le_iff_toNat_le, UInt32.le_iff_toNat_le]
  simp only [UInt32.toNat_toUInt64]

end KeyRange

end EpochSplit
