import EpochSplit.Proofs.Key.Order
import Mathlib.Data.Set.Card
import Mathlib.Order.Interval.Finset.Nat
/-!
# Ranges of ticks as ranges of keys

A range of ticks has two ends that belong to it, and a range of keys has an upper bound that does
not.  The two say the same all the same (`ofTicks_faithful`), also where a range of ticks is
inverted or ends with the last tick that there is: the number after that tick still has a key.
Ranges of ticks that follow each other become ranges of keys that meet at one bound, so that a key
is neither lost nor read twice (`abuts_of_eq`).
-/

namespace EpochSplit.KeyRange

variable {ns : Namespace} {keys keys' : KeyRange} {r : TickRange}

/-! ### Ranges of keys -/

/-- The second range begins where the first ends: they share no key, no key lies between them, and
from the start of the first to the end of the second each key lies in one of them. -/
structure Abuts (keys keys' : KeyRange) : Prop where
  apart : ∀ key, ¬(keys.contains key = true ∧ keys'.contains key = true)
  between : ∀ key, contains ⟨keys.upper, keys'.lower⟩ key = false
  covered : ∀ key, contains ⟨keys.lower, keys'.upper⟩ key = true →
    keys.contains key = true ∨ keys'.contains key = true

/-- Ranges that meet at one bound abut. -/
lemma abuts_of_eq (h : keys.upper = keys'.lower) : keys.Abuts keys' where
  apart key := by
    rintro ⟨hkey, hkey'⟩
    rw [contains_iff] at hkey hkey'
    rw [← h] at hkey'
    have hself := Std.TransCmp.lt_of_lt_of_isLE hkey.2 hkey'.1
    rw [Std.compare_self] at hself
    cases hself
  between key := by
    rw [h]
    refine isEmpty_iff.1 ?_ key
    rw [isEmpty]
    exact Std.ReflCmp.isLE_rfl
  covered key hkey := by
    rw [contains_iff] at hkey
    simp only at hkey
    by_cases hbelow : compare key keys.upper = .lt
    · exact .inl (contains_iff.2 ⟨hkey.1, hbelow⟩)
    · refine .inr (contains_iff.2 ⟨?_, hkey.2⟩)
      have hswap : compare keys.upper key = (compare key keys.upper).swap :=
        Std.OrientedCmp.eq_swap
      rw [← h, hswap]
      revert hbelow
      cases compare key keys.upper <;> decide

/-! ### Ranges of ticks -/

lemma compare_numeric_eq_lt {a b : UInt64} :
    compare (Key.numeric ns a) (Key.numeric ns b) = .lt ↔ a < b := by
  rw [compare_numeric, Nat.compare_eq_lt, UInt64.lt_iff_toNat_lt]

lemma isEmpty_ofTicks (ns : Namespace) (r : TickRange) : (ofTicks ns r).isEmpty = r.isEmpty := by
  rw [isEmpty, ofTicks, compare_numeric, toNat_succ, UInt32.toNat_toUInt64, TickRange.isEmpty,
    TickRange.size, Bool.eq_iff_iff, Nat.isLE_compare, beq_iff_eq]
  omega

/-- The keys under numbers in a range of keys. -/
def numericKeys (ns : Namespace) (keys : KeyRange) : Set Bytes :=
  {key | keys.contains key = true ∧ ∃ n, key = Key.numeric ns n}

/-- The numbers from the first tick to the last are those whose keys are in the range. -/
lemma numericKeys_ofTicks (ns : Namespace) (r : TickRange) :
    numericKeys ns (ofTicks ns r) =
      (fun n : ℕ => Key.numeric ns (.ofNat n)) '' Set.Icc r.start.toNat r.stop.toNat := by
  have hstop : r.stop.toNat < 2 ^ 32 := r.stop.toNat_lt
  ext key
  constructor
  · rintro ⟨hkey, n, rfl⟩
    rw [contains_ofTicks_numeric, UInt64.le_iff_toNat_le, UInt64.le_iff_toNat_le,
      UInt32.toNat_toUInt64, UInt32.toNat_toUInt64] at hkey
    refine ⟨n.toNat, hkey, ?_⟩
    simp only [UInt64.ofNat_toNat]
  · rintro ⟨n, ⟨hfirst, hlast⟩, rfl⟩
    have hn : (UInt64.ofNat n).toNat = n :=
      UInt64.toNat_ofNat_of_lt' (by simp only [UInt64.size]; omega)
    refine ⟨?_, .ofNat n, rfl⟩
    rw [contains_ofTicks_numeric, UInt64.le_iff_toNat_le, UInt64.le_iff_toNat_le,
      UInt32.toNat_toUInt64, UInt32.toNat_toUInt64, hn]
    exact ⟨hfirst, hlast⟩

lemma encard_numericKeys (ns : Namespace) (r : TickRange) :
    (numericKeys ns (ofTicks ns r)).encard = r.size := by
  have hstop : r.stop.toNat < 2 ^ 32 := r.stop.toNat_lt
  have hinj : Set.InjOn (fun n : ℕ => Key.numeric ns (.ofNat n))
      (Set.Icc r.start.toNat r.stop.toNat) := by
    rintro a ⟨-, ha⟩ b ⟨-, hb⟩ heq
    have hnumbers := congrArg UInt64.toNat (Key.numeric_inj heq)
    rwa [UInt64.toNat_ofNat_of_lt' (by simp only [UInt64.size]; omega),
      UInt64.toNat_ofNat_of_lt' (by simp only [UInt64.size]; omega)] at hnumbers
  rw [numericKeys_ofTicks, hinj.encard_image, ← Finset.coe_Icc, Set.encard_coe_eq_coe_finsetCard,
    Nat.card_Icc, TickRange.size]

/-- A range of keys holds the keys of the ticks of a range, and under numbers no others. -/
structure HoldsTicks (keys : KeyRange) (ns : Namespace) (r : TickRange) : Prop where
  numbers : ∀ n, keys.contains (Key.numeric ns n) = true ↔
    r.start.toUInt64 ≤ n ∧ n ≤ r.stop.toUInt64
  ticks : ∀ tick, keys.contains (Key.word ns tick) = r.contains tick
  isEmpty : keys.isEmpty = r.isEmpty
  vacant : r.isEmpty = true ↔ ∀ key, keys.contains key = false
  count : (keys.numericKeys ns).encard = r.size

lemma holdsTicks_ofTicks (ns : Namespace) (r : TickRange) : (ofTicks ns r).HoldsTicks ns r where
  numbers _ := contains_ofTicks_numeric
  ticks _ := Bool.eq_iff_iff.2 contains_ofTicks
  isEmpty := isEmpty_ofTicks ns r
  vacant := by rw [← isEmpty_ofTicks ns r, isEmpty_iff]
  count := encard_numericKeys ns r

/-- Keys under numbers are in the order of the numbers, so that a range of ticks and its range of
keys agree: on each number, on being empty, and on how many keys under numbers there are.  The
ranges of keys of a range of ticks and of the one that follows it share no key and leave none out,
whether the key can be read or not. -/
theorem ofTicks_faithful (ns : Namespace) :
    (∀ a b : UInt64, compare (Key.numeric ns a) (Key.numeric ns b) = .lt ↔ a < b) ∧
      (∀ r, (ofTicks ns r).HoldsTicks ns r) ∧
      ∀ r r' : TickRange, r'.start.toNat = r.stop.toNat + 1 →
        (ofTicks ns r).Abuts (ofTicks ns r') := by
  refine ⟨fun a b => compare_numeric_eq_lt, holdsTicks_ofTicks ns, fun r r' hnext => ?_⟩
  refine abuts_of_eq (congrArg (Key.numeric ns) ?_)
  rw [← UInt64.toNat_inj, toNat_succ, UInt32.toNat_toUInt64, hnext]

/-- An inverted range, and the last tick that there is after it. -/
theorem ofTicks_faithful_lastTick :
    (TickRange.mk 0xFFFFFFFF 0xFFFFFFFF).start.toNat =
        (TickRange.mk 0xFFFFFFFF 0xFFFFFFFE).stop.toNat + 1 ∧
      (ofTicks .tickData ⟨0xFFFFFFFF, 0xFFFFFFFE⟩).Abuts
        (ofTicks .tickData ⟨0xFFFFFFFF, 0xFFFFFFFF⟩) ∧
      (ofTicks .tickData ⟨0xFFFFFFFF, 0xFFFFFFFE⟩).isEmpty = true ∧
      ((ofTicks .tickData ⟨0xFFFFFFFF, 0xFFFFFFFF⟩).numericKeys .tickData).encard = 1 := by
  obtain ⟨-, hholds, habuts⟩ := ofTicks_faithful .tickData
  exact ⟨rfl, habuts _ _ rfl, (hholds _).isEmpty, (hholds _).count⟩

end EpochSplit.KeyRange
