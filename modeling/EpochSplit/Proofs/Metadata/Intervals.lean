import EpochSplit.Interval
import EpochSplit.Proofs.Key.Order
import EpochSplit.Proofs.Maps
import Mathlib.Data.List.Basic
/-!
# Intervals of ticks

The processed ranges of an epoch are read twice: as ranges of keys when votes are scanned, and as
ranges of ticks when a vote is attributed to an interval.  The two readings agree (`find_agrees`): a
tick whose key is met in the scan of a range has an interval, which is that range unless an earlier
one contains the tick too, and a tick without an interval has its key in no range.

The index of all epochs is made of the entries of the metadata, each filed under the epoch that it
is about (`Keyed`), and answers for each epoch as the index of that epoch alone.
-/

namespace EpochSplit

/-! ### Entries by epoch -/

namespace StoreMetadata

/-- What is known about an epoch is about that epoch. -/
def Keyed (s : StoreMetadata) : Prop :=
  ∀ epoch metadata, s.get? epoch = some metadata → metadata.epoch = epoch

lemma keyed_empty : Keyed ∅ := by
  intro epoch metadata h
  cases (Std.ExtTreeMap.getElem?_empty (a := epoch)).symm.trans h

lemma Keyed.insert {s : StoreMetadata} (h : s.Keyed) (m : EpochMetadata) :
    (s.insert m).Keyed := by
  intro epoch metadata hget
  rw [get?_insert] at hget
  split at hget
  · next hepoch =>
      cases hget
      exact hepoch
  · exact h epoch metadata hget

lemma keyed_ofList (ms : List EpochMetadata) : (ofList ms).Keyed :=
  List.foldlRecOn (motive := Keyed) ms insert keyed_empty fun _ h m _ => h.insert m

lemma epochs_ofList (ms : List EpochMetadata) :
    (ofList ms).epochs = ms.foldl (fun epochs m => epochs.insert m.epoch m) ∅ :=
  (List.foldl_hom StoreMetadata.epochs fun _ _ => rfl).symm

/-- Metadata are made up of their entries if these are about the epochs that they are filed
under. -/
lemma ofList_toList {s : StoreMetadata} (h : s.Keyed) : ofList s.toList = s := by
  have hepoch : ∀ p ∈ s.epochs.toList, p.2.epoch = p.1 := fun p hp =>
    h p.1 p.2 (Std.ExtTreeMap.mem_toList_iff_getElem?_eq_some.1 hp)
  have hfiled : (ofList s.toList).epochs =
      s.epochs.toList.foldl (fun epochs p => epochs.insert p.1 p.2) ∅ := by
    rw [epochs_ofList, toList, List.foldl_map]
    exact List.foldl_ext _ _ _ fun epochs p hp => by rw [hepoch p hp]
  rw [foldl_insert_of_perm (List.Perm.refl _)] at hfiled
  exact congrArg StoreMetadata.mk hfiled

end StoreMetadata

/-! ### The first range that contains a tick -/

namespace TickRange

variable {ranges : List TickRange} {r : TickRange} {tick : UInt32} {i : Nat}

/-- The index answers with the first range that contains a tick. -/
lemma indexOf?_eq_some_iff :
    indexOf? ranges tick = some i ↔
      ∃ range, ranges[i]? = some range ∧ range.contains tick = true ∧
        ∀ j < i, ∀ earlier, ranges[j]? = some earlier → earlier.contains tick = false := by
  rw [indexOf?, List.findIdx?_eq_some_iff_getElem]
  constructor
  · rintro ⟨hi, hcontains, hfirst⟩
    refine ⟨ranges[i], List.getElem?_eq_getElem hi, hcontains, fun j hj earlier hearlier => ?_⟩
    obtain ⟨hj', rfl⟩ := List.getElem?_eq_some_iff.1 hearlier
    exact Bool.eq_false_iff.2 (hfirst j hj)
  · rintro ⟨range, hrange, hcontains, hfirst⟩
    obtain ⟨hi, rfl⟩ := List.getElem?_eq_some_iff.1 hrange
    refine ⟨hi, hcontains, fun j hj => ?_⟩
    exact Bool.eq_false_iff.1 (hfirst j hj _ (List.getElem?_eq_getElem (Nat.lt_trans hj hi)))

lemma indexOf?_eq_none_iff :
    indexOf? ranges tick = none ↔ ∀ r ∈ ranges, r.contains tick = false :=
  List.findIdx?_eq_none_iff

/-- The first range that contains a tick is any range that does, or comes before it. -/
lemma exists_indexOf?_le (hr : ranges[i]? = some r) (hcontains : r.contains tick = true) :
    ∃ j ≤ i, indexOf? ranges tick = some j := by
  cases hindex : indexOf? ranges tick with
  | none =>
      have hnone := indexOf?_eq_none_iff.1 hindex r (List.mem_of_getElem? hr)
      exact absurd (hcontains.symm.trans hnone) (by decide)
  | some j =>
      refine ⟨j, Nat.le_of_not_lt fun hlt => ?_, rfl⟩
      obtain ⟨-, -, -, hfirst⟩ := indexOf?_eq_some_iff.1 hindex
      exact absurd (hcontains.symm.trans (hfirst i hlt r hr)) (by decide)

/-- Where ranges are apart, none before one that contains a tick contains it too. -/
lemma earlier_of_pairwise
    (h : ranges.Pairwise fun r r' => ∀ tick, ¬(r.contains tick = true ∧ r'.contains tick = true))
    (hr : ranges[i]? = some r) (hcontains : r.contains tick = true) :
    ∀ j < i, ∀ earlier, ranges[j]? = some earlier → earlier.contains tick = false := by
  intro j hj earlier hearlier
  obtain ⟨hi', rfl⟩ := List.getElem?_eq_some_iff.1 hr
  obtain ⟨hj', rfl⟩ := List.getElem?_eq_some_iff.1 hearlier
  rw [Bool.eq_false_iff]
  exact fun hearlier => List.pairwise_iff_getElem.1 h j i hj' hi' hj tick ⟨hearlier, hcontains⟩

end TickRange

/-! ### Answers of an index -/

namespace IntervalIndex

variable {index : IntervalIndex} {epoch tick : UInt32} {i : Nat}

lemma find_eq_ok_iff :
    index.find epoch tick = .ok i ↔
      ∃ ranges, index.ranges[epoch]? = some ranges ∧ TickRange.indexOf? ranges tick = some i := by
  unfold find
  cases index.ranges[epoch]? with
  | none => simp
  | some ranges => cases hindex : TickRange.indexOf? ranges tick <;> simp [hindex]

lemma ranges_ofEpoch (m : EpochMetadata) : (ofEpoch m).ranges[m.epoch]? = some m.ranges :=
  Std.ExtTreeMap.getElem?_insert_self

/-- An index of one epoch fails on a tick of that epoch if no range contains it, and only then. -/
lemma find_ofEpoch_eq_error_iff {m : EpochMetadata} {fault : ConsistencyFault} :
    (ofEpoch m).find m.epoch tick = .error fault ↔
      fault = .tickOutsideIntervals m.epoch tick ∧ ∀ r ∈ m.ranges, r.contains tick = false := by
  rw [← TickRange.indexOf?_eq_none_iff, find, ranges_ofEpoch]
  cases hindex : TickRange.indexOf? m.ranges tick <;> simp [hindex, eq_comm]

/-- Entries that are put into an index and into metadata are found in the one as in the other. -/
lemma ranges_foldl_insert (ms : List EpochMetadata) {index : IntervalIndex} {s : StoreMetadata}
    (h : ∀ epoch, index.ranges[epoch]? = (s.get? epoch).map (·.ranges)) (epoch : UInt32) :
    (ms.foldl insert index).ranges[epoch]? =
      ((ms.foldl StoreMetadata.insert s).get? epoch).map (·.ranges) := by
  induction ms generalizing index s with
  | nil => exact h epoch
  | cons m ms ih =>
      refine ih fun epoch => ?_
      rw [StoreMetadata.get?_insert, insert, Std.ExtTreeMap.getElem?_insert, h epoch]
      by_cases hepoch : m.epoch = epoch <;> simp [hepoch]

/-- The index of all epochs knows the ranges that are filed under each. -/
lemma ranges_ofStore {s : StoreMetadata} (h : s.Keyed) (epoch : UInt32) :
    (ofStore s).ranges[epoch]? = (s.get? epoch).map (·.ranges) := by
  have hempty : ∀ epoch, ({} : IntervalIndex).ranges[epoch]? =
      ((∅ : StoreMetadata).get? epoch).map (·.ranges) := fun _ => rfl
  have hindex := ranges_foldl_insert s.toList hempty epoch
  rwa [← StoreMetadata.ofList, StoreMetadata.ofList_toList h] at hindex

/-- For each epoch, the index of all epochs answers as the index of that epoch alone. -/
lemma find_ofStore {s : StoreMetadata} (h : s.Keyed) (epoch tick : UInt32) :
    (ofStore s).find epoch tick =
      match s.get? epoch with
      | some m => (ofEpoch m).find epoch tick
      | none => .error (.epochMetadataMissing epoch) := by
  cases hm : s.get? epoch with
  | none => simp only [find, ranges_ofStore h, hm, Option.map_none]
  | some m =>
      obtain rfl := h epoch m hm
      simp only [find, ranges_ofStore h, hm, Option.map_some, ranges_ofEpoch]

/-! ### Agreement -/

/-- The votes of an epoch are scanned through the ranges of keys of its processed ranges, and an
index attributes the ticks that are met there as it should. -/
structure AgreesWithScan (index : IntervalIndex) (m : EpochMetadata) : Prop where
  /-- A tick that is met in the scan of a range belongs to that range or to an earlier one. -/
  found : ∀ {i r key tick}, m.ranges[i]? = some r →
    (KeyRange.ofTicks .quorumData r).contains key = true →
    Key.decodeTick .quorumData key = .ok tick → ∃ j ≤ i, index.find m.epoch tick = .ok j
  /-- It belongs to that range if no earlier one contains it. -/
  own : ∀ {i r key tick}, m.ranges[i]? = some r →
    (KeyRange.ofTicks .quorumData r).contains key = true →
    Key.decodeTick .quorumData key = .ok tick →
    (∀ j < i, ∀ earlier, m.ranges[j]? = some earlier → earlier.contains tick = false) →
    index.find m.epoch tick = .ok i
  /-- If the ranges are apart, each tick belongs to the range in whose scan it is met. -/
  apart : (m.ranges.Pairwise fun r r' =>
      ∀ tick, ¬(r.contains tick = true ∧ r'.contains tick = true)) →
    ∀ {i r key tick}, m.ranges[i]? = some r →
    (KeyRange.ofTicks .quorumData r).contains key = true →
    Key.decodeTick .quorumData key = .ok tick → index.find m.epoch tick = .ok i
  /-- The ticks that belong to no range are those whose key no scan meets. -/
  outside : ∀ {tick fault}, index.find m.epoch tick = .error fault ↔
    fault = .tickOutsideIntervals m.epoch tick ∧
      ∀ r ∈ m.ranges, (KeyRange.ofTicks .quorumData r).contains (Key.word .quorumData tick) = false

/-- A tick whose key lies in the keys of a range lies in that range. -/
lemma contains_of_decodeTick {r : TickRange} {key : Bytes}
    (hkey : (KeyRange.ofTicks .quorumData r).contains key = true)
    (htick : Key.decodeTick .quorumData key = .ok tick) : r.contains tick = true := by
  rw [(Key.decodeTick_eq_ok_iff rfl).1 htick] at hkey
  exact KeyRange.contains_ofTicks.1 hkey

lemma find_ofEpoch_of_first {m : EpochMetadata} {r : TickRange} (hr : m.ranges[i]? = some r)
    (hcontains : r.contains tick = true)
    (hfirst : ∀ j < i, ∀ earlier, m.ranges[j]? = some earlier → earlier.contains tick = false) :
    (ofEpoch m).find m.epoch tick = .ok i :=
  find_eq_ok_iff.2
    ⟨_, ranges_ofEpoch m, TickRange.indexOf?_eq_some_iff.2 ⟨r, hr, hcontains, hfirst⟩⟩

lemma agreesWithScan_ofEpoch (m : EpochMetadata) : (ofEpoch m).AgreesWithScan m where
  found hr hkey htick := by
    obtain ⟨j, hle, hindex⟩ := TickRange.exists_indexOf?_le hr (contains_of_decodeTick hkey htick)
    exact ⟨j, hle, find_eq_ok_iff.2 ⟨_, ranges_ofEpoch m, hindex⟩⟩
  own hr hkey htick := find_ofEpoch_of_first hr (contains_of_decodeTick hkey htick)
  apart hapart _ _ _ _ hr hkey htick := by
    have hcontains := contains_of_decodeTick hkey htick
    exact find_ofEpoch_of_first hr hcontains (TickRange.earlier_of_pairwise hapart hr hcontains)
  outside := by
    intro tick fault
    rw [find_ofEpoch_eq_error_iff]
    refine and_congr_right fun _ => forall₂_congr fun r _ => ?_
    rw [Bool.eq_false_iff, Bool.eq_false_iff, Ne, Ne, KeyRange.contains_ofTicks]

/-- Whatever the ranges of an epoch are, overlapping, unsorted or inverted, the intervals of ticks
agree with the ranges of keys through which the votes of the epoch are scanned, and the index of all
epochs agrees with those of the epochs. -/
theorem find_agrees :
    (∀ m, (ofEpoch m).AgreesWithScan m) ∧
      ∀ (ms : List EpochMetadata) (epoch tick : UInt32),
        (ofStore (.ofList ms)).find epoch tick =
          match (StoreMetadata.ofList ms).get? epoch with
          | some m => (ofEpoch m).find epoch tick
          | none => .error (.epochMetadataMissing epoch) :=
  ⟨agreesWithScan_ofEpoch, fun ms => find_ofStore (StoreMetadata.keyed_ofList ms)⟩

/-- Ranges out of order, one of them inverted, two that overlap, and one that ends with the last
tick. -/
def tangled : EpochMetadata where
  epoch := 4
  ranges := [⟨20, 40⟩, ⟨30, 10⟩, ⟨1, 30⟩, ⟨0xFFFFFFFA, 0xFFFFFFFF⟩]
  lastTick := 40

/-- The last tick belongs to the range that ends with it.  The key of a tick that two ranges contain
is met in the scans of both, and the tick belongs to the later one at most. -/
theorem find_agrees_tangled :
    (ofEpoch tangled).find 4 0xFFFFFFFF = .ok 3 ∧
      (∃ j ≤ 2, (ofEpoch tangled).find 4 25 = .ok j) ∧
      (ofEpoch tangled).find 4 41 = .error (.tickOutsideIntervals 4 41) ∧
      (ofStore (.ofList [{ tangled with ranges := [] }, tangled])).find 4 0xFFFFFFFF =
        (ofEpoch tangled).find 4 0xFFFFFFFF := by
  obtain ⟨hagrees, hstore⟩ := find_agrees
  have hmet : (KeyRange.ofTicks .quorumData ⟨0xFFFFFFFA, 0xFFFFFFFF⟩).contains
      (Key.word .quorumData 0xFFFFFFFF) = true := by decide +kernel
  have hmet' :
      (KeyRange.ofTicks .quorumData ⟨1, 30⟩).contains (Key.word .quorumData 25) = true := by
    decide +kernel
  have hearlier : ∀ j < 3, ∀ earlier, tangled.ranges[j]? = some earlier →
      earlier.contains 0xFFFFFFFF = false := by decide +kernel
  refine ⟨(hagrees tangled).own rfl hmet (by decide +kernel) hearlier, ?_, ?_, ?_⟩
  · exact (hagrees tangled).found rfl hmet' (by decide +kernel)
  · exact (hagrees tangled).outside.2 ⟨rfl, by decide +kernel⟩
  · exact hstore _ 4 0xFFFFFFFF

end IntervalIndex

end EpochSplit
