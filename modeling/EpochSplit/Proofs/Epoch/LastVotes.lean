import EpochSplit.Proofs.Epoch.Writes
import EpochSplit.Proofs.Fold.Selection
/-!
# The votes on the last ticks

The record of the votes on the last tick of each interval is made of what the fold over the votes
of an epoch keeps.  The votes of an epoch form one group (`epoch_of_mem_keptVotes`), and under the
number of an interval the record holds the votes that were kept for it (`IsNumbered`).
-/

namespace EpochSplit

open EpochPlan

/-- The interval that votes belong to: the position of the first range that contains their tick. -/
def Legacy.QuorumTickData.interval? (q : Legacy.QuorumTickData) (ranges : List TickRange) :
    Option Nat :=
  q.quorumTickStructure.bind fun common => TickRange.indexOf? ranges common.tickNumber

/-- Of the votes that belong to an interval, those on the greatest tick; of several votes on that
tick, the first. -/
def lastVotes? (ranges : List TickRange) (i : Nat) (votes : List Legacy.QuorumTickData) :
    Option Legacy.QuorumTickData :=
  (votes.filter fun q => q.interval? ranges = some i).argmax Attributed.tick

lemma mem_of_lastVotes? {ranges : List TickRange} {i : Nat} {votes : List Legacy.QuorumTickData}
    {q : Legacy.QuorumTickData} (h : lastVotes? ranges i votes = some q) : q ∈ votes :=
  (List.mem_filter.1 (List.argmax_mem h)).1

/-! ### The fold over the votes of an epoch -/

section Fold

variable {s : Source} {m : EpochMetadata} {q : Legacy.QuorumTickData} {epoch : UInt32} {i : Nat}

lemma find_ofEpoch (m : EpochMetadata) (epoch tick : UInt32) :
    (IntervalIndex.ofEpoch m).find epoch tick = .ok i ↔
      epoch = m.epoch ∧ TickRange.indexOf? m.ranges tick = some i := by
  unfold IntervalIndex.find IntervalIndex.ofEpoch IntervalIndex.insert
  by_cases hepoch : m.epoch = epoch
  · subst hepoch
    simp only [Std.ExtTreeMap.getElem?_insert_self, true_and]
    cases TickRange.indexOf? m.ranges tick <;> simp
  · simp [hepoch, Ne.symm hepoch]

/-- Votes belong to a group of the epoch by the interval that their tick lies in. -/
lemma groupOf_fold : (fold m).groupOf q = .ok (epoch, i) ↔
    epoch = m.epoch ∧ q.interval? m.ranges = some i ∧
      ∃ common, q.quorumTickStructure = some common ∧ common.epoch = m.epoch := by
  unfold Fold.groupOf Legacy.QuorumTickData.interval?
  simp only [Attributed.attribution]
  cases hcommon : q.quorumTickStructure with
  | none => simp
  | some common =>
      have hfind := find_ofEpoch (i := i) m common.epoch common.tickNumber
      simp only [Option.map_some, fold, Option.bind_some, Option.some.injEq, exists_eq_left']
      rcases hfound : (IntervalIndex.ofEpoch m).find common.epoch common.tickNumber with fault | i'
      · rw [hfound] at hfind
        simp only [Except.map, reduceCtorEq, false_iff, not_and] at hfind ⊢
        exact fun _ hi hepoch => hfind hepoch hi
      · rw [hfound] at hfind
        simp only [Except.map, Except.ok.injEq, Prod.mk.injEq] at hfind ⊢
        rw [hfind]
        constructor
        · rintro ⟨rfl, hepoch, hi⟩
          exact ⟨hepoch, hi, hepoch⟩
        · rintro ⟨rfl, hi, hepoch⟩
          exact ⟨hepoch, hepoch, hi⟩

/-- Where all votes belong to some group, it is their tick alone that tells the interval. -/
lemma members_fold {vs : List Legacy.QuorumTickData}
    (hall : ∀ q ∈ vs, ∃ group, (fold m).groupOf q = .ok group) :
    (fold m).members m.epoch i vs = vs.filter fun q => q.interval? m.ranges = some i := by
  refine List.filter_congr fun q hq => decide_eq_decide.2 ?_
  obtain ⟨⟨epoch', i'⟩, hgroup⟩ := hall q hq
  rw [toOption_eq_some_iff, groupOf_fold]
  obtain ⟨-, -, hcommon⟩ := groupOf_fold.1 hgroup
  exact ⟨fun h => h.2.1, fun h => ⟨rfl, h, hcommon⟩⟩

lemma prefers_fold : (fold m).prefers = greatestTick := rfl

lemma groups_fold : (fold m).groups = ∅ := rfl

/-- There is at most one group, that of the epoch itself. -/
lemma epoch_of_mem_keptVotes (h : epoch ∈ (keptVotes s m).groups) : epoch = m.epoch := by
  obtain ⟨q, -, i, hgroup⟩ := (Fold.mem_groups_observeAll groups_fold _ _).1 h
  exact (groupOf_fold.1 hgroup).1

/-- Where all votes belong to some group, the last votes of each interval are kept. -/
lemma keeps_fold {vs : List Legacy.QuorumTickData}
    (hall : ∀ q ∈ vs, ∃ group, (fold m).groupOf q = .ok group) (i : Nat) :
    ((fold m).observeAll vs).keeps m.epoch i = lastVotes? m.ranges i vs := by
  rw [Fold.keeps_observeAll prefers_fold groups_fold, members_fold hall, lastVotes?]

lemma getElem?_keptVotes {selected : Std.ExtTreeMap Nat Legacy.QuorumTickData}
    (hall : ∀ q ∈ votes s m, ∃ group, (fold m).groupOf q = .ok group)
    (hgroup : (keptVotes s m).groups[m.epoch]? = some selected) (i : Nat) :
    selected[i]? = lastVotes? m.ranges i (votes s m) := by
  have hkeeps := keeps_fold hall i
  rwa [Fold.keeps, ← keptVotes, hgroup] at hkeeps

end Fold

/-! ### The votes of an archive -/

/-- The pairs of the votes on the ticks of some ranges, range by range and those of a range by their
keys.  Votes on a tick that lies in several ranges come several times. -/
def scannedVotes (archive : Contents) (ranges : List TickRange) : List Entry :=
  ranges.flatMap fun r => archive.scan (KeyRange.ofTicks .quorumData r)

/-- The votes that pairs of an archive hold. -/
def readVotes (pairs : List Entry) : List Legacy.QuorumTickData :=
  pairs.filterMap fun p => (Wire.decode Legacy.QuorumTickData .quorumData p.2).toOption

lemma mem_readVotes {pairs : List Entry} {q : Legacy.QuorumTickData} :
    q ∈ readVotes pairs ↔
      ∃ p ∈ pairs, Wire.decode Legacy.QuorumTickData .quorumData p.2 = .ok q := by
  simp only [readVotes, List.mem_filterMap, toOption_eq_some_iff]

section Plan

variable {archive : Contents} {m : EpochMetadata} {threshold : UInt32} {old : Entry}

lemma mem_scannedVotes {ranges : List TickRange} :
    old ∈ scannedVotes archive ranges ↔ archive[old.1]? = some old.2 ∧
      ∃ r ∈ ranges, (KeyRange.ofTicks .quorumData r).contains old.1 = true := by
  simp only [scannedVotes, List.mem_flatMap, Contents.mem_scan, Std.ExtTreeMap.get?_eq_getElem?]
  exact ⟨fun ⟨r, hr, hstored, hcontains⟩ => ⟨hstored, r, hr, hcontains⟩,
    fun ⟨hstored, r, hr, hcontains⟩ => ⟨r, hr, hstored, hcontains⟩⟩

variable
  (hsound : (epochPlan (.ofContents archive) m threshold).findSome? EpochStream.fault? = none)

include hsound

/-- The votes that are scanned are read, moved, and attributed to a group. -/
lemma exists_group_of_scannedVotes (h : old ∈ scannedVotes archive m.ranges) :
    ∃ q group, EpochEntry.quorumData old = .ok (q, (old.1, Wire.encode q.reduced)) ∧
      Wire.decode Legacy.QuorumTickData .quorumData old.2 = .ok q ∧
      (fold m).groupOf q = .ok group ∧
      (old.1, Wire.encode q.reduced) ∈
        (epochPlan (.ofContents archive) m threshold).flatMap EpochStream.entries := by
  obtain ⟨hstored, r, hr, hcontains⟩ := mem_scannedVotes.1 h
  obtain ⟨q, entry, group, hmoved, hgroup, hentry⟩ := exists_group_of_quorumData hsound hr
    (Source.mem_items_ofContents.2 ⟨hstored, hcontains⟩)
  obtain ⟨tick, -, hdecode, -, rfl⟩ := EpochEntry.exists_of_quorumData hmoved
  exact ⟨q, group, hmoved, hdecode, hgroup, hentry⟩

/-- The votes that pass through the fold are those in the pairs that are scanned. -/
lemma votes_eq_readVotes :
    votes (.ofContents archive) m = readVotes (scannedVotes archive m.ranges) := by
  rw [votes, readVotes, scannedVotes, Fold.records, List.filterMap_flatMap, List.filterMap_flatMap]
  refine List.flatMap_congr fun r hr => ?_
  rw [quorumData, Source.items_ofContents, List.map_map, List.filterMap_map]
  refine List.filterMap_congr fun old hold => ?_
  obtain ⟨q, group, hmoved, hdecode, -⟩ :=
    exists_group_of_scannedVotes hsound (List.mem_flatMap.2 ⟨r, hr, hold⟩)
  simp only [Function.comp_apply, Except.bind, hmoved, hdecode]
  rfl

lemma exists_group_of_votes {q : Legacy.QuorumTickData} (h : q ∈ votes (.ofContents archive) m) :
    ∃ group, (fold m).groupOf q = .ok group := by
  rw [votes_eq_readVotes hsound] at h
  obtain ⟨old, hold, hq⟩ := mem_readVotes.1 h
  obtain ⟨q', group, -, hdecode, hgroup, -⟩ := exists_group_of_scannedVotes hsound hold
  obtain rfl : q' = q := Except.ok.inj (hdecode.symm.trans hq)
  exact ⟨group, hgroup⟩

end Plan

end EpochSplit
