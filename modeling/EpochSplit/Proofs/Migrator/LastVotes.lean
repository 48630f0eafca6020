import EpochSplit.Proofs.Epoch.LastVotes
import EpochSplit.Proofs.Migrator.Split
/-!
# The votes on the last ticks of an epoch

A move with success leaves one record of the votes on the last tick of each interval, if there are
votes on any tick of a processed range.  The votes of an interval are those on the greatest tick of
which the interval is the first that contains it, the tick being the one that the votes themselves
name, whatever key they are under.
-/

namespace EpochSplit

open EpochPlan

/-- Contents that hold the votes on the last ticks of an epoch as they are in an archive. -/
structure HoldsLastVotes (ranges : List TickRange) (epoch : UInt32) (archive target : Contents) :
    Prop where
  /-- There is a record if and only if there are votes on some tick of a range. -/
  present : Key.word .lastTickQuorumDataPerEpochInterval epoch ∈ target ↔
    ∃ key ∈ archive, ∃ r ∈ ranges, (KeyRange.ofTicks .quorumData r).contains key = true
  /-- Under the numbers of intervals the record holds their last votes in full. -/
  record : ∀ value, target[Key.word .lastTickQuorumDataPerEpochInterval epoch]? = some value →
    ∃ record : Current.LastTickQuorumDataPerEpochIntervals, value = Wire.encode record ∧
      (∀ i < 2 ^ 31, record.quorumDataPerInterval[Int32.ofNat i]? =
        (lastVotes? ranges i (readVotes (scannedVotes archive ranges))).map (·.toCurrent)) ∧
      ∀ number ∈ record.quorumDataPerInterval, ∃ i < 2 ^ 31, number = Int32.ofNat i
  /-- Intervals of which there are votes have a number. -/
  small : ∀ i q, lastVotes? ranges i (readVotes (scannedVotes archive ranges)) = some q → i < 2 ^ 31
  /-- The reduced form of these votes is under the key at which they are in the archive. -/
  reduced : ∀ i q, lastVotes? ranges i (readVotes (scannedVotes archive ranges)) = some q →
    ∃ old ∈ scannedVotes archive ranges,
      Wire.decode Legacy.QuorumTickData .quorumData old.2 = .ok q ∧
      target[old.1]? = some (Wire.encode q.reduced)
  /-- It makes no difference that pairs are scanned several times where ranges overlap. -/
  rescanned : ∀ i, lastVotes? ranges i (readVotes (scannedVotes archive ranges).eraseDups) =
    lastVotes? ranges i (readVotes (scannedVotes archive ranges))

section Plan

variable {archive : Contents} {m : EpochMetadata} {threshold : UInt32}
  (hsound : (epochPlan (.ofContents archive) m threshold).findSome? EpochStream.fault? = none)

include hsound

/-- Votes leave a record if there are any. -/
lemma mem_overlay_of_scannedVotes {old : Entry} (hold : old ∈ scannedVotes archive m.ranges) :
    Key.word .lastTickQuorumDataPerEpochInterval m.epoch ∈
      Contents.overlay ∅
        ((epochPlan (.ofContents archive) m threshold).flatMap EpochStream.entries) := by
  obtain ⟨q, ⟨epoch, i⟩, -, hdecode, hgroup, -⟩ := exists_group_of_scannedVotes hsound hold
  have hq : q ∈ votes (.ofContents archive) m := by
    rw [votes_eq_readVotes hsound]
    exact mem_readVotes.2 ⟨old, hold, hdecode⟩
  obtain rfl : epoch = m.epoch := (groupOf_fold.1 hgroup).1
  have hmem : m.epoch ∈ (keptVotes (.ofContents archive) m).groups :=
    (Fold.mem_groups_observeAll groups_fold _ _).2 ⟨q, hq, i, hgroup⟩
  obtain ⟨selected, hselected⟩ := mem_iff_exists_getElem?.1 hmem
  obtain ⟨entry, hkept, hentry⟩ := exists_mem_of_keptVotes hsound hselected
  obtain ⟨record, rfl, -⟩ := EpochEntry.lastTickQuorumData_eq_ok hkept
  exact Contents.mem_overlay.2 (.inl (List.mem_map_of_mem hentry))

omit hsound in
/-- The record of the last votes is made of the votes that the fold keeps, of which there are
some. -/
lemma exists_selected_of_getElem? {value : Bytes}
    (hvalue : (Contents.overlay ∅
      ((epochPlan (.ofContents archive) m threshold).flatMap EpochStream.entries))[
        Key.word .lastTickQuorumDataPerEpochInterval m.epoch]? = some value) :
    ∃ selected record, (keptVotes (.ofContents archive) m).groups[m.epoch]? = some selected ∧
      value = Wire.encode record ∧ IsNumbered selected record := by
  have hkind : (Key.word .lastTickQuorumDataPerEpochInterval m.epoch).head? =
      some Namespace.lastTickQuorumDataPerEpochInterval.tag := rfl
  obtain ⟨entry, hwritten, hpair⟩ := exists_written_of_getElem? hvalue hkind
  cases hwritten with
  | @lastTickQuorumData epoch selected _ group kept =>
      obtain ⟨record, rfl, hnumbered⟩ := EpochEntry.lastTickQuorumData_eq_ok kept
      obtain rfl : epoch = m.epoch :=
        epoch_of_mem_keptVotes (mem_iff_exists_getElem?.2 ⟨selected, group⟩)
      exact ⟨selected, record, group, (congrArg Prod.snd hpair).symm, hnumbered⟩

/-- The votes of a plan without a fault leave their last votes. -/
lemma holdsLastVotes_overlay :
    HoldsLastVotes m.ranges m.epoch archive
      (Contents.overlay ∅
        ((epochPlan (.ofContents archive) m threshold).flatMap EpochStream.entries)) where
  present := by
    constructor
    · intro hmem
      obtain ⟨value, hvalue⟩ := mem_iff_exists_getElem?.1 hmem
      obtain ⟨selected, record, hgroup, -⟩ := exists_selected_of_getElem? hvalue
      obtain ⟨q, hq, -⟩ := (Fold.mem_groups_observeAll groups_fold _ _).1
        (mem_iff_exists_getElem?.2 ⟨selected, hgroup⟩)
      rw [votes_eq_readVotes hsound] at hq
      obtain ⟨old, hold, -⟩ := mem_readVotes.1 hq
      obtain ⟨hstored, hrange⟩ := mem_scannedVotes.1 hold
      exact ⟨old.1, mem_iff_exists_getElem?.2 ⟨old.2, hstored⟩, hrange⟩
    · rintro ⟨key, hkey, hrange⟩
      obtain ⟨stored, hstored⟩ := mem_iff_exists_getElem?.1 hkey
      have hold : (key, stored) ∈ scannedVotes archive m.ranges :=
        mem_scannedVotes.2 ⟨hstored, hrange⟩
      exact mem_overlay_of_scannedVotes hsound hold
  record value hvalue := by
    obtain ⟨selected, record, hgroup, rfl, hnumbered⟩ := exists_selected_of_getElem? hvalue
    refine ⟨record, rfl, fun i hi => ?_, hnumbered.numbers⟩
    rw [hnumbered.votes i hi, ← votes_eq_readVotes hsound,
      getElem?_keptVotes (fun q => exists_group_of_votes hsound) hgroup]
  small i q hq := by
    obtain ⟨old, hold, -⟩ := mem_readVotes.1 (mem_of_lastVotes? hq)
    obtain ⟨value, hvalue⟩ := mem_iff_exists_getElem?.1 (mem_overlay_of_scannedVotes hsound hold)
    obtain ⟨selected, record, hgroup, -, hnumbered⟩ := exists_selected_of_getElem? hvalue
    refine hnumbered.small i q ?_
    rw [getElem?_keptVotes (fun q => exists_group_of_votes hsound) hgroup,
      votes_eq_readVotes hsound, hq]
  reduced i q hq := by
    obtain ⟨old, hold, hdecode⟩ := mem_readVotes.1 (mem_of_lastVotes? hq)
    obtain ⟨q', group, hmoved, hdecode', -, hentry⟩ := exists_group_of_scannedVotes hsound hold
    obtain rfl : q' = q := Except.ok.inj (hdecode'.symm.trans hdecode)
    refine ⟨old, hold, hdecode, ?_⟩
    -- whatever was written last under this key was made of the same pair of the archive
    obtain ⟨value, hvalue⟩ := mem_iff_exists_getElem?.1
      (Contents.mem_overlay.2 (.inl (List.mem_map_of_mem hentry)))
    obtain ⟨tick, hkey, -⟩ := EpochEntry.exists_of_quorumData hmoved
    obtain ⟨stored, hstored, himage⟩ :=
      (isSplit_quorumData hsound).values old.1 value (by rw [hkey]; rfl) hvalue
    rw [(mem_scannedVotes.1 hold).1] at hstored
    cases hstored
    rw [EpochEntry.quorumValue, hdecode] at himage
    rw [hvalue, ← Except.ok.inj himage]
  rescanned i := by
    have hall : ∀ q ∈ readVotes (scannedVotes archive m.ranges),
        ∃ group, (fold m).groupOf q = .ok group := by
      rw [← votes_eq_readVotes hsound]
      exact fun q => exists_group_of_votes hsound
    have honce : ∀ q ∈ readVotes (scannedVotes archive m.ranges).eraseDups,
        ∃ group, (fold m).groupOf q = .ok group := by
      intro q hq
      obtain ⟨old, hold, hdecode⟩ := mem_readVotes.1 hq
      exact hall q (mem_readVotes.2 ⟨old, List.mem_eraseDups.1 hold, hdecode⟩)
    rw [← keeps_fold hall, ← keeps_fold honce, readVotes, readVotes,
      Fold.observeAll_eraseDups prefers_fold groups_fold]

end Plan

namespace Rehearsal

/-- A move with success into an empty store leaves the votes on the last ticks of the epoch. -/
theorem migrateEpoch_lastVotes {m m' : Migrator} {e : UInt32} {w w' : Rehearsal}
    (hkeyed : m.metadata.Keyed) (hempty : w.held e = ∅)
    (h : m.migrateEpoch site e w = (.ok (), m', w')) :
    ∃ metadata, m.metadata.get? e = some metadata ∧
      HoldsLastVotes metadata.ranges e w.source (w'.held e) := by
  rw [migrateEpoch_site] at h
  obtain ⟨metadata, target, opened, hmd, -, hsound, hheld⟩ :=
    Migrator.view_migrateEpoch_ok tracks_held h
  refine ⟨metadata, hmd, ?_⟩
  rw [hempty] at hheld
  rw [hheld, ← hkeyed e metadata hmd]
  exact holdsLastVotes_overlay hsound

/-- The small rehearsal leaves the votes on the last tick of its single range. -/
theorem migrateEpoch_lastVotes_sample :
    sampleMigrator.metadata.Keyed ∧ sample.held 5 = ∅ ∧
      ∃ m' w', sampleMigrator.migrateEpoch site 5 sample = (.ok (), m', w') ∧
        Key.word .lastTickQuorumDataPerEpochInterval 5 ∈ w'.held 5 ∧
        ∃ metadata, sampleMigrator.metadata.get? 5 = some metadata ∧
          HoldsLastVotes metadata.ranges 5 sample.source (w'.held 5) := by
  have hkeyed : sampleMigrator.metadata.Keyed := Migrator.keyed_fresh _ _ _
  have hempty : sample.held 5 = ∅ := rfl
  have hok : (sampleMigrator.migrateEpoch site 5 sample).1 = .ok () := by decide +kernel
  have hpresent : ((sampleMigrator.migrateEpoch site 5 sample).2.2.held 5).contains
      (Key.word .lastTickQuorumDataPerEpochInterval 5) = true := by decide +kernel
  have hrun := Migrator.migrateEpoch_of_outcome hok
  exact ⟨hkeyed, hempty, _, _, hrun, Std.ExtTreeMap.contains_iff_mem.1 hpresent,
    migrateEpoch_lastVotes hkeyed hempty hrun⟩

end Rehearsal

end EpochSplit
