import EpochSplit.Proofs.Epoch.LastVotes
import EpochSplit.Proofs.Migrator.Isolation
import EpochSplit.Proofs.Migrator.References
/-!
# The epoch of votes

Nothing looks at the votes in the store of an epoch once they are written.  That they are votes on
ticks of this epoch (`HoldsVotesOf`) is due to the fold that they pass on the way: votes of another
epoch, or on a tick outside the processed ranges, belong to no group and end the move.  So the same
votes never reach the stores of two epochs, even where the processed ranges overlap.
-/

namespace EpochSplit

open EpochPlan

/-- All votes in a store are on ticks of an epoch, each in one of the given ranges at least. -/
def HoldsVotesOf (epoch : UInt32) (ranges : List TickRange) (target : Contents) : Prop :=
  ∀ key value : Bytes, key.head? = some Namespace.quorumData.tag → target[key]? = some value →
    ∃ (votes : Current.QuorumTickDataStored) (common : Current.QuorumTickStructure),
      value = Wire.encode votes ∧ votes.quorumTickStructure = some common ∧
      common.epoch = epoch ∧ ∃ r ∈ ranges, r.contains common.tickNumber = true

/-! ### Votes that a plan writes -/

lemma exists_range_of_indexOf? {ranges : List TickRange} {tick : UInt32} {i : Nat}
    (h : TickRange.indexOf? ranges tick = some i) : ∃ r ∈ ranges, r.contains tick = true := by
  obtain ⟨r, hr, hcontains, -⟩ := TickRange.indexOf?_eq_some_iff.1 h
  exact ⟨r, List.mem_of_getElem? hr, hcontains⟩

/-- Votes that a plan writes are those under the same key of the archive, and they name the epoch
and a tick in one of its ranges. -/
lemma Written.exists_common {s : Source} {m : EpochMetadata} {threshold : UInt32} {entry : Entry}
    (h : Written s m threshold .quorumData entry) :
    ∃ r old votes common, .ok old ∈ s.items (KeyRange.ofTicks .quorumData r) ∧
      Wire.decode Legacy.QuorumTickData .quorumData old.2 = .ok votes ∧
      entry = (old.1, Wire.encode votes.reduced) ∧
      votes.quorumTickStructure = some common ∧ common.epoch = m.epoch ∧
      ∃ r ∈ m.ranges, r.contains common.tickNumber = true := by
  cases h with
  | @quorumData r old entry votes group range scanned moved attributed =>
      obtain ⟨tick, -, hdecode, -, rfl⟩ := EpochEntry.exists_of_quorumData moved
      obtain ⟨epoch, i⟩ := group
      obtain ⟨-, hinterval, common, hcommon, hepoch⟩ := groupOf_fold.1 attributed
      rw [Legacy.QuorumTickData.interval?, hcommon, Option.bind_some] at hinterval
      exact ⟨r, old, votes, common, scanned, hdecode, rfl, hcommon, hepoch,
        exists_range_of_indexOf? hinterval⟩

namespace Rehearsal

variable {s : Source} {m m' : Migrator} {e : UInt32} {w w' : Rehearsal}

/-! ### One epoch -/

lemma holdsVotesOf_migrateEpoch (hkeyed : m.metadata.Keyed) (hempty : w.held e = ∅)
    (h : m.migrateEpoch (reading s) e w = (.ok (), m', w')) :
    ∃ metadata, m.metadata.get? e = some metadata ∧
      HoldsVotesOf e metadata.ranges (w'.held e) := by
  obtain ⟨metadata, target, opened, hmd, -, -, hheld⟩ := Migrator.view_migrateEpoch_ok tracks_held h
  refine ⟨metadata, hmd, ?_⟩
  intro key value hkey hvalue
  rw [hempty] at hheld
  rw [hheld] at hvalue
  obtain ⟨entry, hwritten, hpair⟩ := exists_written_of_getElem? hvalue hkey
  obtain ⟨r, old, votes, common, -, -, rfl, hcommon, hepoch, hrange⟩ := hwritten.exists_common
  have hepoch : common.epoch = e := hepoch.trans (hkeyed e metadata hmd)
  have hstructure : votes.reduced.quorumTickStructure = some common.toCurrent :=
    congrArg (Option.map Legacy.QuorumTickStructure.toCurrent) hcommon
  exact ⟨votes.reduced, common.toCurrent, (congrArg Prod.snd hpair).symm, hstructure, hepoch,
    hrange⟩

/-! ### All epochs -/

/-- What a whole run leaves in a store that was empty was written for its epoch. -/
lemma exists_written_of_held_migrateEpochs {es : List UInt32} {ns : Namespace} {key value : Bytes}
    (hrun : m.migrateEpochs (reading s) es w = (.ok (), m', w')) (he : e ∈ es)
    (hempty : w.held e = ∅) (hkey : key.head? = some ns.tag)
    (hvalue : (w'.held e)[key]? = some value) :
    ∃ metadata, m.metadata.get? e = some metadata ∧
      ∃ entry, Written s metadata m.settings.signatureEpochThreshold ns entry ∧
        entry = (key, value) := by
  have hok : (m.migrateEpochs (reading s) es w).1 = .ok () := by rw [hrun]
  obtain ⟨hstored, -⟩ := effect_migrateEpochs hok
  have hheld : w'.held e = Contents.overlay ∅ (m.entriesOf s e) := by
    have hthis := hstored e
    rw [hrun, if_pos he, hempty] at hthis
    rw [held_eq_stored, hthis, Option.getD_some]
  rw [hheld] at hvalue
  have hentry := Contents.mem_of_getElem?_overlay_empty hvalue
  rw [Migrator.entriesOf] at hentry
  cases hmd : m.metadata.get? e with
  | none =>
      rw [hmd] at hentry
      cases hentry
  | some metadata =>
      rw [hmd] at hentry
      exact ⟨metadata, rfl, (key, value), written_of_head? hentry hkey, rfl⟩

/-- No votes of an archive are written for two epochs. -/
lemma not_mem_held_migrateEpochs {archive : Contents} {es : List UInt32} {e' : UInt32} {key : Bytes}
    (hreads : s.Reads archive) (hkeyed : m.metadata.Keyed)
    (hrun : m.migrateEpochs (reading s) es w = (.ok (), m', w'))
    (hempty : ∀ e ∈ es, w.held e = ∅) (he : e ∈ es) (he' : e' ∈ es) (hne : e ≠ e')
    (hkey : key.head? = some Namespace.quorumData.tag) (hmem : key ∈ w'.held e) :
    key ∉ w'.held e' := by
  intro hmem'
  obtain ⟨value, hvalue⟩ := mem_iff_exists_getElem?.1 hmem
  obtain ⟨value', hvalue'⟩ := mem_iff_exists_getElem?.1 hmem'
  obtain ⟨metadata, hmd, entry, hwritten, hpair⟩ :=
    exists_written_of_held_migrateEpochs hrun he (hempty e he) hkey hvalue
  obtain ⟨metadata', hmd', entry', hwritten', hpair'⟩ :=
    exists_written_of_held_migrateEpochs hrun he' (hempty e' he') hkey hvalue'
  obtain ⟨r, old, votes, common, hscanned, hdecode, rfl, hcommon, hepoch, -⟩ :=
    hwritten.exists_common
  obtain ⟨r', old', votes', common', hscanned', hdecode', rfl, hcommon', hepoch', -⟩ :=
    hwritten'.exists_common
  -- both are the pair that the archive has under the key
  have hold : old.1 = key := congrArg Prod.fst hpair
  have hold' : old'.1 = key := congrArg Prod.fst hpair'
  have hstored := hreads.getElem?_of_mem_items hscanned
  have hstored' := hreads.getElem?_of_mem_items hscanned'
  rw [hold] at hstored
  rw [hold', hstored] at hstored'
  rw [← Option.some.inj hstored', hdecode] at hdecode'
  rw [← Except.ok.inj hdecode', hcommon] at hcommon'
  -- so they name one epoch
  apply hne
  rw [← hkeyed e metadata hmd, ← hkeyed e' metadata' hmd', ← hepoch, ← hepoch',
    Option.some.inj hcommon']

/-- A move with success into an empty store leaves votes on ticks of its epoch only, each tick in
one of the processed ranges of the epoch.  So if all epochs are moved with success into empty
stores, no votes of the archive reach two of these. -/
theorem migrateAll_attributed {archive : Contents} (hreads : s.Reads archive)
    (hloaded : s.metadata = .ok m.metadata) :
    (∀ {e m' w w'}, w.held e = ∅ → m.migrateEpoch (reading s) e w = (.ok (), m', w') →
      ∃ metadata, m.metadata.get? e = some metadata ∧
        HoldsVotesOf e metadata.ranges (w'.held e)) ∧
    ∀ {m' w w'}, (∀ e ∈ m.metadata.epochNumbers, w.held e = ∅) →
      m.migrateAll (reading s) w = (.ok (), m', w') →
      ∀ e ∈ m.metadata.epochNumbers, ∀ e' ∈ m.metadata.epochNumbers, e ≠ e' →
        ∀ key ∈ w'.held e, key.head? = some Namespace.quorumData.tag → key ∉ w'.held e' := by
  have hkeyed : m.metadata.Keyed := Source.keyed_metadata hloaded
  refine ⟨holdsVotesOf_migrateEpoch hkeyed, ?_⟩
  intro m' w w' hempty hrun e he e' he' hne key hmem hkey
  exact not_mem_held_migrateEpochs hreads hkeyed hrun hempty he he' hne hkey hmem

/-! ### Two epochs with a tick in common -/

/-- An archive with two epochs whose processed ranges share a tick that has no votes. -/
def overlapping : Contents :=
  SampleArchive.ofItems
    [.epoch { epoch := 5, ranges := [⟨10, 11⟩], transactionsPerTick := 0 },
      .epoch { epoch := 6, ranges := [⟨11, 12⟩], transactionsPerTick := 0 },
      .without (Key.word .quorumData 11)]

/-- A migrator of this archive. -/
def overlappingMigrator : Migrator := .fresh (reading (.ofContents overlapping)) {} {}

/-- Both epochs are moved, and the votes on the first tick reach the store of the first epoch
only. -/
theorem migrateAll_attributed_overlapping :
    (Source.ofContents overlapping).metadata = .ok overlappingMigrator.metadata ∧
      ∃ m' w', overlappingMigrator.migrateAll (reading (.ofContents overlapping)) {} =
          (.ok (), m', w') ∧
        Key.word .tickData 11 ∈ w'.held 5 ∧ Key.word .tickData 11 ∈ w'.held 6 ∧
        Key.word .quorumData 10 ∈ w'.held 5 ∧ Key.word .quorumData 10 ∉ w'.held 6 := by
  have hready : overlappingMigrator.state.canMigrate = true := by decide +kernel
  have hloaded := Migrator.metadata_fresh hready
  have hreads := Source.reads_ofContents overlapping
  have hnumbers : overlappingMigrator.metadata.epochNumbers = [5, 6] := by decide +kernel
  have hempty : ∀ e ∈ overlappingMigrator.metadata.epochNumbers, ({} : Rehearsal).held e = ∅ :=
    fun e _ => held_default e
  have hrun :
      (overlappingMigrator.migrateAll (reading (.ofContents overlapping)) {}).1.isOk = true ∧
      ((overlappingMigrator.migrateAll (reading (.ofContents overlapping)) {}).2.2.held 5).contains
        (Key.word .tickData 11) = true ∧
      ((overlappingMigrator.migrateAll (reading (.ofContents overlapping)) {}).2.2.held 6).contains
        (Key.word .tickData 11) = true ∧
      ((overlappingMigrator.migrateAll (reading (.ofContents overlapping)) {}).2.2.held 5).contains
        (Key.word .quorumData 10) = true := by decide +kernel
  rcases hall : overlappingMigrator.migrateAll (reading (.ofContents overlapping)) {} with
    ⟨err | ⟨⟩, m', w'⟩
  · rw [hall] at hrun
    cases hrun.1
  · rw [hall] at hrun
    obtain ⟨-, hfirst, hsecond, hvotes⟩ := hrun
    have hvotes := Std.ExtTreeMap.contains_iff_mem.1 hvotes
    obtain ⟨-, hapart⟩ := migrateAll_attributed hreads hloaded
    refine ⟨hloaded, m', w', rfl, Std.ExtTreeMap.contains_iff_mem.1 hfirst,
      Std.ExtTreeMap.contains_iff_mem.1 hsecond, hvotes, ?_⟩
    have hfive : (5 : UInt32) ∈ overlappingMigrator.metadata.epochNumbers := by
      rw [hnumbers]
      decide
    have hsix : (6 : UInt32) ∈ overlappingMigrator.metadata.epochNumbers := by
      rw [hnumbers]
      decide
    exact hapart hempty hall 5 hfive 6 hsix (by decide) _ hvotes rfl

end Rehearsal

end EpochSplit
