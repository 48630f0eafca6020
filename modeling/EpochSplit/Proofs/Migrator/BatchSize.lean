import EpochSplit.Proofs.Store.Rehearsal
/-!
# The size of the batches

As long as no commit is refused and nothing is cancelled, nobody can tell from a move how large its
batches were: not from its outcome, nor from the migrator, nor, if it succeeds, from what the store
holds.
-/

namespace EpochSplit.Rehearsal

variable {e : UInt32} {m' m : Migrator}

/-- Two worlds that are calm and in which the same operations fail. -/
structure BothCalm (e : UInt32) (w' w : Rehearsal) : Prop where
  left : w'.Calm e
  right : w.Calm e
  faults : w'.faults = w.faults

/-- The outcome of each operation but a commit depends on the planned faults only. -/
lemma matches_bothCalm (s : Source) (e : UInt32) :
    (reading s).Matches e (BothCalm e) (fun t' t => t' = epochTarget e ∧ t = epochTarget e)
      (reading s) :=
  matches_of (fun h => h.left.live.trans h.right.live.symm) BothCalm.faults fun h ht' ht =>
    ⟨(calm_setEpoch ht'.refusal).2 h.left, (calm_setEpoch ht.refusal).2 h.right, h.faults⟩

/-- Nothing but a fault of the archive ends the writing of an epoch in a calm world. -/
lemma writesAlike_of_calm (s : Source) (hm : m'.SameTask m) :
    Migrator.WritesAlike (BothCalm e) (fun t' t => t' = epochTarget e ∧ t = epochTarget e)
      (reading s) (reading s) m' m := by
  rintro metadata t' t w' w ⟨rfl, rfl⟩ h
  obtain ⟨u', hu', hcalm', hfaults'⟩ := Channel.perform_of_calm (calm_channel m' s e w'.faults)
    (m'.epochSteps s metadata) ⟨h.left, rfl⟩
  obtain ⟨u, hu, hcalm, hfaults⟩ := Channel.perform_of_calm (calm_channel m s e w.faults)
    (m.epochSteps s metadata) ⟨h.right, rfl⟩
  -- the steps differ, but they report the same fault of the archive, if any
  have hverdict : Channel.verdict (m'.epochSteps s metadata) =
      Channel.verdict (m.epochSteps s metadata) := by
    rw [Channel.verdict, Channel.verdict, Migrator.fault?_epochSteps, Migrator.fault?_epochSteps,
      Migrator.epochFault?, Migrator.epochFault?, hm.threshold]
  refine ⟨?_, ?_⟩
  · exact (congrArg Prod.fst hu').trans (hverdict.trans (congrArg Prod.fst hu).symm)
  · have hboth : BothCalm e u' u := ⟨hcalm', hcalm, hfaults'.trans (h.faults.trans hfaults.symm)⟩
    rw [Migrator.writeEpoch, Migrator.writeEpoch]
    exact (congrArg Prod.snd hu').symm ▸ (congrArg Prod.snd hu).symm ▸ hboth

/-- Moving an epoch in batches of two sizes, without a refused commit and without a cancellation,
has the same outcome, leaves the migrator in the same state with the same report and, if it
succeeds, leaves the same contents in the store. -/
theorem migrateEpoch_withBatchSize (s : Source) (e : UInt32) (m : Migrator) (b b' : UInt64)
    {w : Rehearsal} (hw : w.Calm e) :
    ((m.withBatchSize b).migrateEpoch (reading s) e w).1 =
        ((m.withBatchSize b').migrateEpoch (reading s) e w).1 ∧
      ((m.withBatchSize b).migrateEpoch (reading s) e w).2.1.state =
        ((m.withBatchSize b').migrateEpoch (reading s) e w).2.1.state ∧
      ((m.withBatchSize b).migrateEpoch (reading s) e w).2.1.report =
        ((m.withBatchSize b').migrateEpoch (reading s) e w).2.1.report ∧
      (((m.withBatchSize b).migrateEpoch (reading s) e w).1 = .ok () →
        ((m.withBatchSize b).migrateEpoch (reading s) e w).2.2.held e =
          ((m.withBatchSize b').migrateEpoch (reading s) e w).2.2.held e) := by
  have hm : (m.withBatchSize b).SameTask (m.withBatchSize b') := ⟨rfl, rfl, rfl⟩
  have hboth : BothCalm e w w := ⟨hw, hw, rfl⟩
  obtain ⟨hout, hstate, hreport, -⟩ := Migrator.migrateEpoch_alike (matches_bothCalm s e) hm rfl rfl
    (writesAlike_of_calm s hm) hboth
  refine ⟨hout, hstate, hreport, fun hok => ?_⟩
  rcases hr : (m.withBatchSize b).migrateEpoch (reading s) e w with ⟨r, m₁, w₁⟩
  rcases hr' : (m.withBatchSize b').migrateEpoch (reading s) e w with ⟨r', m₁', w₁'⟩
  rw [hr, hr'] at hout
  rw [hr] at hok
  cases hok
  cases hout
  obtain ⟨metadata, _, _, hmd, -, -, hheld⟩ := Migrator.view_migrateEpoch_ok tracks_held hr
  obtain ⟨metadata', _, _, hmd', -, -, hheld'⟩ := Migrator.view_migrateEpoch_ok tracks_held hr'
  obtain rfl : metadata = metadata' := Option.some.inj (hmd.symm.trans hmd')
  exact hheld.trans hheld'.symm

/-- Batches of one pair and batches of seven have the same effect in the small rehearsal. -/
theorem migrateEpoch_withBatchSize_sample :
    sample.Calm 5 ∧
      ((sampleMigrator.withBatchSize 1).migrateEpoch (reading (.ofContents sampleArchive)) 5
          sample).2.2.held 5 =
        ((sampleMigrator.withBatchSize 7).migrateEpoch (reading (.ofContents sampleArchive)) 5
          sample).2.2.held 5 := by
  have hcalm : sample.Calm 5 := ⟨rfl, rfl, rfl⟩
  obtain ⟨-, -, -, hheld⟩ :=
    migrateEpoch_withBatchSize (.ofContents sampleArchive) 5 sampleMigrator 1 7 hcalm
  exact ⟨hcalm, hheld (by decide +kernel)⟩

end EpochSplit.Rehearsal
