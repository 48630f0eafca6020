import EpochSplit.Proofs.Store.Rehearsal
/-!
# Interrupted moves

A move of an epoch for which the archive has no fault is stopped by nothing but a refused commit or
a cancellation.  What it committed until then is a beginning of what the whole move commits, and the
store holds just that on top of what it held before.
-/

namespace EpochSplit.Rehearsal

variable {s : Source} {e : UInt32} {m m' : Migrator} {w w' : Rehearsal} {err : Error}

/-- Why a move is stopped: a commit is refused, which has to be planned, or a planned cancellation
is noticed. -/
inductive Interrupts (w : Rehearsal) (e : UInt32) (err : Error) : Prop where
  | refused (count : Nat) (reason : String) (planned : (w.epoch e).refusal ≠ none)
      (root : err.root = .store (.commit count reason))
  | cancelled (count : Nat) (planned : w.cancelAfter ≠ none)
      (root : err.root = .run (.cancelled count))

lemma Interrupts.context (h : w.Interrupts e err) (doing : String) :
    w.Interrupts e (.context doing err) := by
  cases h with
  | refused count reason planned root => exact .refused count reason planned root
  | cancelled count planned root => exact .cancelled count planned root

/-- Opening the store plans nothing. -/
lemma Interrupts.of_opened (h : (w.setEpoch e (w.epoch e)).Interrupts e err) :
    w.Interrupts e err := by
  cases h with
  | refused count reason planned root =>
      rw [epoch_setEpoch] at planned
      exact .refused count reason planned root
  | cancelled count planned root => exact .cancelled count planned root

/-- A step that is no fault of the archive fails by a refusal, or because the run is cancelled. -/
lemma takeStep_eq_error {target : Target Rehearsal} (ht : target = epochTarget e) {step : Step}
    (hsound : step.fault? = none)
    (h : (m.channel (reading s) target "").takeStep step w = (.error err, w')) :
    (∃ count reason, (w.epoch e).refusal ≠ none ∧ err.root = .store (.commit count reason)) ∨
      ∃ count, w.cancelled = true ∧ err.root = .run (.cancelled count) := by
  subst ht
  cases step with
  | commit doing batch =>
      simp only [Channel.takeStep] at h
      split at h
      · cases h
      · next hcommit =>
          cases h
          obtain ⟨hrefuses, rfl, -⟩ := commit_eq_error hcommit
          refine .inl ⟨batch.length, "commit limit reached", fun hnone => ?_, Error.root_within _ _⟩
          rw [MemoryStore.refuses, hnone] at hrefuses
          exact Bool.false_ne_true hrefuses
  | pause doing written =>
      simp only [Channel.takeStep] at h
      split at h
      · next hx =>
          cases h
          exact .inr ⟨written, hx, Error.root_within _ _⟩
      · cases h
  | stop err' => cases hsound

/-- The writing of an epoch without a fault is stopped by an interruption only. -/
lemma interrupts_of_writeEpoch {metadata : EpochMetadata}
    (hsound : m.epochFault? s metadata = none) (hlive : w.cancelled = false)
    (h : m.writeEpoch (reading s) metadata (epochTarget e) w = (.error err, w')) :
    w.Interrupts e err := by
  obtain ⟨done, step, rest, reached, hsteps, hdone, hstep⟩ := Channel.perform_eq_error h
  have hnofault : step.fault? = none := by
    have hall : (done ++ step :: rest).findSome? Step.fault? = none := by
      rw [← hsteps]
      exact (m.fault?_epochSteps s metadata).trans hsound
    exact List.findSome?_eq_none_iff.1 hall step (by simp)
  -- up to this step, the plans of the world are as they were
  have hrefusal := Channel.view_perform_ok (target_tracks (tracks_refusal (s := s))) hdone
  have hunending := Channel.view_perform_ok (target_tracks (tracks_live (s := s) (e := e))) hdone
  obtain ⟨count, reason, hplanned, hroot⟩ | ⟨count, hcancelled, hroot⟩ :=
    takeStep_eq_error rfl hnofault hstep
  · exact .refused count reason (hrefusal ▸ hplanned) hroot
  · refine .cancelled count (fun hnone => ?_) hroot
    have hreached : reached.cancelled = false ∧ reached.cancelAfter = none :=
      hunending.mpr ⟨hlive, hnone⟩
    exact Bool.false_ne_true (hreached.1.symm.trans hcancelled)

/-- If nothing fails in a rehearsal but commits, a move of an epoch without a fault fails only by an
interruption, and the store has been closed once by then. -/
lemma migrateEpoch_eq_error {metadata : EpochMetadata} (hready : m.state.canMigrate = true)
    (hmd : m.metadata.get? e = some metadata) (hsound : m.epochFault? s metadata = none)
    (hlive : w.cancelled = false) (hfaults : w.Faultless e)
    (h : m.migrateEpoch (reading s) e w = (.error err, m', w')) :
    w.Interrupts e err ∧ m'.state = .failed (some e) err.message ∧
      m'.report.epochs = m.report.epochs ∧ (w'.epoch e).closes = (w.epoch e).closes + 1 := by
  have hopen : (reading s).openEpoch e w = (.ok (epochTarget e), w.setEpoch e (w.epoch e)) :=
    openEpoch_of_faultless hfaults
  rcases hwrite : m.writeEpoch (reading s) metadata (epochTarget e) (w.setEpoch e (w.epoch e)) with
    ⟨cause | ⟨⟩, reached⟩
  · rw [Migrator.migrateEpoch_of_write_error hready hlive hmd hopen hwrite rfl] at h
    cases h
    obtain ⟨-, -, hcloses⟩ := Channel.view_perform (target_tracks (tracks_closes (s := s))) hwrite
    have hinterrupts : (w.setEpoch e (w.epoch e)).Interrupts e cause :=
      interrupts_of_writeEpoch hsound hlive hwrite
    refine ⟨hinterrupts.of_opened.context _, rfl, rfl, ?_⟩
    simp only [epoch_setEpoch, MemoryStore.close, hcloses]
  · have hwritten := Channel.view_perform_ok (target_tracks (tracks_faults (s := s))) hwrite
    have hfaults' : reached.Faultless e :=
      ⟨hwritten ▸ hfaults.opens, hwritten ▸ hfaults.compacts, hwritten ▸ hfaults.closes⟩
    obtain ⟨settledReport, settled, hsettle, hfaults''⟩ := settle_of_faultless m hfaults'
      (m.counted s metadata { epoch := e, startedAt := 0 })
    have hok := Migrator.migrateEpoch_of_phases hready hlive hmd hopen hwrite hsettle
      (close_of_faultless hfaults'')
    rw [h] at hok
    cases hok

/-- What a move commits is a beginning of all that there is to write for the epoch. -/
lemma committed_prefix {metadata : EpochMetadata} (hmd : m.metadata.get? e = some metadata)
    (hsound : m.epochFault? s metadata = none) (w : Rehearsal) :
    committed (m.epochCalls (reading s) e w) <+: m.epochEntries s metadata := by
  obtain hnone | ⟨metadata', target, opened, done, rest, hmd', -, hsteps, hcommitted⟩ :=
    m.committed_epochCalls (reading s) e w
  · rw [hnone]
    exact List.nil_prefix
  · obtain rfl : metadata = metadata' := Option.some.inj (hmd.symm.trans hmd')
    have hsteps' : m.epochSteps s metadata = done ++ rest := hsteps
    rw [hcommitted, ← Migrator.entries_epochSteps hsound, hsteps', List.flatMap_append]
    exact List.prefix_append _ _

/-- A move that succeeds if nothing interrupts it either commits all that it has to commit, or it is
interrupted: with batches of any size, over any contents, and wherever it is stopped.  An
interrupted move leaves a beginning of what it has to commit on top of what the store held.  Its
error has the refused commit or the cancellation for its root, the migrator has failed at the epoch,
the report has no entry for it, and the store was closed once. -/
theorem migrateEpoch_interrupted {w₀ : Rehearsal}
    (hfull : (m.migrateEpoch (reading s) e w₀).1 = .ok ()) (b : UInt64)
    (hlive : w.cancelled = false) (hfaults : w.Faultless e) {r : Except Error Unit}
    (h : (m.withBatchSize b).migrateEpoch (reading s) e w = (r, m', w')) :
    (r = .ok () ∧ committed ((m.withBatchSize b).epochCalls (reading s) e w) =
      committed (m.epochCalls (reading s) e w₀)) ∨
    ∃ err, r = .error err ∧ w.Interrupts e err ∧
      w'.held e = (w.held e).overlay ((committed (m.epochCalls (reading s) e w₀)).take
        (committed ((m.withBatchSize b).epochCalls (reading s) e w)).length) ∧
      m'.state = .failed (some e) err.message ∧ m'.report.epochs = m.report.epochs ∧
      (w'.epoch e).closes = (w.epoch e).closes + 1 := by
  obtain ⟨metadata, target, opened, hmd, -, (hsound : m.epochFault? s metadata = none),
    (hall : _ = m.epochEntries s metadata)⟩ := Migrator.committed_epochCalls_of_ok hfull
  have hready := Migrator.canMigrate_of_ok hfull
  cases r with
  | ok _ =>
      -- both moves commit all that the plan writes
      have hok : ((m.withBatchSize b).migrateEpoch (reading s) e w).1 = .ok () := by rw [h]
      obtain ⟨metadata', target', opened', hmd', -, -, hall'⟩ :=
        Migrator.committed_epochCalls_of_ok hok
      obtain rfl : metadata = metadata' := Option.some.inj (hmd.symm.trans hmd')
      exact .inl ⟨rfl, hall'.trans hall.symm⟩
  | error err =>
      have hprefix : _ <+: m.epochEntries s metadata :=
        committed_prefix (m := m.withBatchSize b) hmd hsound w
      have hheld := held_migrateEpoch (m.withBatchSize b) s e w
      rw [h] at hheld
      refine .inr ⟨err, rfl, ?_⟩
      obtain ⟨hinterrupts, hstate, hreport, hcloses⟩ :=
        migrateEpoch_eq_error (m := m.withBatchSize b) hready hmd hsound hlive hfaults h
      refine ⟨hinterrupts, ?_, hstate, hreport, hcloses⟩
      rw [hall, ← List.prefix_iff_eq_take.1 hprefix]
      exact hheld

/-- The small rehearsal, in which the store takes `commits` batches. -/
def sampleRefusing (commits : Nat) : Rehearsal :=
  sample.setEpoch 5 (MemoryStore.refuseAfter {} commits)

/-- A refusal after three commits interrupts the small rehearsal. -/
theorem migrateEpoch_interrupted_sample :
    ∃ err m' w', (sampleMigrator.withBatchSize 1).migrateEpoch (reading (.ofContents sampleArchive))
        5 (sampleRefusing 3) = (.error err, m', w') ∧
      (sampleRefusing 3).Interrupts 5 err ∧ (w'.epoch 5).closes = 1 := by
  have hfull : (sampleMigrator.migrateEpoch (reading (.ofContents sampleArchive)) 5 sample).1 =
      .ok () := by decide +kernel
  have hstopped : ((sampleMigrator.withBatchSize 1).migrateEpoch
      (reading (.ofContents sampleArchive)) 5 (sampleRefusing 3)).1 ≠ .ok () := by decide +kernel
  obtain ⟨hok, -⟩ | ⟨err, herr, hinterrupts, -, -, -, hcloses⟩ :=
    migrateEpoch_interrupted hfull 1 (w := sampleRefusing 3) rfl ⟨rfl, rfl, rfl⟩
      (Migrator.migrateEpoch_of_outcome rfl)
  · exact absurd hok hstopped
  · exact ⟨err, _, _, Migrator.migrateEpoch_of_outcome herr, hinterrupts, hcloses⟩

end EpochSplit.Rehearsal
