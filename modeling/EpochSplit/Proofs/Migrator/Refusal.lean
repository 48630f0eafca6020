import EpochSplit.Proofs.Migrator.Lifecycle
/-!
# Requests out of turn

A migrator that is idle or has failed moves no epoch, and the session stays as it is.  The request
is refused for the sake of the first epoch that is to be moved (`perform_out_of_turn`).  Where there
is none, nothing is refused either: a migrator that has not looked into the archive yet takes the
request for all epochs as fulfilled, whatever the archive holds (`migrateAll_unread`).
-/

namespace EpochSplit

/-- A selection that is not refused has epochs, unless it is of all epochs and there are none. -/
lemma EpochSelection.epochs_eq_nil_iff {selection : EpochSelection} {metadata : StoreMetadata}
    (hvalid : selection.validate = .ok ()) :
    selection.epochs metadata = [] ↔ selection = .all ∧ metadata.epochNumbers = [] := by
  cases selection with
  | all => exact ⟨fun h => ⟨rfl, h⟩, And.right⟩
  | epoch e => exact ⟨nofun, nofun⟩
  | range start stop =>
      refine ⟨fun h => ?_, nofun⟩
      have hle : start.toNat ≤ stop.toNat := by
        by_contra hlt
        rw [validate, if_neg (UInt32.le_iff_toNat_le.not.2 hlt)] at hvalid
        cases hvalid
      have hcount : stop.toNat + 1 - start.toNat = 0 := by
        simpa [epochs] using h
      omega

namespace Session

variable {σ : Type} {site : Site σ} {token : Token site}

/-- The session comes about from a new migrator. -/
def Reachable (token : Token site) (s : Session σ) : Prop :=
  ∃ settings world requests, s = (start site settings world).afterAll token requests

lemma Reachable.resting {s : Session σ} (hs : s.Reachable token) : s.migrator.Resting := by
  obtain ⟨settings, world, requests, rfl⟩ := hs
  exact resting_afterAll token settings world requests

lemma moveEach_of_unready {s : Session σ} (hready : s.migrator.state.canMigrate = false)
    (epochs : List UInt32) :
    s.moveEach site epochs =
      (if epochs = [] then .ok () else .error (s.migrator.invalidState "migrate epoch"), s) := by
  cases epochs with
  | nil => rfl
  | cons epoch epochs =>
      refine moveEach_cons_error ?_
      rw [move_eq, Migrator.migrateEpoch_of_unready hready]

/-- A migrator that is idle or has failed moves no epoch.  It says so unless all epochs are asked
for and it knows of none, as it does while it is idle. -/
theorem perform_out_of_turn {s : Session σ} (hs : s.Reachable token)
    (hstate : s.migrator.state = .idle ∨ s.migrator.Failed) {r : Request site}
    {selection : EpochSelection} (hselection : r.selection? = some selection)
    (hvalid : selection.validate = .ok ()) :
    (r.perform token s).2 = s ∧
      (¬ (selection = .all ∧ s.migrator.metadata.epochNumbers = []) →
        (r.perform token s).1 =
          .error (.run (.invalidState "migrate epoch" s.migrator.state.text))) ∧
      (selection = .all ∧ s.migrator.metadata.epochNumbers = [] →
        (r.perform token s).1 = .ok ()) ∧
      (s.migrator.state = .idle → s.migrator.metadata.epochNumbers = []) := by
  have hready : s.migrator.state.canMigrate = false := by
    obtain hidle | ⟨epoch, reason, hfailed⟩ := hstate
    · rw [hidle]
      rfl
    · rw [hfailed]
      rfl
  have hperform : r.perform token s = s.moveEach site (selection.epochs s.migrator.metadata) := by
    rw [perform_of_selection hselection, hvalid]
  rw [hperform, moveEach_of_unready hready, ← EpochSelection.epochs_eq_nil_iff hvalid]
  refine ⟨rfl, fun h => if_neg h, fun h => if_pos h, fun hidle => ?_⟩
  rw [hs.resting.unloaded hidle]
  rfl

end Session

namespace Rehearsal

/-- A new migrator refuses to move the epoch of the small rehearsal. -/
theorem perform_out_of_turn_sample :
    ((Request.migrateEpoch 5).perform token sampleSession).1 =
      .error (.run (.invalidState "migrate epoch" "idle")) := by
  have hreachable : sampleSession.Reachable token := ⟨{}, sample, [], rfl⟩
  obtain ⟨-, hrefused, -⟩ := Session.perform_out_of_turn hreachable (.inl rfl)
    (r := .migrateEpoch 5) rfl rfl
  exact hrefused fun h => nomatch h.1

/-- The archive of the small rehearsal has an epoch, but a migrator that has not read it takes the
request to move all epochs as fulfilled. -/
theorem migrateAll_unread :
    (site.source sample).metadata.map (·.epochNumbers) = .ok [5] ∧
      sampleSession.migrator.state = .idle ∧
      (Request.migrateAll.perform token sampleSession).1 = .ok () := by
  refine ⟨?_, rfl, rfl⟩
  decide +kernel

end Rehearsal

end EpochSplit
