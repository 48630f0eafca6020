import EpochSplit.Proofs.Migrator.Interruption
import EpochSplit.Proofs.Store.Overlay
/-!
# Moving an epoch again

Where nothing interrupts it, an epoch for which the archive has no fault is moved with success, and
its store then holds all that there is to write on top of what it held before.  As that is absorbed
by writing all of it once more, it makes no difference whether the epoch was moved before, as a
whole or up to an interruption.
-/

namespace EpochSplit.Rehearsal

variable {s : Source} {e : UInt32} {m m' : Migrator} {w w' : Rehearsal}

/-- Nothing stands in the way of a move. -/
structure Undisturbed (w : Rehearsal) (e : UInt32) : Prop extends w.Calm e, w.Faultless e

/-- At first nothing stands in the way of a move. -/
lemma undisturbed_default (e : UInt32) : ({} : Rehearsal).Undisturbed e where
  accepts := by simp [epoch]
  live := rfl
  unending := rfl
  opens := rfl
  compacts := rfl
  closes := rfl

lemma not_interrupts_of_calm {err : Error} (h : w.Calm e) : ¬w.Interrupts e err := by
  rintro (⟨_, _, planned, -⟩ | ⟨_, planned, -⟩)
  · exact planned h.accepts
  · exact planned h.unending

/-- An undisturbed move of an epoch without a fault succeeds. -/
lemma migrateEpoch_of_undisturbed {metadata : EpochMetadata} (hready : m.state.canMigrate = true)
    (hmd : m.metadata.get? e = some metadata) (hsound : m.epochFault? s metadata = none)
    (hw : w.Undisturbed e) :
    ∃ m' w', m.migrateEpoch (reading s) e w = (.ok (), m', w') ∧
      w'.held e = (w.held e).overlay (m.epochEntries s metadata) := by
  rcases hrun : m.migrateEpoch (reading s) e w with ⟨err | ⟨⟩, m', w'⟩
  · obtain ⟨hinterrupts, -⟩ := migrateEpoch_eq_error hready hmd hsound hw.live hw.toFaultless hrun
    exact absurd hinterrupts (not_interrupts_of_calm hw.toCalm)
  · obtain ⟨metadata', target, opened, hmd', -, -, hheld⟩ :=
      Migrator.view_migrateEpoch_ok tracks_held hrun
    obtain rfl : metadata = metadata' := Option.some.inj (hmd.symm.trans hmd')
    exact ⟨m', w', rfl, hheld⟩

/-- A move leaves an undisturbed world undisturbed. -/
lemma undisturbed_migrateEpoch (m : Migrator) (s : Source) (hw : w.Undisturbed e) :
    (m.migrateEpoch (reading s) e w).2.2.Undisturbed e := by
  have hcalm := Migrator.view_migrateEpoch_of_const (tracks_calm (s := s) (e := e)) m w
  have hfaults := Migrator.view_migrateEpoch_of_const (tracks_faults (s := s) (e := e)) m w
  exact { toCalm := hcalm.mpr hw.toCalm
          toFaultless := ⟨hfaults ▸ hw.opens, hfaults ▸ hw.compacts, hfaults ▸ hw.closes⟩ }

/-- The size of the batches has no part in loading the metadata, nor has the world. -/
lemma fresh_reading (s : Source) (settings : Settings) (b : UInt64) (w w' : Rehearsal) :
    Migrator.fresh (reading s) { settings with batchSize := b } w =
      (Migrator.fresh (reading s) settings w').withBatchSize b := by
  unfold Migrator.fresh Migrator.loadMetadata
  simp only [reading, site, Migrator.start]
  cases Error.inContext "loading store metadata" s.metadata with
  | ok metadata => rfl
  | error err => rfl

/-- Moving an epoch converges.  If an undisturbed move succeeds, then moving the epoch again
succeeds and leaves the store as it is.  And whatever becomes of a move over the same contents with
batches of another size, in particular one that is stopped by a refused commit or by a cancellation:
an undisturbed move that comes after it, by a fresh migrator with batches of any size, succeeds and
leaves in the store what the first move left. -/
theorem migrateEpoch_again (s : Source) (e : UInt32) (settings : Settings) (b₀ b₁ b₂ : UInt64)
    {w₀ w₀' : Rehearsal} {m₀' : Migrator} (hw₀ : w₀.Undisturbed e)
    (hfull : (Migrator.fresh (reading s) { settings with batchSize := b₀ } w₀).migrateEpoch
      (reading s) e w₀ = (.ok (), m₀', w₀')) :
    (∃ m' w', m₀'.migrateEpoch (reading s) e w₀' = (.ok (), m', w') ∧ w'.held e = w₀'.held e) ∧
      ∀ {w₁ w₁' w₂ : Rehearsal} {r₁ : Except Error Unit} {m₁' : Migrator},
        w₁.held e = w₀.held e →
        (Migrator.fresh (reading s) { settings with batchSize := b₁ } w₁).migrateEpoch
          (reading s) e w₁ = (r₁, m₁', w₁') →
        w₂.held e = w₁'.held e → w₂.Undisturbed e →
        ∃ m' w', (Migrator.fresh (reading s) { settings with batchSize := b₂ } w₂).migrateEpoch
          (reading s) e w₂ = (.ok (), m', w') ∧ w'.held e = w₀'.held e := by
  -- all of these migrators are one, up to the size of the batches
  obtain ⟨m, hm⟩ : ∃ m, m = Migrator.fresh (reading s) settings w₀ := ⟨_, rfl⟩
  rw [fresh_reading s settings b₀ w₀ w₀, ← hm] at hfull
  obtain ⟨metadata, target, opened, hmd, -, (hsound : m.epochFault? s metadata = none),
    (hheld : _ = (w₀.held e).overlay (m.epochEntries s metadata))⟩ :=
    Migrator.view_migrateEpoch_ok tracks_held hfull
  have hready : m.state.canMigrate = true :=
    Migrator.canMigrate_of_ok (m := m.withBatchSize b₀) (congrArg Prod.fst hfull)
  refine ⟨?_, fun {w₁ w₁' w₂ r₁ m₁'} hw₁ h₁ hw₂ hundisturbed => ?_⟩
  · have hw₀' := undisturbed_migrateEpoch (m.withBatchSize b₀) s hw₀
    rw [hfull] at hw₀'
    obtain ⟨_, _, _, _, _, _, -, -, -, -, -, -, -, hdone⟩ := Migrator.migrateEpoch_eq_ok hfull
    have hready' : m₀'.state.canMigrate = true := by rw [hdone]; rfl
    have hmd' : m₀'.metadata.get? e = some metadata := by rw [hdone]; exact hmd
    have hsound' : m₀'.epochFault? s metadata = none := by rw [hdone]; exact hsound
    obtain ⟨m', w', hrun, hagain⟩ := migrateEpoch_of_undisturbed hready' hmd' hsound' hw₀'
    refine ⟨m', w', hrun, hagain.trans ?_⟩
    rw [hheld, hdone]
    exact Contents.overlay_overlay_of_prefix List.prefix_rfl
  · rw [fresh_reading s settings b₁ w₁ w₀, ← hm] at h₁
    rw [fresh_reading s settings b₂ w₂ w₀, ← hm]
    have hheld₁ := held_migrateEpoch (m.withBatchSize b₁) s e w₁
    rw [h₁, hw₁] at hheld₁
    have hprefix : _ <+: m.epochEntries s metadata :=
      committed_prefix (m := m.withBatchSize b₁) hmd hsound w₁
    obtain ⟨m', w', hrun, hagain⟩ :=
      migrateEpoch_of_undisturbed (m := m.withBatchSize b₂) hready hmd hsound hundisturbed
    refine ⟨m', w', hrun, hagain.trans ?_⟩
    rw [hw₂, hheld₁, hheld]
    exact Contents.overlay_overlay_of_prefix hprefix

/-- The world once commits to the store of an epoch are accepted again. -/
def accepting (w : Rehearsal) (e : UInt32) : Rehearsal :=
  w.setEpoch e { w.epoch e with refusal := none }

lemma held_accepting (w : Rehearsal) (e : UInt32) : (w.accepting e).held e = w.held e := by
  rw [accepting, held, epoch_setEpoch, held]

/-- A move that only refusals disturb can be retried undisturbed once commits are accepted again. -/
lemma undisturbed_accepting (m : Migrator) (s : Source)
    (hlive : w.cancelled = false ∧ w.cancelAfter = none) (hfaults : w.Faultless e) :
    ((m.migrateEpoch (reading s) e w).2.2.accepting e).Undisturbed e := by
  have hlive' := (Migrator.view_migrateEpoch_of_const (tracks_live (s := s) (e := e)) m w).mpr hlive
  have hfaults' := Migrator.view_migrateEpoch_of_const (tracks_faults (s := s) (e := e)) m w
  generalize (m.migrateEpoch (reading s) e w).2.2 = w' at hlive' hfaults'
  exact { toCalm := ⟨by rw [accepting, epoch_setEpoch], hlive'.1, hlive'.2⟩
          toFaultless := ⟨hfaults' ▸ hfaults.opens, hfaults' ▸ hfaults.compacts,
            hfaults' ▸ hfaults.closes⟩ }

/-- A move of the small rehearsal by a fresh migrator. -/
def sampleMove (settings : Settings) (b : UInt64) (w : Rehearsal) :
    Except Error Unit × Migrator × Rehearsal :=
  (Migrator.fresh (reading (.ofContents sampleArchive)) { settings with batchSize := b }
    w).migrateEpoch (reading (.ofContents sampleArchive)) 5 w

/-- The small rehearsal is moved a second time, and it is moved after a refusal had stopped it. -/
theorem migrateEpoch_again_sample :
    (∃ m' w', (sampleMove {} 2 sample).2.1.migrateEpoch (reading (.ofContents sampleArchive)) 5
        (sampleMove {} 2 sample).2.2 = (.ok (), m', w') ∧
        w'.held 5 = (sampleMove {} 2 sample).2.2.held 5) ∧
      (sampleMove {} 1 (sampleRefusing 3)).1 ≠ .ok () ∧
      ∃ m' w', sampleMove {} 7 ((sampleMove {} 1 (sampleRefusing 3)).2.2.accepting 5) =
        (.ok (), m', w') ∧ w'.held 5 = (sampleMove {} 2 sample).2.2.held 5 := by
  have hw₀ : sample.Undisturbed 5 := { toCalm := ⟨rfl, rfl, rfl⟩, toFaultless := ⟨rfl, rfl, rfl⟩ }
  have hfull : (sampleMove {} 2 sample).1 = .ok () := by decide +kernel
  have hstopped : (sampleMove {} 1 (sampleRefusing 3)).1 ≠ .ok () := by decide +kernel
  obtain ⟨hagain, hretry⟩ := migrateEpoch_again (.ofContents sampleArchive) 5 {} 2 1 7 hw₀
    (Migrator.migrateEpoch_of_outcome hfull)
  have hlive : (sampleRefusing 3).cancelled = false ∧ (sampleRefusing 3).cancelAfter = none :=
    ⟨rfl, rfl⟩
  have hfaults : (sampleRefusing 3).Faultless 5 := ⟨rfl, rfl, rfl⟩
  have hheld : (sampleRefusing 3).held 5 = sample.held 5 := rfl
  refine ⟨?_, hstopped, ?_⟩
  · rw [sampleMove]
    exact hagain
  · rw [sampleMove, sampleMove, sampleMove]
    have h := hretry hheld (Migrator.migrateEpoch_of_outcome rfl) (held_accepting _ 5)
      (undisturbed_accepting _ _ hlive hfaults)
    exact h

end EpochSplit.Rehearsal
