import EpochSplit.Proofs.Migrator.Isolation
import EpochSplit.Proofs.Migrator.Retry
import EpochSplit.Proofs.Sample.Moved
/-!
# Moving a sample archive

Nothing in an archive of separate samples stands in the way of moving all of its epochs, with one
exception: the numbers of intervals are signed 32-bit numbers, so that an epoch of more than `2 ^
31` ranges cannot be moved (`migrateAll_eq_ok_iff`).  Otherwise all epochs are moved, and the store
of each, empty before, then holds what is left of its sample and nothing else
(`migrateAll_samples`).
-/

namespace EpochSplit

namespace SampleArchive

open Rehearsal

/-- A migrator that is about to move the epochs of samples, and no others. -/
structure Faces (m : Migrator) (samples : List EpochSample) (settings : Settings) :
    Prop where
  ready : m.state.canMigrate = true
  settings : m.settings = settings
  metadata : ∀ s ∈ samples, m.metadata.get? s.epoch = some s.metadata
  numbers : ∀ epoch, epoch ∈ m.metadata.epochNumbers ↔ ∃ s ∈ samples, s.epoch = epoch

variable {samples : List EpochSample} {s : EpochSample} {settings : Settings} {m : Migrator}
  {w : Rehearsal}

/-- A migrator that has read an archive of separate samples is about to move their epochs. -/
lemma faces_fresh (hseparate : Separate samples) (settings : Settings) (w : Rehearsal) :
    Faces (Migrator.fresh (reading (source samples)) settings w) samples settings := by
  obtain ⟨metadata, hmetadata, hget, hnumbers⟩ := metadata_source hseparate
  have hfresh : Migrator.fresh (reading (source samples)) settings w =
      { Migrator.start (reading (source samples)) settings w with
        metadata, state := .metadataLoaded } := by
    have hidle : ¬(Migrator.start (reading (source samples)) settings w).state ≠ .idle :=
      fun hne => hne rfl
    have hsource : ((reading (source samples)).source w).metadata = .ok metadata := hmetadata
    rw [Migrator.fresh, Migrator.loadMetadata, if_neg hidle, hsource]
    rfl
  rw [hfresh]
  exact ⟨rfl, rfl, hget, hnumbers⟩

section Faces

variable (hseparate : Separate samples) (hm : Faces m samples settings)

include hseparate hm

/-- An undisturbed move of the epoch of a sample succeeds, unless the sample has too many ranges. -/
lemma migrateEpoch_sample (hs : s ∈ samples) (hw : w.Undisturbed s.epoch) :
    (m.migrateEpoch (reading (source samples)) s.epoch w).1 = .ok () ↔
      s.ranges.length ≤ 2 ^ 31 := by
  have hsound : m.epochFault? (source samples) s.metadata = none ↔ s.ranges.length ≤ 2 ^ 31 :=
    sound_iff hseparate hs
  rw [← hsound]
  constructor
  · intro hok
    obtain ⟨metadata, _, _, hmd, -, hsound, -⟩ :=
      Migrator.view_migrateEpoch_ok tracks_held (Migrator.migrateEpoch_of_outcome hok)
    obtain rfl : s.metadata = metadata := Option.some.inj ((hm.metadata s hs).symm.trans hmd)
    exact hsound
  · intro hsound
    obtain ⟨m', w', hrun, -⟩ :=
      migrateEpoch_of_undisturbed hm.ready (hm.metadata s hs) hsound hw
    rw [hrun]

/-- All epochs are moved, unless a sample has too many ranges. -/
lemma migrateAll_eq_ok_iff (hw : ∀ s ∈ samples, w.Undisturbed s.epoch) :
    (m.migrateAll (reading (source samples)) w).1 = .ok () ↔
      ∀ s ∈ samples, s.ranges.length ≤ 2 ^ 31 := by
  have hcalm : ∀ e ∈ m.metadata.epochNumbers, w.Calm e := by
    intro e he
    obtain ⟨s, hs, rfl⟩ := (hm.numbers e).1 he
    exact (hw s hs).toCalm
  rw [Migrator.migrateAll,
    (Underway.refl hm.ready hcalm).succeeds_iff hm.ready (List.Subset.refl _)]
  constructor
  · intro hok s hs
    have hmove := hok s.epoch ((hm.numbers _).2 ⟨s, hs, rfl⟩)
    exact (migrateEpoch_sample hseparate hm hs (hw s hs)).1 hmove
  · intro hsmall e he
    obtain ⟨s, hs, rfl⟩ := (hm.numbers e).1 he
    exact (migrateEpoch_sample hseparate hm hs (hw s hs)).2 (hsmall s hs)

/-- What moving all epochs leaves in a store that was empty. -/
lemma perm_held_migrateAll (hs : s ∈ samples) (hsmall : s.ranges.length ≤ 2 ^ 31)
    (hempty : w.held s.epoch = ∅) (hok : (m.migrateAll (reading (source samples)) w).1 = .ok ()) :
    ((m.migrateAll (reading (source samples)) w).2.2.held s.epoch).toList.Perm
      (s.moved settings.signatureEpochThreshold) := by
  have hstored := (effect_migrateEpochs hok).1 s.epoch
  have hentries : m.entriesOf (source samples) s.epoch =
      (epochPlan (source samples) s.metadata m.settings.signatureEpochThreshold).flatMap
        EpochStream.entries := by
    rw [Migrator.entriesOf, hm.metadata s hs]
    rfl
  rw [if_pos ((hm.numbers _).2 ⟨s, hs, rfl⟩), hempty, hentries, hm.settings] at hstored
  rw [held_eq_stored, Migrator.migrateAll, hstored, Option.getD_some]
  exact perm_toList_overlay hseparate hs hsmall

end Faces

/-- Separate samples, none with more ranges than there are numbers of intervals, are moved as a
whole.  The store of each epoch, empty before, then holds the pairs that are left of the sample and
nothing else.  The record of the votes on the last ticks has the full votes on the last tick of each
range under the position of that range. -/
theorem migrateAll_samples (hseparate : Separate samples)
    (hsmall : ∀ s ∈ samples, s.ranges.length ≤ 2 ^ 31) (settings : Settings)
    (hw : ∀ s ∈ samples, w.Undisturbed s.epoch) (hempty : ∀ s ∈ samples, w.held s.epoch = ∅) :
    ∃ m' w', (Migrator.fresh (reading (source samples)) settings w).migrateAll
        (reading (source samples)) w = (.ok (), m', w') ∧
      ∀ s ∈ samples,
        (w'.held s.epoch).toList.Perm (s.moved settings.signatureEpochThreshold) ∧
        ∀ number votes, s.lastVotes.quorumDataPerInterval[number]? = some votes ↔
          ∃ i r, s.ranges[i]? = some r ∧ number = Int32.ofNat i ∧
            votes = (quorumTickData s.epoch r.stop).toCurrent := by
  have hm := faces_fresh hseparate settings w
  have hok := (migrateAll_eq_ok_iff hseparate hm hw).2 hsmall
  have hheld := fun s hs => perm_held_migrateAll hseparate hm hs (hsmall s hs) (hempty s hs) hok
  rcases hrun : (Migrator.fresh (reading (source samples)) settings w).migrateAll
      (reading (source samples)) w with ⟨result, m', w'⟩
  rw [hrun] at hok hheld
  subst hok
  exact ⟨m', w', rfl, fun s hs => ⟨hheld s hs, fun _ _ => s.getElem?_lastVotes (hsmall s hs)⟩⟩

/-- Two epochs, the range of the second between the ranges of the first. -/
def interleaved : List EpochSample :=
  [{ epoch := 5, ranges := [⟨10, 11⟩, ⟨14, 14⟩], transactionsPerTick := 2 },
    { epoch := 6, ranges := [⟨12, 13⟩] }]

/-- Both epochs are moved, the second with its vote signature. -/
theorem migrateAll_samples_interleaved :
    Separate interleaved ∧
      ∃ m' w', (Migrator.fresh (reading (source interleaved))
          { signatureEpochThreshold := 5 } {}).migrateAll (reading (source interleaved)) {} =
          (.ok (), m', w') ∧
        (w'.held 5).toList.length = 25 ∧ (w'.held 6).toList.length = 15 := by
  have hseparate : Separate interleaved :=
    ⟨by decide, by decide, by decide, by decide, by decide⟩
  have hsmall : ∀ s ∈ interleaved, s.ranges.length ≤ 2 ^ 31 := by decide
  obtain ⟨m', w', hrun, hheld⟩ := migrateAll_samples hseparate hsmall
    { signatureEpochThreshold := 5 } (fun s _ => undisturbed_default s.epoch)
    fun s _ => held_default s.epoch
  obtain ⟨hfirst, hrest⟩ := List.forall_mem_cons.1 hheld
  have hsecond := List.forall_mem_singleton.1 hrest
  exact ⟨hseparate, m', w', hrun, hfirst.1.length_eq, hsecond.1.length_eq⟩

/-! ### Too many ranges -/

/-- An epoch with as many ranges, of one tick each. -/
def crowded (count : Nat) : EpochSample where
  epoch := 5
  ranges := (List.range count).map fun n => ⟨UInt32.ofNat n, UInt32.ofNat n⟩
  transactionsPerTick := 0

lemma length_ranges_crowded (count : Nat) : (crowded count).ranges.length = count := by
  rw [crowded, List.length_map, List.length_range]

lemma separate_crowded {count : Nat} (hpos : 0 < count) (hcount : count ≤ 2 ^ 32) :
    Separate [crowded count] := by
  refine ⟨List.nodup_singleton _, ?_, ?_, ?_, ?_⟩
  · rw [List.forall_mem_singleton, ← List.length_pos_iff, length_ranges_crowded]
    exact hpos
  · rw [List.forall_mem_singleton, crowded, List.forall_mem_map]
    exact fun n _ => UInt32.le_refl _
  · rw [List.flatMap_singleton, crowded, List.pairwise_map]
    refine List.pairwise_lt_range.imp_of_mem fun {n n'} hn hn' hlt => .inl ?_
    have htoNat : ∀ n ∈ List.range count, (UInt32.ofNat n).toNat = n := fun n hn =>
      UInt32.toNat_ofNat_of_lt' (Nat.lt_of_lt_of_le (List.mem_range.1 hn) hcount)
    rw [UInt32.lt_iff_toNat_lt, htoNat n hn, htoNat n' hn']
    exact hlt
  · rw [List.forall_mem_singleton, crowded]
    exact Nat.two_pow_pos 32

/-- One range more than there are numbers of intervals, and the epoch is not moved. -/
theorem not_migrateAll_crowded :
    Separate [crowded (2 ^ 31 + 1)] ∧
      (∀ s ∈ [crowded (2 ^ 31 + 1)],
        ({} : Rehearsal).Undisturbed s.epoch ∧ ({} : Rehearsal).held s.epoch = ∅) ∧
      ((Migrator.fresh (reading (source [crowded (2 ^ 31 + 1)])) {} {}).migrateAll
        (reading (source [crowded (2 ^ 31 + 1)])) {}).1 ≠ .ok () := by
  have hseparate : Separate [crowded (2 ^ 31 + 1)] := separate_crowded (by omega) (by omega)
  refine ⟨hseparate, fun s _ => ⟨undisturbed_default s.epoch, held_default s.epoch⟩, fun hok => ?_⟩
  have hsmall := (migrateAll_eq_ok_iff hseparate (faces_fresh hseparate {} {})
    fun s _ => undisturbed_default s.epoch).1 hok
  have hlength := hsmall _ List.mem_cons_self
  rw [length_ranges_crowded] at hlength
  omega

end SampleArchive

end EpochSplit
