import EpochSplit.Proofs.Epoch.Writes
import EpochSplit.Proofs.Store.Overlay
import EpochSplit.Proofs.Store.Rehearsal
/-!
# The split of an archive

A move with success puts into an empty store just those tick data and votes of the archive that lie
in the processed ranges of the epoch, each once, under the key that it had and with its value
converted.  The ranges may overlap or touch, they may be inverted, and they may reach to the last
tick that there is.
-/

namespace EpochSplit

/-- Contents that hold, of the keys of a namespace, those that an archive has in some ranges of
ticks, with the images of its values. -/
structure IsSplit (ns : Namespace) (image : Bytes → Except CodecFault Bytes)
    (ranges : List TickRange) (archive target : Contents) : Prop where
  keys : ∀ key : Bytes, key.head? = some ns.tag →
    (key ∈ target ↔ key ∈ archive ∧ ∃ r ∈ ranges, (KeyRange.ofTicks ns r).contains key = true)
  values : ∀ key value : Bytes, key.head? = some ns.tag → target[key]? = some value →
    ∃ stored, archive[key]? = some stored ∧ image stored = .ok value

section Plan

variable {archive : Contents} {m : EpochMetadata} {threshold : UInt32} {ns : Namespace}
  {image : Bytes → Except CodecFault Bytes} {entries : List Entry}

/-- Pairs are a split if each of them is a pair of the archive that lies in a range and was moved,
and if each such pair of the archive was moved. -/
lemma isSplit_overlay {V : Type} {move : Entry → Except CodecFault (V × Entry)}
    {ranges : List TickRange}
    (hmove : ∀ {old v entry}, move old = .ok (v, entry) →
      entry.1 = old.1 ∧ image old.2 = .ok entry.2)
    (hfrom : ∀ {entry}, entry ∈ entries → entry.1.head? = some ns.tag →
      ∃ r ∈ ranges, ∃ old v,
        .ok old ∈ (Source.ofContents archive).items (KeyRange.ofTicks ns r) ∧
        move old = .ok (v, entry))
    (hinto : ∀ {r}, r ∈ ranges → ∀ {old},
      .ok old ∈ (Source.ofContents archive).items (KeyRange.ofTicks ns r) →
        ∃ v entry, move old = .ok (v, entry) ∧ entry ∈ entries) :
    IsSplit ns image ranges archive (Contents.overlay ∅ entries) where
  keys key hkey := by
    rw [Contents.mem_overlay, List.mem_map]
    constructor
    · rintro (⟨entry, hentry, rfl⟩ | hempty)
      · obtain ⟨r, hr, old, v, hscanned, hmoved⟩ := hfrom hentry hkey
        obtain ⟨hstored, hcontains⟩ := Source.mem_items_ofContents.1 hscanned
        obtain ⟨hsame, -⟩ := hmove hmoved
        have hmem : old.1 ∈ archive := by
          rw [Std.ExtTreeMap.mem_iff_isSome_getElem?, hstored]
          rfl
        exact ⟨hsame ▸ hmem, r, hr, hsame ▸ hcontains⟩
      · exact absurd hempty Std.ExtTreeMap.not_mem_empty
    · rintro ⟨hmem, r, hr, hcontains⟩
      rw [Std.ExtTreeMap.mem_iff_isSome_getElem?] at hmem
      obtain ⟨stored, hstored⟩ := Option.isSome_iff_exists.1 hmem
      have hscanned : .ok (key, stored) ∈
          (Source.ofContents archive).items (KeyRange.ofTicks ns r) :=
        Source.mem_items_ofContents.2 ⟨hstored, hcontains⟩
      obtain ⟨v, entry, hmoved, hentry⟩ := hinto hr hscanned
      obtain ⟨hsame, -⟩ := hmove hmoved
      exact .inl ⟨entry, hentry, hsame⟩
  values key value hkey hvalue := by
    -- the target was empty, so that the value was written
    have hentry : (key, value) ∈ entries := Contents.mem_of_getElem?_overlay_empty hvalue
    obtain ⟨r, hr, old, v, hscanned, hmoved⟩ := hfrom hentry hkey
    obtain ⟨hstored, -⟩ := Source.mem_items_ofContents.1 hscanned
    obtain ⟨hsame, himage⟩ := hmove hmoved
    rw [← hsame] at hstored
    exact ⟨old.2, hstored, himage⟩

/-- The tick data of a plan without a fault are a split. -/
lemma isSplit_tickData
    (hsound : (epochPlan (.ofContents archive) m threshold).findSome? EpochStream.fault? = none) :
    IsSplit .tickData EpochEntry.tickValue m.ranges archive
      (Contents.overlay ∅
        ((epochPlan (.ofContents archive) m threshold).flatMap EpochStream.entries)) := by
  refine isSplit_overlay (fun h => (EpochEntry.tickData_eq_ok h).2) ?_
    (EpochPlan.exists_mem_of_tickData hsound)
  intro entry hentry hkey
  cases EpochPlan.written_of_head? hentry hkey with
  | tickData range scanned moved => exact ⟨_, range, _, _, scanned, moved⟩

/-- The votes of a plan without a fault are a split. -/
lemma isSplit_quorumData
    (hsound : (epochPlan (.ofContents archive) m threshold).findSome? EpochStream.fault? = none) :
    IsSplit .quorumData EpochEntry.quorumValue m.ranges archive
      (Contents.overlay ∅
        ((epochPlan (.ofContents archive) m threshold).flatMap EpochStream.entries)) := by
  refine isSplit_overlay (fun h => (EpochEntry.quorumData_eq_ok h).2) ?_
    (EpochPlan.exists_mem_of_quorumData hsound)
  intro entry hentry hkey
  cases EpochPlan.written_of_head? hentry hkey with
  | quorumData range scanned moved attributed => exact ⟨_, range, _, _, scanned, moved⟩

end Plan

namespace Rehearsal

/-- A move with success into an empty store leaves in it a split of the tick data and a split of the
votes of the archive by the processed ranges of the epoch: tick data are converted, of votes the
reduced form is kept. -/
theorem migrateEpoch_split {m m' : Migrator} {e : UInt32} {w w' : Rehearsal}
    (hempty : w.held e = ∅) (h : m.migrateEpoch site e w = (.ok (), m', w')) :
    ∃ metadata, m.metadata.get? e = some metadata ∧
      IsSplit .tickData EpochEntry.tickValue metadata.ranges w.source (w'.held e) ∧
      IsSplit .quorumData EpochEntry.quorumValue metadata.ranges w.source (w'.held e) := by
  rw [migrateEpoch_site] at h
  obtain ⟨metadata, target, opened, hmd, -, hsound, hheld⟩ :=
    Migrator.view_migrateEpoch_ok tracks_held h
  rw [hempty] at hheld
  refine ⟨metadata, hmd, ?_, ?_⟩
  · rw [hheld]
    exact isSplit_tickData hsound
  · rw [hheld]
    exact isSplit_quorumData hsound

/-- The epoch of the small rehearsal is split. -/
theorem migrateEpoch_split_sample :
    sample.held 5 = ∅ ∧ ∃ m' w', sampleMigrator.migrateEpoch site 5 sample = (.ok (), m', w') ∧
      ∃ metadata, sampleMigrator.metadata.get? 5 = some metadata ∧
        IsSplit .tickData EpochEntry.tickValue metadata.ranges sample.source (w'.held 5) ∧
        IsSplit .quorumData EpochEntry.quorumValue metadata.ranges sample.source (w'.held 5) := by
  have hempty : sample.held 5 = ∅ := rfl
  have hok : (sampleMigrator.migrateEpoch site 5 sample).1 = .ok () := by decide +kernel
  have hrun := Migrator.migrateEpoch_of_outcome hok
  exact ⟨hempty, _, _, hrun, migrateEpoch_split hempty hrun⟩

end Rehearsal

end EpochSplit
