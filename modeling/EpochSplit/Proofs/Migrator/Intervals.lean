import EpochSplit.Proofs.Key.Order
import EpochSplit.Proofs.Metadata.Assembly
import EpochSplit.Proofs.Migrator.References
/-!
# The processed ranges of an epoch

The record of the processed ranges is read twice: once when the metadata are assembled, where it is
filed under the epoch that it names, and once when its epoch is moved, where it is looked up under
the key of the epoch and written under the epoch that it names.  Nothing compares the two.  So a
move with success leaves one record, that which the archive has under the key of the epoch; it is
the record of the ranges that were moved if the records of the archive are under the epochs that
they name (`NamesEpochs`), but not for every archive.
-/

namespace EpochSplit

open EpochPlan

/-- Contents in which the processed ranges of an epoch, and of no other epoch, are recorded. -/
structure HoldsIntervals (epoch : UInt32) (ranges : List TickRange) (target : Contents) :
    Prop where
  record : ∃ record : Current.ProcessedTickIntervalsPerEpoch,
    target[Key.word .processedTickIntervals epoch]? = some (Wire.encode record) ∧
      record.epoch = epoch ∧
      record.intervals.map (fun i => ⟨i.initialProcessedTick, i.lastProcessedTick⟩) = ranges
  only : ∀ key ∈ target, key.head? = some Namespace.processedTickIntervals.tag →
    key = Key.word .processedTickIntervals epoch

/-- The records of processed ranges in an archive are under the epochs that they name. -/
def NamesEpochs (archive : Contents) : Prop :=
  ∀ old ∈ archive.scan (KeyRange.ofNamespace .processedTickIntervals), ∀ p,
    Wire.decode Legacy.ProcessedTickIntervalsPerEpoch .processedTickIntervals old.2 = .ok p →
      old.1 = Key.word .processedTickIntervals p.epoch

/-! ### What a plan writes -/

section Plan

variable {s : Source} {m : EpochMetadata} {threshold : UInt32}

/-- The record that is written is the one that the archive has under the epoch. -/
lemma Written.exists_intervals {entry : Entry}
    (h : Written s m threshold .processedTickIntervals entry) :
    ∃ p, s.intervals? m.epoch = .ok (some p) ∧ p.intervals ≠ [] ∧
      entry = EpochEntry.processedTickIntervals p := by
  cases h with
  | @processedTickIntervals p found nonempty =>
      refine ⟨p, found, ?_, rfl⟩
      intro hnil
      rw [hnil] at nonempty
      cases nonempty

/-- A plan without a fault writes a record of processed ranges. -/
lemma exists_mem_of_intervals
    (hsound : (epochPlan s m threshold).findSome? EpochStream.fault? = none) :
    ∃ entry ∈ (epochPlan s m threshold).flatMap EpochStream.entries,
      Written s m threshold .processedTickIntervals entry := by
  have hitem : processedTickIntervals s m.epoch ∈ (metadata s m threshold).items := by
    simp [metadata]
  obtain ⟨entry, heq, hmem⟩ := exists_mem_of_item hsound (mem_items_epochPlan.2 (.inl hitem))
  refine ⟨entry, hmem, written_of_head? hmem ?_⟩
  obtain ⟨p, -, rfl⟩ := map_require_eq_ok heq
  rfl

/-- A plan without a fault leaves the record that the archive has under the epoch. -/
lemma holdsIntervals_overlay
    (hsound : (epochPlan s m threshold).findSome? EpochStream.fault? = none) :
    ∃ p, s.intervals? m.epoch = .ok (some p) ∧ p.intervals ≠ [] ∧
      HoldsIntervals p.epoch p.ranges
        (Contents.overlay ∅ ((epochPlan s m threshold).flatMap EpochStream.entries)) := by
  obtain ⟨entry, hentry, hwritten⟩ := exists_mem_of_intervals hsound
  obtain ⟨p, hfound, hnonempty, rfl⟩ := hwritten.exists_intervals
  -- whatever is written for this namespace is made of the same record
  have honly : ∀ other ∈ (epochPlan s m threshold).flatMap EpochStream.entries,
      other.1.head? = some Namespace.processedTickIntervals.tag →
        other = EpochEntry.processedTickIntervals p := by
    intro other hother hhead
    obtain ⟨p', hfound', -, rfl⟩ := (written_of_head? hother hhead).exists_intervals
    rw [hfound] at hfound'
    cases hfound'
    rfl
  refine ⟨p, hfound, hnonempty, ⟨p.toCurrent, ?_, rfl, ?_⟩, ?_⟩
  · refine Contents.getElem?_overlay_of_unique hentry fun other hother hkey => honly other hother ?_
    rw [hkey]
    rfl
  · exact List.map_map
  · intro key hkey hhead
    obtain hkey | hnone := Contents.mem_overlay.1 hkey
    · obtain ⟨other, hother, rfl⟩ := List.mem_map.1 hkey
      rw [honly other hother hhead]
      rfl
    · exact absurd hnone Std.ExtTreeMap.not_mem_empty

end Plan

/-! ### What was moved -/

/-- In an archive whose records are under the epochs that they name, the record under an epoch lists
the ranges that are known of the epoch. -/
lemma eq_of_namesEpochs {s : Source} {archive : Contents} {metadata : StoreMetadata}
    {m : EpochMetadata} {epoch : UInt32} {p : Legacy.ProcessedTickIntervalsPerEpoch}
    (hreads : s.Reads archive) (hnames : NamesEpochs archive) (hloaded : s.metadata = .ok metadata)
    (hm : metadata.get? epoch = some m) (hp : s.intervals? epoch = .ok (some p)) :
    p.epoch = epoch ∧ p.ranges = m.ranges := by
  obtain ⟨stored, hget, hdecode⟩ := Source.exists_of_record? hp
  have hstored : archive[Key.word .processedTickIntervals epoch]? = some stored :=
    (hreads.get hget).symm
  have hscan : (Key.word .processedTickIntervals epoch, stored) ∈
      archive.scan (KeyRange.ofNamespace .processedTickIntervals) :=
    Contents.mem_scan.2 ⟨hstored, KeyRange.contains_word rfl epoch⟩
  have hkey := hnames _ hscan p hdecode
  -- the record that the metadata were made of is under the same key
  obtain ⟨old, q, hold, hdecode', hepoch, -, hranges⟩ := Source.exists_of_get?_metadata hloaded hm
  have hkey' := hnames old (hreads.mem_scan_of_mem_items hold) q hdecode'
  rw [hepoch] at hkey'
  have hstored' := hreads.getElem?_of_mem_items hold
  rw [hkey', hstored] at hstored'
  rw [← Option.some.inj hstored', hdecode] at hdecode'
  obtain rfl : p = q := Except.ok.inj hdecode'
  exact ⟨hepoch, hranges.symm⟩

namespace Rehearsal

variable {s : Source} {m m' : Migrator} {e : UInt32} {w w' : Rehearsal}

/-- A move with success into an empty store leaves one record of processed ranges: that which the
archive has under the key of the epoch, under the epoch that it names itself.  Where the records of
the archive are under the epochs that they name, this is the record of the ranges that were moved,
under their epoch. -/
theorem migrateEpoch_intervals {archive : Contents} (hreads : s.Reads archive)
    (hloaded : s.metadata = .ok m.metadata) (hempty : w.held e = ∅)
    (h : m.migrateEpoch (reading s) e w = (.ok (), m', w')) :
    ∃ metadata, m.metadata.get? e = some metadata ∧
      (∃ p, s.intervals? e = .ok (some p) ∧ p.intervals ≠ [] ∧
        HoldsIntervals p.epoch p.ranges (w'.held e)) ∧
      (NamesEpochs archive → HoldsIntervals e metadata.ranges (w'.held e)) := by
  obtain ⟨metadata, target, opened, hmd, -, hsound, hheld⟩ :=
    Migrator.view_migrateEpoch_ok tracks_held h
  have hepoch : metadata.epoch = e := Source.keyed_metadata hloaded e metadata hmd
  rw [hempty] at hheld
  obtain ⟨p, hfound, hnonempty, hholds⟩ := holdsIntervals_overlay hsound
  rw [hepoch] at hfound
  rw [hheld]
  refine ⟨metadata, hmd, ⟨p, hfound, hnonempty, hholds⟩, ?_⟩
  intro hnames
  obtain ⟨hsame, hranges⟩ := eq_of_namesEpochs hreads hnames hloaded hmd hfound
  rw [hsame, hranges] at hholds
  exact hholds

/-! ### Records under other epochs -/

/-- A record of processed ranges, stored under an epoch and naming an epoch. -/
def intervalsItem (epoch named last : UInt32) : SampleArchive.Item :=
  let record : Legacy.ProcessedTickIntervalsPerEpoch :=
    { epoch := named, intervals := [{ initialProcessedTick := 10, lastProcessedTick := last }] }
  .put (Key.word .processedTickIntervals epoch, Wire.encode record)

/-- An archive in which the records of two epochs name given epochs. -/
def renamed (first second : UInt32) : Contents :=
  SampleArchive.ofItems
    [.epoch { epoch := 5, ranges := [⟨10, 11⟩], transactionsPerTick := 0 },
      intervalsItem 5 first 11, intervalsItem 6 second 10]

/-- A migrator of this archive. -/
def renamedMigrator (first second : UInt32) : Migrator :=
  .fresh (reading (.ofContents (renamed first second))) {} {}

/-- The move of the first epoch. -/
def renamedMove (first second : UInt32) : Except Error Unit × Migrator × Rehearsal :=
  (renamedMigrator first second).migrateEpoch (reading (.ofContents (renamed first second))) 5 {}

lemma namesEpochs_of_all {archive : Contents}
    (h : ((archive.scan (KeyRange.ofNamespace .processedTickIntervals)).all fun old =>
      (Wire.decode Legacy.ProcessedTickIntervalsPerEpoch .processedTickIntervals old.2).toOption.all
        fun p => old.1 = Key.word .processedTickIntervals p.epoch) = true) :
    NamesEpochs archive := by
  intro old hold p hp
  have hname := List.all_eq_true.1 h old hold
  rw [hp] at hname
  exact of_decide_eq_true hname

/-- If both records are under the epochs that they name, the ranges that were moved are recorded. -/
theorem migrateEpoch_intervals_renamed :
    NamesEpochs (renamed 5 6) ∧ (renamedMove 5 6).1 = .ok () ∧
      ∃ metadata, (renamedMigrator 5 6).metadata.get? 5 = some metadata ∧
        metadata.ranges = [⟨10, 11⟩] ∧
        HoldsIntervals 5 metadata.ranges ((renamedMove 5 6).2.2.held 5) := by
  have hready : (renamedMigrator 5 6).state.canMigrate = true := by decide +kernel
  have hloaded : (Source.ofContents (renamed 5 6)).metadata = .ok (renamedMigrator 5 6).metadata :=
    Migrator.metadata_fresh hready
  have hnames : NamesEpochs (renamed 5 6) := namesEpochs_of_all (by decide +kernel)
  have hok : (renamedMove 5 6).1 = .ok () := by decide +kernel
  have hranges : (((renamedMigrator 5 6).metadata.get? 5).map (·.ranges)) = some [⟨10, 11⟩] := by
    decide +kernel
  rw [renamedMove] at hok ⊢
  obtain ⟨metadata, hmd, -, hholds⟩ := migrateEpoch_intervals (Source.reads_ofContents _) hloaded
    (held_default 5) (Migrator.migrateEpoch_of_outcome hok)
  rw [hmd, Option.map_some, Option.some.injEq] at hranges
  exact ⟨hnames, hok, metadata, hmd, hranges, hholds hnames⟩

/-- If each of the records names the other epoch, the move of the first epoch succeeds but leaves no
record of its ranges, and a record of ranges of the second epoch. -/
theorem not_holdsIntervals_renamed :
    (Source.ofContents (renamed 6 5)).metadata = .ok (renamedMigrator 6 5).metadata ∧
      ({} : Rehearsal).held 5 = ∅ ∧ (renamedMove 6 5).1 = .ok () ∧
      Key.word .processedTickIntervals 5 ∉ (renamedMove 6 5).2.2.held 5 ∧
      Key.word .processedTickIntervals 6 ∈ (renamedMove 6 5).2.2.held 5 ∧
      ∃ metadata, (renamedMigrator 6 5).metadata.get? 5 = some metadata ∧
        ¬HoldsIntervals 5 metadata.ranges ((renamedMove 6 5).2.2.held 5) := by
  have hready : (renamedMigrator 6 5).state.canMigrate = true := by decide +kernel
  have hok : (renamedMove 6 5).1 = .ok () := by decide +kernel
  have hheld :
      ((renamedMove 6 5).2.2.held 5).contains (Key.word .processedTickIntervals 5) = false ∧
      ((renamedMove 6 5).2.2.held 5).contains (Key.word .processedTickIntervals 6) = true := by
    decide +kernel
  have hknown : ((renamedMigrator 6 5).metadata.get? 5).isSome = true := by decide +kernel
  obtain ⟨metadata, hmd⟩ := Option.isSome_iff_exists.1 hknown
  have habsent : Key.word .processedTickIntervals 5 ∉ (renamedMove 6 5).2.2.held 5 := by
    intro hmem
    rw [Std.ExtTreeMap.contains_iff_mem.2 hmem] at hheld
    cases hheld.1
  refine ⟨Migrator.metadata_fresh hready, held_default 5, hok, habsent,
    Std.ExtTreeMap.contains_iff_mem.1 hheld.2, metadata, hmd, ?_⟩
  rintro ⟨⟨record, hrecord, -⟩, -⟩
  exact habsent (mem_iff_exists_getElem?.2 ⟨_, hrecord⟩)

end Rehearsal

end EpochSplit
