import EpochSplit.Proofs.Epoch.References
import EpochSplit.Proofs.Migrator.BatchSize
import EpochSplit.Proofs.Migrator.Film
/-!
# References at each commit

Whatever becomes of a move into an empty store, after each commit the store holds all that the
records in it refer to: the statuses of a tick come with the single statuses and with tick data that
name the tick, and the votes on the last ticks of an epoch come when all keys of the epoch have
come.
-/

namespace EpochSplit

/-! ### Reading an archive -/

/-- What a source answers, if it answers at all, is what an archive holds. -/
structure Source.Reads (s : Source) (archive : Contents) : Prop where
  get : ∀ {key found}, s.get key = .ok found → found = archive[key]?
  scan : ∀ {r pairs}, s.scan r = .ok pairs → pairs = archive.scan r

namespace Source

lemma reads_ofContents (archive : Contents) : (ofContents archive).Reads archive where
  get h := (Except.ok.inj h).symm
  scan h := (Except.ok.inj h).symm

lemma Reads.mem_scan_of_mem_items {s : Source} {archive : Contents} (h : s.Reads archive)
    {r : KeyRange} {old : Entry} (hscanned : .ok old ∈ s.items r) : old ∈ archive.scan r := by
  unfold items at hscanned
  rcases hscan : s.scan r with fault | pairs
  · rw [hscan] at hscanned
    cases List.mem_singleton.1 hscanned
  · rw [hscan, h.scan hscan] at hscanned
    obtain ⟨old', hold, heq⟩ := List.mem_map.1 hscanned
    cases heq
    exact hold

lemma Reads.getElem?_of_mem_items {s : Source} {archive : Contents} (h : s.Reads archive)
    {r : KeyRange} {old : Entry} (hscanned : .ok old ∈ s.items r) :
    archive[old.1]? = some old.2 :=
  (Contents.mem_scan.1 (h.mem_scan_of_mem_items hscanned)).1

end Source

/-- Tick data that are written under one key are the same, as they are made of the same pair. -/
lemma Written.eq_of_tickData {s : Source} {archive : Contents} (hreads : s.Reads archive)
    {m : EpochMetadata} {threshold : UInt32} {entry entry' : Entry}
    (h : Written s m threshold .tickData entry) (h' : Written s m threshold .tickData entry')
    (hkey : entry.1 = entry'.1) : entry = entry' := by
  cases h with
  | @tickData _ old _ record _ scanned moved =>
      cases h' with
      | @tickData _ old' _ record' _ scanned' moved' =>
          obtain ⟨tick, t, -, hrecord, rfl, rfl⟩ := EpochEntry.exists_of_tickData moved
          obtain ⟨tick', t', -, hrecord', rfl, rfl⟩ := EpochEntry.exists_of_tickData moved'
          have hkey' : old.1 = old'.1 := hkey
          have hstored := hreads.getElem?_of_mem_items scanned
          rw [hkey', hreads.getElem?_of_mem_items scanned'] at hstored
          rw [← Option.some.inj hstored, hrecord'] at hrecord
          rw [hkey', Except.ok.inj hrecord]

/-! ### A store that is being filled -/

/-- Contents in which the statuses of ticks refer to what is there. -/
structure KeepsReferences (held : Contents) : Prop where
  /-- Each status in the statuses of a tick is there by itself. -/
  statuses : ∀ key value : Bytes, key.head? = some Namespace.tickTransactionsStatus.tag →
    held[key]? = some value → ∃ record : Current.TickTransactionsStatus,
      value = Wire.encode record ∧
        ∀ status ∈ record.transactions, Key.text .transactionStatus status.txId ∈ held
  /-- For the statuses of a tick there are tick data that name the tick. -/
  tickData : ∀ key ∈ held, key.head? = some Namespace.tickTransactionsStatus.tag →
    ∃ tick n, ∃ data : Current.TickData, key = Key.word .tickTransactionsStatus tick ∧
      held[Key.word .tickData n]? = some (Wire.encode data) ∧ data.tickNumber = tick

section Plan

variable {s : Source} {archive : Contents} {m : EpochMetadata} {threshold : UInt32}
  {first : List Entry}
  (hfirst : first <+: leading ((epochPlan s m threshold).flatMap EpochStream.items))

include hfirst

/-- What refers to something else is backed by the beginning of the plan that it is in. -/
lemma backed_of_getElem? {key value : Bytes}
    (hkey : key.head? = some Namespace.tickTransactionsStatus.tag)
    (hvalue : (Contents.overlay ∅ first)[key]? = some value) :
    ∃ entry, EpochPlan.Backed s m first entry ∧ entry = (key, value) := by
  obtain ⟨before, hbefore, hyields⟩ :=
    exists_yields_of_mem hfirst (Contents.mem_of_getElem?_overlay_empty hvalue)
  exact ⟨_, (EpochPlan.backed_of_yields hyields hkey).mono fun _ h =>
    hbefore.subset (List.mem_append_left _ h), rfl⟩

/-- Tick data in a beginning of a plan are found under their key. -/
lemma getElem?_of_tickData (hreads : s.Reads archive) {entry : Entry} (hentry : entry ∈ first)
    (hkey : entry.1.head? = some Namespace.tickData.tag) :
    (Contents.overlay ∅ first)[entry.1]? = some entry.2 := by
  have htickData : ∀ other ∈ first, other.1.head? = some Namespace.tickData.tag →
      Written s m threshold .tickData other := fun other hother hhead => by
    obtain ⟨ns, hwritten⟩ := EpochPlan.written_of_item (mem_leading (hfirst.subset hother))
    obtain rfl := hwritten.eq_of_head? hhead
    exact hwritten
  refine Contents.getElem?_overlay_of_unique hentry fun other hother hsame => ?_
  exact (htickData other hother (hsame ▸ hkey)).eq_of_tickData hreads (htickData entry hentry hkey)
    hsame

/-- A beginning of a plan keeps references. -/
lemma keepsReferences_overlay (hreads : s.Reads archive) :
    KeepsReferences (Contents.overlay ∅ first) where
  statuses key value hkey hvalue := by
    obtain ⟨entry, hbacked, hpair⟩ := backed_of_getElem? hfirst hkey hvalue
    cases hbacked with
    | @intro r tick found _ _ _ _ _ _ _ _ statuses =>
        refine ⟨⟨found.map Legacy.TransactionStatus.toCurrent⟩, (congrArg Prod.snd hpair).symm,
          fun status hstatus => ?_⟩
        obtain ⟨single, hsingle, rfl⟩ := List.mem_map.1 hstatus
        exact Contents.mem_overlay.2 (.inl (List.mem_map_of_mem (statuses single hsingle)))
  tickData key hmem hkey := by
    obtain ⟨value, hvalue⟩ := mem_iff_exists_getElem?.1 hmem
    obtain ⟨entry, hbacked, hpair⟩ := backed_of_getElem? hfirst hkey hvalue
    cases hbacked with
    | @intro r tick found old moved record _ _ moves names data _ =>
        obtain ⟨n, t, hn, -, -, rfl⟩ := EpochEntry.exists_of_tickData moves
        have hfound := getElem?_of_tickData hfirst hreads data (by rw [hn]; rfl)
        refine ⟨tick, n, record, (congrArg Prod.fst hpair).symm, ?_, names⟩
        rw [← hn]
        exact hfound

end Plan

namespace Rehearsal

variable {m : Migrator} {s : Source} {e : UInt32} {w frame : Rehearsal}

/-- What an empty store holds in a frame is what a beginning of the plan writes. -/
lemma exists_of_frame (hempty : w.held e = ∅)
    (hframe : frame ∈ (m.migrateEpoch (reading s).filmed e { world := w }).2.2.frames) :
    ∃ metadata first, m.metadata.get? e = some metadata ∧
      first <+: leading ((epochPlan s metadata m.settings.signatureEpochThreshold).flatMap
        EpochStream.items) ∧ frame.held e = Contents.overlay ∅ first := by
  obtain ⟨metadata, target, opened, done, hmd, hopen, hdone, hperform⟩ :=
    Migrator.frames_migrateEpoch hframe
  refine ⟨metadata, done.flatMap Step.entries, hmd,
    EpochStream.entries_prefix_leading hdone (Channel.fault?_of_perform_ok hperform), ?_⟩
  have hheld := Channel.view_perform_ok (tracks_held.target hopen) hperform
  rwa [tracks_held.openEpoch hopen, hempty] at hheld

/-- Whatever becomes of a move into an empty store, after each commit the store keeps references,
and if it holds the votes on the last ticks, it holds all keys that a complete move leaves. -/
theorem migrateEpoch_references {archive : Contents} (hreads : s.Reads archive)
    (hempty : w.held e = ∅)
    (hframe : frame ∈ (m.migrateEpoch (reading s).filmed e { world := w }).2.2.frames) :
    KeepsReferences (frame.held e) ∧
      (Key.word .lastTickQuorumDataPerEpochInterval e ∈ frame.held e →
        ∀ b m' w₁ w₁', w₁.held e = ∅ →
          (m.withBatchSize b).migrateEpoch (reading s) e w₁ = (.ok (), m', w₁') →
            ∀ key ∈ w₁'.held e, key ∈ frame.held e) := by
  obtain ⟨metadata, first, hmd, hfirst, hheld⟩ := exists_of_frame hempty hframe
  rw [hheld]
  refine ⟨keepsReferences_overlay hfirst hreads, fun hlast b m' w₁ w₁' hempty₁ hrun key hkey => ?_⟩
  obtain ⟨value, hvalue⟩ := mem_iff_exists_getElem?.1 hlast
  obtain ⟨before, hbefore, hyields⟩ :=
    exists_yields_of_mem hfirst (Contents.mem_of_getElem?_overlay_empty hvalue)
  -- the complete move has the same plan, of which all was written
  obtain ⟨metadata₁, target, opened, hmd₁, -, hsound, hheld₁⟩ :=
    Migrator.view_migrateEpoch_ok tracks_held hrun
  obtain rfl : metadata = metadata₁ := Option.some.inj (hmd.symm.trans hmd₁)
  rw [hheld₁, hempty₁] at hkey
  obtain hkey | hnone := Contents.mem_overlay.1 hkey
  · obtain ⟨other, hother, rfl⟩ := List.mem_map.1 hkey
    rw [Migrator.epochEntries, ← EpochStream.leading_flatMap_items hsound] at hother
    have hmem := EpochPlan.mem_keys_of_yields hyields rfl hother
    exact Contents.mem_overlay.2 (.inl ((hbefore.map Prod.fst).subset hmem))
  · exact absurd hnone Std.ExtTreeMap.not_mem_empty

/-- A migrator of an epoch of three ticks. -/
def threeTicksMigrator : Migrator := .fresh site { batchSize := 1 } (threeTicks 10 "c")

/-- The archive of this epoch. -/
def threeTicksSource : Source := .ofContents (threeTicks 10 "c").source

/-- A world in which the run is cancelled after a number of commits, if it is. -/
def threeTicksWorld (cancelAfter : Option Nat) : Rehearsal := { threeTicks 10 "c" with cancelAfter }

/-- The film of moving the epoch in this world, in batches of one pair. -/
def threeTicksFilm (cancelAfter : Option Nat) : Except Error Unit × Migrator × Film Rehearsal :=
  threeTicksMigrator.migrateEpoch (reading threeTicksSource).filmed 5
    { world := threeTicksWorld cancelAfter }

/-- A run that is cancelled between the statuses of two ticks leaves the statuses of the first with
all that they refer to.  A run that comes to the votes on the last ticks leaves all that a move in
batches of seven pairs leaves. -/
theorem migrateEpoch_references_threeTicks :
    (∀ cancelAfter, (threeTicksWorld cancelAfter).held 5 = ∅) ∧
      ((threeTicksFilm (some 12)).1 ≠ .ok () ∧
        ∃ frame ∈ (threeTicksFilm (some 12)).2.2.frames,
          Key.word .tickTransactionsStatus 10 ∈ frame.held 5 ∧
          Key.word .tickTransactionsStatus 11 ∉ frame.held 5 ∧ KeepsReferences (frame.held 5)) ∧
      ∃ frame ∈ (threeTicksFilm none).2.2.frames,
        Key.word .lastTickQuorumDataPerEpochInterval 5 ∈ frame.held 5 ∧
        ∃ m' w', (threeTicksMigrator.withBatchSize 7).migrateEpoch (reading threeTicksSource) 5
            (threeTicksWorld none) = (.ok (), m', w') ∧
          ∀ key ∈ w'.held 5, key ∈ frame.held 5 := by
  have hreads : threeTicksSource.Reads (threeTicks 10 "c").source := Source.reads_ofContents _
  have hempty : ∀ cancelAfter, (threeTicksWorld cancelAfter).held 5 = ∅ := fun _ => rfl
  refine ⟨hempty, ⟨by decide +kernel, ?_⟩, ?_⟩
  · have hshown : ((threeTicksFilm (some 12)).2.2.frames.any fun frame =>
        (frame.held 5).contains (Key.word .tickTransactionsStatus 10) &&
          !(frame.held 5).contains (Key.word .tickTransactionsStatus 11)) = true := by
      decide +kernel
    obtain ⟨frame, hframe, hboth⟩ := List.any_eq_true.1 hshown
    rw [Bool.and_eq_true, Bool.not_eq_true'] at hboth
    refine ⟨frame, hframe, Std.ExtTreeMap.contains_iff_mem.1 hboth.1, fun hmem => ?_, ?_⟩
    · rw [Std.ExtTreeMap.contains_iff_mem.2 hmem] at hboth
      cases hboth.2
    · rw [threeTicksFilm] at hframe
      obtain ⟨hkeeps, -⟩ := migrateEpoch_references hreads (hempty (some 12)) hframe
      exact hkeeps
  · have hshown : ((threeTicksFilm none).2.2.frames.any fun frame =>
        (frame.held 5).contains (Key.word .lastTickQuorumDataPerEpochInterval 5)) = true := by
      decide +kernel
    have hok : ((threeTicksMigrator.withBatchSize 7).migrateEpoch (reading threeTicksSource) 5
        (threeTicksWorld none)).1 = .ok () := by decide +kernel
    obtain ⟨frame, hframe, hcontains⟩ := List.any_eq_true.1 hshown
    have hlast := Std.ExtTreeMap.contains_iff_mem.1 hcontains
    have hrun := Migrator.migrateEpoch_of_outcome hok
    refine ⟨frame, hframe, hlast, _, _, hrun, ?_⟩
    rw [threeTicksFilm] at hframe
    obtain ⟨-, hall⟩ := migrateEpoch_references hreads (hempty none) hframe
    exact hall hlast 7 _ _ _ (hempty none) hrun

end Rehearsal

end EpochSplit
