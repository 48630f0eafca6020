import EpochSplit.Proofs.Epoch.Entry
import EpochSplit.Proofs.Key.Order
import EpochSplit.Proofs.Metadata.Assembly
import EpochSplit.Proofs.Sample.Archive
/-!
# Reading a sample archive

What is found in an archive that samples make up: each record under its key (`computors_source` and
the like), just the ticks of a range in a scan of that range (`mem_scan_archive`), and metadata that
know the samples and nothing else (`metadata_source`).
-/

namespace EpochSplit

/-- A record that is stored under a key is found there. -/
lemma Source.record?_of_stored {archive : Contents} {M : Type} [Wire.Record M] {ns : Namespace}
    {key stored : Bytes} {a : M} (hstored : archive[key]? = some stored)
    (hdecode : Wire.decode M ns stored = .ok a) :
    (ofContents archive).record? M ns key = .ok (some a) := by
  simp only [record?, ofContents, Std.ExtTreeMap.get?_eq_getElem?, hstored, Except.mapError, bind,
    Except.bind, hdecode]
  rfl

lemma find?_of_unique {α : Type} {p : α → Bool} {as : List α} {a : α} (ha : a ∈ as)
    (hp : p a = true) (h : ∀ b ∈ as, p b = true → b = a) : as.find? p = some a := by
  obtain ⟨b, hb⟩ := Option.isSome_iff_exists.1 (List.find?_isSome.2 ⟨a, ha, hp⟩)
  rw [hb, h b (List.mem_of_find?_eq_some hb) (List.find?_some hb)]

namespace SampleArchive

open Wire

/-- A source that reads the archive. -/
def source (samples : List EpochSample) : Source := .ofContents (archive samples)

/-- What is known about the epoch of a sample. -/
def EpochSample.metadata (s : EpochSample) : EpochMetadata where
  epoch := s.epoch
  ranges := s.ranges
  lastTick := s.lastTick.getD 0

variable {samples : List EpochSample} {s : EpochSample} {r : TickRange} {tick : UInt32}
  {slot : Nat} {old : Entry}

lemma ofRecord_intervals {ticks : Std.ExtTreeMap UInt32 UInt32}
    (hlast : ticks[s.epoch]? = s.lastTick) :
    EpochMetadata.ofRecord ticks s.intervals = s.metadata := by
  have hranges : s.intervals.intervals.map
      (fun i => (⟨i.initialProcessedTick, i.lastProcessedTick⟩ : TickRange)) = s.ranges := by
    rw [EpochSample.intervals, List.map_map]
    exact List.map_id' s.ranges
  rw [EpochMetadata.ofRecord, EpochSample.metadata, hranges, EpochSample.intervals, hlast]

section Separate

variable (hseparate : Separate samples)

include hseparate

lemma getElem?_of_sampled {ns : Namespace} {key value : Bytes}
    (h : Sampled samples ns (key, value)) : (archive samples)[key]? = some value :=
  (getElem?_archive hseparate).2 ⟨ns, h⟩

/-! ### Scans -/

/-- A scan of keys of one namespace yields the pairs of that kind. -/
theorem mem_scan_archive (ns : Namespace) {range : KeyRange}
    (hlower : range.lower.head? = some ns.tag) (hupper : range.upper.head? = some ns.tag) :
    old ∈ (archive samples).scan range ↔
      Sampled samples ns old ∧ range.contains old.1 = true := by
  rw [Contents.mem_scan, Std.ExtTreeMap.get?_eq_getElem?, getElem?_archive hseparate]
  refine and_congr_left fun hcontains => ?_
  constructor
  · rintro ⟨ns', h⟩
    have hhead := h.head?
    rw [KeyRange.head?_of_contains hlower hupper hcontains] at hhead
    obtain rfl := Namespace.tag_injective (Option.some.inj hhead)
    exact h
  · intro h
    exact ⟨ns, h⟩

/-- What is read in a namespace of which all pairs can be read. -/
lemma exists_readAll_source {α : Type} (ns : Namespace) (read : Entry → Except CodecFault α)
    (hcontains : ∀ old, Sampled samples ns old →
      (KeyRange.ofNamespace ns).contains old.1 = true)
    (hread : ∀ old, Sampled samples ns old → ∃ a, read old = .ok a) :
    ∃ as, (source samples).readAll ns read = .ok as ∧
      ∀ a, a ∈ as ↔ ∃ old, Sampled samples ns old ∧ read old = .ok a := by
  have hupper : (KeyRange.ofNamespace ns).upper.head? = some ns.tag := by
    rw [KeyRange.ofNamespace, KeyRange.upperBound_eq]
    rfl
  have hscan : ∀ old, old ∈ (archive samples).scan (KeyRange.ofNamespace ns) ↔
      Sampled samples ns old := by
    intro old
    rw [mem_scan_archive hseparate ns rfl hupper]
    exact and_iff_left_of_imp (hcontains old)
  have hreadable : (archive samples).Readable ns read := fun old hold =>
    hread old ((hscan old).1 hold)
  have hfound := Source.readAll_of_readable hreadable
  refine ⟨_, hfound, fun a => ?_⟩
  rw [Source.mem_of_readAll hfound]
  refine exists_congr fun old => and_congr_left fun _ => ?_
  rw [Source.mem_items_ofContents, ← hscan, Contents.mem_scan, Std.ExtTreeMap.get?_eq_getElem?]

/-- A scan of a range of a sample yields the tick data of its ticks. -/
theorem mem_scan_tickData (hs : s ∈ samples) (hr : r ∈ s.ranges) :
    old ∈ (archive samples).scan (KeyRange.ofTicks .tickData r) ↔
      ∃ tick, r.contains tick = true ∧
        old = (Key.word .tickData tick, encode (tickData s.epoch tick s.transactionsPerTick)) := by
  rw [mem_scan_archive hseparate .tickData rfl rfl]
  constructor
  · rintro ⟨h, hcontains⟩
    cases h with
    | @tickData s' tick hs' htick' =>
        have hcontains := KeyRange.contains_ofTicks.1 hcontains
        have htick := EpochSample.mem_ticks.2 ⟨r, hr, hcontains⟩
        rw [hseparate.eq_of_tick hs hs' htick htick']
        exact ⟨tick, hcontains, rfl⟩
  · rintro ⟨tick, hcontains, rfl⟩
    exact ⟨.tickData hs (EpochSample.mem_ticks.2 ⟨r, hr, hcontains⟩),
      KeyRange.contains_ofTicks.2 hcontains⟩

/-- A scan of a range of a sample yields the votes on its ticks. -/
theorem mem_scan_quorumData (hs : s ∈ samples) (hr : r ∈ s.ranges) :
    old ∈ (archive samples).scan (KeyRange.ofTicks .quorumData r) ↔
      ∃ tick, r.contains tick = true ∧
        old = (Key.word .quorumData tick, encode (quorumTickData s.epoch tick)) := by
  rw [mem_scan_archive hseparate .quorumData rfl rfl]
  constructor
  · rintro ⟨h, hcontains⟩
    cases h with
    | @quorumData s' tick hs' htick' =>
        have hcontains := KeyRange.contains_ofTicks.1 hcontains
        have htick := EpochSample.mem_ticks.2 ⟨r, hr, hcontains⟩
        rw [hseparate.eq_of_tick hs hs' htick htick']
        exact ⟨tick, hcontains, rfl⟩
  · rintro ⟨tick, hcontains, rfl⟩
    exact ⟨.quorumData hs (EpochSample.mem_ticks.2 ⟨r, hr, hcontains⟩),
      KeyRange.contains_ofTicks.2 hcontains⟩

/-! ### Records by key -/

lemma computors_source (hs : s ∈ samples) :
    (source samples).computors? s.epoch = .ok (some s.computors) :=
  Source.record?_of_stored (getElem?_of_sampled hseparate (.computors hs))
    (decode_encode _ s.length_computors_lt)

lemma intervals_source (hs : s ∈ samples) :
    (source samples).intervals? s.epoch = .ok (some s.intervals) :=
  Source.record?_of_stored (getElem?_of_sampled hseparate (.intervals hs))
    (decode_encode _ (s.length_intervals_lt (hseparate.length_ranges_le hs)))

lemma voteSignature_source (hs : s ∈ samples) :
    (source samples).voteSignature? s.epoch = .ok (some s.voteSignature) := by
  have hstored := getElem?_of_sampled hseparate (.voteSignature hs)
  simp only [Source.voteSignature?, source, Source.ofContents, Std.ExtTreeMap.get?_eq_getElem?,
    hstored, Except.mapError, bind, Except.bind, decodeWord_encodeWord]
  rfl

lemma transaction_source (hs : s ∈ samples) (htick : tick ∈ s.ticks)
    (hslot : slot < s.transactionsPerTick) :
    (source samples).transaction? (txId s.epoch tick slot) =
      .ok (some (transaction s.epoch tick slot)) := by
  have hsmall := Nat.lt_trans hslot (hseparate.transactions s hs)
  exact Source.record?_of_stored
    (getElem?_of_sampled hseparate (.transaction hs htick hslot))
    (decode_encode _ (length_transaction_lt s.epoch tick hsmall))

lemma status_source (hs : s ∈ samples) (htick : tick ∈ s.ticks)
    (hslot : slot < s.transactionsPerTick) :
    (source samples).status? (txId s.epoch tick slot) =
      .ok (some (transactionStatus s.epoch tick slot)) := by
  have hsmall := Nat.lt_trans hslot (hseparate.transactions s hs)
  exact Source.record?_of_stored
    (getElem?_of_sampled hseparate (.transactionStatus hs htick hslot))
    (decode_encode _ (length_transactionStatus_lt s.epoch tick hsmall))

/-! ### Metadata -/

/-- The records of processed ranges are those of the samples. -/
lemma exists_intervals_source :
    ∃ records, (source samples).intervals = .ok records ∧
      ∀ p, p ∈ records ↔ ∃ s ∈ samples, s.intervals = p := by
  have hdecode : ∀ s ∈ samples, decode Legacy.ProcessedTickIntervalsPerEpoch
      .processedTickIntervals (encode s.intervals) = .ok s.intervals := fun s hs =>
    decode_encode _ (s.length_intervals_lt (hseparate.length_ranges_le hs))
  have hcontains : ∀ old, Sampled samples .processedTickIntervals old →
      (KeyRange.ofNamespace .processedTickIntervals).contains old.1 = true := by
    intro old hold
    cases hold with
    | intervals hs => exact KeyRange.contains_word rfl _
  obtain ⟨records, hrecords, hmem⟩ := exists_readAll_source hseparate .processedTickIntervals
    (fun e => decode Legacy.ProcessedTickIntervalsPerEpoch .processedTickIntervals e.2) hcontains
    fun old hold => by
      cases hold with
      | @intervals s hs => exact ⟨s.intervals, hdecode s hs⟩
  refine ⟨records, hrecords, fun p => ?_⟩
  rw [hmem]
  constructor
  · rintro ⟨old, hold, hp⟩
    cases hold with
    | @intervals s hs => exact ⟨s, hs, Except.ok.inj ((hdecode s hs).symm.trans hp)⟩
  · rintro ⟨s, hs, rfl⟩
    exact ⟨_, .intervals hs, hdecode s hs⟩

/-- The last processed ticks are those of the samples. -/
lemma exists_lastTicks_source :
    ∃ ticks, (source samples).lastTicks = .ok ticks ∧
      ∀ s ∈ samples, ticks[s.epoch]? = s.lastTick := by
  have hcontains : ∀ old, Sampled samples .lastProcessedTickPerEpoch old →
      (KeyRange.ofNamespace .lastProcessedTickPerEpoch).contains old.1 = true := by
    intro old hold
    cases hold with
    | lastTick hs hlast => exact KeyRange.contains_word rfl _
  have hread : ∀ (s : EpochSample) (tick : UInt32), readLastTick
      (Key.word .lastProcessedTickPerEpoch s.epoch, encodeWord tick) = .ok (s.epoch, tick) := by
    intro s tick
    have hepoch : Key.decodeEpoch .lastProcessedTickPerEpoch
        (Key.word .lastProcessedTickPerEpoch s.epoch) = .ok s.epoch := Key.decodeEpoch_word rfl _
    simp only [readLastTick, hepoch, decodeWord_encodeWord, bind, Except.bind]
    rfl
  obtain ⟨pairs, hpairs, hmem⟩ := exists_readAll_source hseparate .lastProcessedTickPerEpoch
    readLastTick hcontains fun old hold => by
      cases hold with
      | @lastTick s tick hs hlast => exact ⟨(s.epoch, tick), hread s tick⟩
  have hpair : ∀ s ∈ samples, ∀ tick, (s.epoch, tick) ∈ pairs ↔ s.lastTick = some tick := by
    intro s hs tick
    rw [hmem]
    constructor
    · rintro ⟨old, hold, hp⟩
      cases hold with
      | @lastTick s' tick' hs' hlast =>
          rw [hread] at hp
          obtain ⟨hepoch, htick⟩ := Prod.mk.inj (Except.ok.inj hp)
          rw [← hseparate.eq_of_epoch hs' hs hepoch, hlast, htick]
    · intro hlast
      exact ⟨_, .lastTick hs hlast, hread s tick⟩
  refine ⟨_, Source.lastTicks_eq_ok hpairs, fun s hs => Option.ext fun tick => ?_⟩
  rw [getElem?_ticksByEpoch, hpair s hs]
  intro tick tick' h h'
  rw [hpair s hs] at h h'
  exact Option.some.inj (h.symm.trans h')

/-- The metadata of the archive know the samples and nothing else. -/
theorem metadata_source :
    ∃ metadata, (source samples).metadata = .ok metadata ∧
      (∀ s ∈ samples, metadata.get? s.epoch = some s.metadata) ∧
      ∀ epoch, epoch ∈ metadata.epochNumbers ↔ ∃ s ∈ samples, s.epoch = epoch := by
  obtain ⟨ticks, hticks, hlast⟩ := exists_lastTicks_source hseparate
  obtain ⟨records, hrecords, hmem⟩ := exists_intervals_source hseparate
  have hmetadata : (source samples).metadata = .ok (.ofList
      ((records.filter (!·.intervals.isEmpty)).map (EpochMetadata.ofRecord ticks))) := by
    rw [Source.metadata, hticks, hrecords]
    rfl
  have hentry : ∀ m, m ∈ (records.filter (!·.intervals.isEmpty)).map
      (EpochMetadata.ofRecord ticks) ↔ ∃ s ∈ samples, s.metadata = m := by
    intro m
    rw [List.mem_map]
    constructor
    · rintro ⟨p, hp, rfl⟩
      obtain ⟨s, hs, rfl⟩ := (hmem p).1 (List.mem_filter.1 hp).1
      exact ⟨s, hs, (ofRecord_intervals (hlast s hs)).symm⟩
    · rintro ⟨s, hs, rfl⟩
      have hnonempty : (!s.intervals.intervals.isEmpty) = true := by
        simpa [EpochSample.intervals] using hseparate.nonempty s hs
      exact ⟨s.intervals, List.mem_filter.2 ⟨(hmem _).2 ⟨s, hs, rfl⟩, hnonempty⟩,
        ofRecord_intervals (hlast s hs)⟩
  have hget : ∀ s ∈ samples, (StoreMetadata.ofList ((records.filter (!·.intervals.isEmpty)).map
      (EpochMetadata.ofRecord ticks))).get? s.epoch = some s.metadata := by
    intro s hs
    rw [StoreMetadata.get?_ofList]
    refine find?_of_unique (List.mem_reverse.2 ((hentry _).2 ⟨s, hs, rfl⟩)) (decide_eq_true rfl) ?_
    intro m hm hepoch
    obtain ⟨s', hs', rfl⟩ := (hentry m).1 (List.mem_reverse.1 hm)
    rw [hseparate.eq_of_epoch hs' hs (of_decide_eq_true hepoch)]
  refine ⟨_, hmetadata, hget, fun epoch => ?_⟩
  rw [StoreMetadata.epochNumbers, Std.ExtTreeMap.mem_keys, mem_iff_exists_getElem?]
  constructor
  · rintro ⟨m, hm⟩
    obtain ⟨hm, hepoch⟩ := StoreMetadata.mem_of_get?_ofList hm
    obtain ⟨s, hs, rfl⟩ := (hentry m).1 hm
    exact ⟨s, hs, hepoch⟩
  · rintro ⟨s, hs, rfl⟩
    exact ⟨_, hget s hs⟩

end Separate

end SampleArchive

end EpochSplit
