import EpochSplit.Proofs.Key.Codec
import EpochSplit.Proofs.Sample.Records
import EpochSplit.Proofs.Store.Overlay
import Mathlib.Data.List.Nodup
import Mathlib.Data.List.Pairwise
import Mathlib.Data.List.Perm.Subperm
/-!
# What a sample archive holds

The pairs that samples put into an archive, by kind (`Sampled`).  If the samples are kept apart, by
epochs and by ticks, then no two of their pairs are under one key, so that nothing is overwritten:
the archive holds just these pairs (`getElem?_archive`).
-/

namespace EpochSplit

namespace TickRange

/-- One of two ranges ends before the other starts. -/
def Apart (r r' : TickRange) : Prop := r.stop < r'.start ∨ r'.stop < r.start

instance (r r' : TickRange) : Decidable (r.Apart r') := inferInstanceAs (Decidable (_ ∨ _))

instance : Std.Symm Apart := ⟨fun _ _ => Or.symm⟩

/-- Ranges that are apart have no tick in common. -/
lemma Apart.not_contains {r r' : TickRange} {tick : UInt32} (h : r.Apart r')
    (htick : r.contains tick = true) : ¬r'.contains tick = true := by
  rw [contains_iff, UInt32.le_iff_toNat_le, UInt32.le_iff_toNat_le] at htick ⊢
  rw [Apart, UInt32.lt_iff_toNat_lt, UInt32.lt_iff_toNat_lt] at h
  omega

/-- The numbers of the ticks of a range. -/
lemma toNat_of_listed {r : TickRange} {n : Nat} (h : n ∈ List.range' r.start.toNat r.size) :
    (UInt32.ofNat n).toNat = n := by
  have hstop : r.stop.toNat < 2 ^ 32 := r.stop.toNat_lt
  rw [List.mem_range'_1, size] at h
  exact UInt32.toNat_ofNat_of_lt' (by rw [UInt32.size]; omega)

/-- The ticks of a range are those that it contains. -/
lemma mem_listed (r : TickRange) {tick : UInt32} :
    tick ∈ (List.range' r.start.toNat r.size).map UInt32.ofNat ↔ r.contains tick = true := by
  rw [List.mem_map, contains_iff, UInt32.le_iff_toNat_le, UInt32.le_iff_toNat_le]
  constructor
  · rintro ⟨n, hn, rfl⟩
    rw [toNat_of_listed hn]
    rw [List.mem_range'_1, size] at hn
    omega
  · intro h
    refine ⟨tick.toNat, List.mem_range'_1.2 ?_, UInt32.ofNat_toNat⟩
    rw [size]
    omega

lemma nodup_listed (r : TickRange) :
    ((List.range' r.start.toNat r.size).map UInt32.ofNat).Nodup := by
  refine List.Nodup.map_on (fun n hn n' hn' heq => ?_) (List.nodup_range' 1)
  rw [← toNat_of_listed hn, heq, toNat_of_listed hn']

end TickRange

namespace SampleArchive

/-- Samples that do not get in each other's way: no two are of one epoch, and no two of their ranges
have a tick in common.  Each sample has a range, and each range a tick. -/
structure Separate (samples : List EpochSample) : Prop where
  epochs : (samples.map (·.epoch)).Nodup
  nonempty : ∀ s ∈ samples, s.ranges ≠ []
  ordered : ∀ s ∈ samples, ∀ r ∈ s.ranges, r.start ≤ r.stop
  apart : (samples.flatMap (·.ranges)).Pairwise TickRange.Apart
  transactions : ∀ s ∈ samples, s.transactionsPerTick < 2 ^ 32

lemma EpochSample.mem_ticks {s : EpochSample} {tick : UInt32} :
    tick ∈ s.ticks ↔ ∃ r ∈ s.ranges, r.contains tick = true := by
  rw [ticks, List.mem_flatMap]
  exact exists_congr fun r => and_congr_right fun _ => r.mem_listed

namespace Separate

variable {samples : List EpochSample} {s s' : EpochSample} {r r' : TickRange} {tick : UInt32}

lemma eq_of_epoch (h : Separate samples) (hs : s ∈ samples) (hs' : s' ∈ samples)
    (hepoch : s.epoch = s'.epoch) : s = s' :=
  List.inj_on_of_nodup_map h.epochs hs hs' hepoch

/-- A tick belongs to one sample. -/
lemma eq_of_tick (h : Separate samples) (hs : s ∈ samples) (hs' : s' ∈ samples)
    (htick : tick ∈ s.ticks) (htick' : tick ∈ s'.ticks) : s = s' := by
  obtain ⟨r, hr, hcontains⟩ := EpochSample.mem_ticks.1 htick
  obtain ⟨r', hr', hcontains'⟩ := EpochSample.mem_ticks.1 htick'
  by_contra hne
  obtain ⟨-, hapart⟩ := List.pairwise_flatMap.1 h.apart
  have hsymm : Std.Symm fun s s' : EpochSample =>
      ∀ r ∈ s.ranges, ∀ r' ∈ s'.ranges, r.Apart r' :=
    ⟨fun s s' hss' r' hr' r hr => (hss' r hr r' hr').symm⟩
  exact (hapart.forall hs hs' hne r hr r' hr').not_contains hcontains hcontains'

lemma pairwise_ranges (h : Separate samples) (hs : s ∈ samples) :
    s.ranges.Pairwise TickRange.Apart :=
  (List.pairwise_flatMap.1 h.apart).1 s hs

/-- The ticks of a sample are all different. -/
lemma nodup_ticks (h : Separate samples) (hs : s ∈ samples) : s.ticks.Nodup := by
  rw [EpochSample.ticks, List.nodup_flatMap]
  refine ⟨fun r _ => r.nodup_listed, (h.pairwise_ranges hs).imp fun {r r'} hapart tick htick => ?_⟩
  intro htick'
  exact hapart.not_contains (r.mem_listed.1 htick) (r'.mem_listed.1 htick')

/-- There are no more ranges than ticks. -/
lemma length_ranges_le (h : Separate samples) (hs : s ∈ samples) :
    s.ranges.length ≤ 2 ^ 32 := by
  have hnodup : (s.ranges.map (·.start.toNat)).Nodup := by
    rw [List.Nodup, List.pairwise_map]
    refine (h.pairwise_ranges hs).imp_of_mem fun {r r'} hr hr' hapart hstart => ?_
    have hcontains : r.contains r.start = true :=
      TickRange.contains_iff.2 ⟨UInt32.le_refl _, h.ordered s hs r hr⟩
    have hcontains' : r'.contains r.start = true := by
      rw [UInt32.toNat_inj.1 hstart]
      exact TickRange.contains_iff.2 ⟨UInt32.le_refl _, h.ordered s hs r' hr'⟩
    exact hapart.not_contains hcontains hcontains'
  have hsubset : s.ranges.map (·.start.toNat) ⊆ List.range (2 ^ 32) := by
    intro n hn
    obtain ⟨r, -, rfl⟩ := List.mem_map.1 hn
    exact List.mem_range.2 r.start.toNat_lt
  have hlength := (hnodup.subperm hsubset).length_le
  rwa [List.length_map, List.length_range] at hlength

end Separate

/-! ### Pairs by kind -/

/-- The archive that samples make up. -/
def archive (samples : List EpochSample) : Contents := ofItems (samples.map .epoch)

lemma archive_eq_overlay (samples : List EpochSample) :
    archive samples = Contents.overlay ∅ (samples.flatMap (·.entries)) := by
  induction samples using List.reverseRecOn with
  | nil => rfl
  | append_singleton samples s ih =>
      rw [List.flatMap_append, Contents.overlay_append, ← ih, List.flatMap_singleton, archive,
        ofItems, List.map_append, List.foldl_append]
      rfl

/-- The pairs that samples put into an archive, by kind. -/
inductive Sampled (samples : List EpochSample) : Namespace → Entry → Prop where
  | computors {s : EpochSample} (sample : s ∈ samples) :
      Sampled samples .computorList (Key.word .computorList s.epoch, Wire.encode s.computors)
  | intervals {s : EpochSample} (sample : s ∈ samples) :
      Sampled samples .processedTickIntervals
        (Key.word .processedTickIntervals s.epoch, Wire.encode s.intervals)
  | lastTick {s : EpochSample} {tick : UInt32} (sample : s ∈ samples)
      (last : s.lastTick = some tick) :
      Sampled samples .lastProcessedTickPerEpoch
        (Key.word .lastProcessedTickPerEpoch s.epoch, Wire.encodeWord tick)
  | voteSignature {s : EpochSample} (sample : s ∈ samples) :
      Sampled samples .targetTickVoteSignature
        (Key.word .targetTickVoteSignature s.epoch, Wire.encodeWord s.voteSignature)
  | tickData {s : EpochSample} {tick : UInt32} (sample : s ∈ samples)
      (processed : tick ∈ s.ticks) :
      Sampled samples .tickData
        (Key.word .tickData tick, Wire.encode (tickData s.epoch tick s.transactionsPerTick))
  | quorumData {s : EpochSample} {tick : UInt32} (sample : s ∈ samples)
      (processed : tick ∈ s.ticks) :
      Sampled samples .quorumData
        (Key.word .quorumData tick, Wire.encode (quorumTickData s.epoch tick))
  | transaction {s : EpochSample} {tick : UInt32} {slot : Nat} (sample : s ∈ samples)
      (processed : tick ∈ s.ticks) (slots : slot < s.transactionsPerTick) :
      Sampled samples .transaction
        (Key.text .transaction (txId s.epoch tick slot),
          Wire.encode (transaction s.epoch tick slot))
  | transactionStatus {s : EpochSample} {tick : UInt32} {slot : Nat} (sample : s ∈ samples)
      (processed : tick ∈ s.ticks) (slots : slot < s.transactionsPerTick) :
      Sampled samples .transactionStatus
        (Key.text .transactionStatus (txId s.epoch tick slot),
          Wire.encode (transactionStatus s.epoch tick slot))

variable {samples : List EpochSample} {ns ns' : Namespace} {e e' : Entry}

lemma Sampled.head? (h : Sampled samples ns e) : e.1.head? = some ns.tag := by
  cases h <;> rfl

/-- No two pairs are under one key. -/
theorem Sampled.eq_of_key (hseparate : Separate samples) (h : Sampled samples ns e)
    (h' : Sampled samples ns' e') (hkey : e.1 = e'.1) : e = e' := by
  have hns := h.head?
  rw [hkey, h'.head?] at hns
  obtain rfl := Namespace.tag_injective (Option.some.inj hns)
  cases h with
  | computors hs =>
      cases h' with
      | computors hs' => rw [hseparate.eq_of_epoch hs hs' (Key.word_inj rfl hkey)]
  | intervals hs =>
      cases h' with
      | intervals hs' => rw [hseparate.eq_of_epoch hs hs' (Key.word_inj rfl hkey)]
  | lastTick hs hlast =>
      cases h' with
      | lastTick hs' hlast' =>
          obtain rfl := hseparate.eq_of_epoch hs hs' (Key.word_inj rfl hkey)
          rw [Option.some.inj (hlast.symm.trans hlast')]
  | voteSignature hs =>
      cases h' with
      | voteSignature hs' => rw [hseparate.eq_of_epoch hs hs' (Key.word_inj rfl hkey)]
  | tickData hs htick =>
      cases h' with
      | tickData hs' htick' =>
          obtain rfl := Key.word_inj rfl hkey
          rw [hseparate.eq_of_tick hs hs' htick htick']
  | quorumData hs htick =>
      cases h' with
      | quorumData hs' htick' =>
          obtain rfl := Key.word_inj rfl hkey
          rw [hseparate.eq_of_tick hs hs' htick htick']
  | transaction hs _ _ =>
      cases h' with
      | transaction hs' _ _ =>
          obtain ⟨hepoch, rfl, rfl⟩ := txId_inj (Key.text_inj rfl rfl hkey)
          rw [hseparate.eq_of_epoch hs hs' hepoch]
  | transactionStatus hs _ _ =>
      cases h' with
      | transactionStatus hs' _ _ =>
          obtain ⟨hepoch, rfl, rfl⟩ := txId_inj (Key.text_inj rfl rfl hkey)
          rw [hseparate.eq_of_epoch hs hs' hepoch]

lemma sampled_of_tickEntries {s : EpochSample} {tick : UInt32} (hs : s ∈ samples)
    (htick : tick ∈ s.ticks) (h : e ∈ s.tickEntries tick) : ∃ ns, Sampled samples ns e := by
  simp only [EpochSample.tickEntries, List.mem_append, List.mem_flatMap, List.mem_range,
    List.mem_cons, List.not_mem_nil, or_false] at h
  obtain ⟨slot, hslot, rfl | rfl⟩ | rfl | rfl := h
  · exact ⟨_, .transaction hs htick hslot⟩
  · exact ⟨_, .transactionStatus hs htick hslot⟩
  · exact ⟨_, .tickData hs htick⟩
  · exact ⟨_, .quorumData hs htick⟩

lemma sampled_of_entries {s : EpochSample} (hs : s ∈ samples) (h : e ∈ s.entries) :
    ∃ ns, Sampled samples ns e := by
  simp only [EpochSample.entries, List.mem_append, List.mem_flatMap, List.mem_map,
    Option.mem_toList, List.mem_cons, List.not_mem_nil, or_false] at h
  obtain (((rfl | rfl) | ⟨tick, htick, rfl⟩) | rfl) | ⟨tick, htick, h⟩ := h
  · exact ⟨_, .computors hs⟩
  · exact ⟨_, .intervals hs⟩
  · exact ⟨_, .lastTick hs htick⟩
  · exact ⟨_, .voteSignature hs⟩
  · exact sampled_of_tickEntries hs htick h

lemma Sampled.exists_sample (h : Sampled samples ns e) : ∃ s ∈ samples, e ∈ s.entries := by
  have htick : ∀ {s : EpochSample} {tick : UInt32}, tick ∈ s.ticks → e ∈ s.tickEntries tick →
      e ∈ s.entries := fun htick he =>
    List.mem_append_right _ (List.mem_flatMap.2 ⟨_, htick, he⟩)
  cases h with
  | computors hs => exact ⟨_, hs, by simp [EpochSample.entries, EpochSample.computors]⟩
  | intervals hs => exact ⟨_, hs, by simp [EpochSample.entries, EpochSample.intervals]⟩
  | lastTick hs hlast => exact ⟨_, hs, by simp [EpochSample.entries, hlast]⟩
  | voteSignature hs => exact ⟨_, hs, by simp [EpochSample.entries, EpochSample.voteSignature]⟩
  | tickData hs hprocessed =>
      exact ⟨_, hs, htick hprocessed (List.mem_append_right _ List.mem_cons_self)⟩
  | quorumData hs hprocessed =>
      exact ⟨_, hs, htick hprocessed
        (List.mem_append_right _ (List.mem_cons_of_mem _ List.mem_cons_self))⟩
  | transaction hs hprocessed hslot =>
      exact ⟨_, hs, htick hprocessed (List.mem_append_left _ (List.mem_flatMap.2
        ⟨_, List.mem_range.2 hslot, List.mem_cons_self⟩))⟩
  | transactionStatus hs hprocessed hslot =>
      exact ⟨_, hs, htick hprocessed (List.mem_append_left _ (List.mem_flatMap.2
        ⟨_, List.mem_range.2 hslot, List.mem_cons_of_mem _ List.mem_cons_self⟩))⟩

/-- The pairs of samples are of the kinds above. -/
theorem mem_entries_iff : e ∈ samples.flatMap (·.entries) ↔ ∃ ns, Sampled samples ns e := by
  rw [List.mem_flatMap]
  constructor
  · rintro ⟨s, hs, he⟩
    exact sampled_of_entries hs he
  · rintro ⟨ns, h⟩
    exact h.exists_sample

/-- A sample archive holds the pairs of its samples and nothing else. -/
theorem getElem?_archive (hseparate : Separate samples) {key value : Bytes} :
    (archive samples)[key]? = some value ↔ ∃ ns, Sampled samples ns (key, value) := by
  rw [archive_eq_overlay, Contents.getElem?_overlay_iff, mem_entries_iff]
  intro e he e' he' hkey
  obtain ⟨ns, h⟩ := mem_entries_iff.1 he
  obtain ⟨ns', h'⟩ := mem_entries_iff.1 he'
  exact h'.eq_of_key hseparate h hkey

end SampleArchive

end EpochSplit
