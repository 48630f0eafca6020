import EpochSplit.Proofs.Metadata.Intervals
import EpochSplit.Proofs.Sample.Plan
/-!
# The votes of a sample

The votes on the ticks of a sample all belong to its epoch, each to the one range that contains its
tick.  So what the fold over the votes keeps for a range are the votes on its last tick
(`exists_keptVotes`), and the record of these can be written if and only if the ranges have
numbers (`exists_lastItem`).
-/

namespace EpochSplit

namespace SampleArchive

open EpochPlan Wire

variable {samples : List EpochSample} {s : EpochSample} {r : TickRange} {tick : UInt32} {i : Nat}

/-- A position in a short list of ranges is the number of an interval. -/
lemma EpochSample.lt_of_getElem?_ranges (s : EpochSample) (hsmall : s.ranges.length ≤ 2 ^ 31)
    (hr : s.ranges[i]? = some r) : i < 2 ^ 31 := by
  obtain ⟨hi, -⟩ := List.getElem?_eq_some_iff.1 hr
  exact Nat.lt_of_lt_of_le hi hsmall

/-- The record of the votes on the last ticks holds, under the number of each range, the votes on
its last tick, and nothing else. -/
theorem EpochSample.getElem?_lastVotes (s : EpochSample) (hsmall : s.ranges.length ≤ 2 ^ 31)
    {number : Int32} {votes : Current.QuorumTickData} :
    s.lastVotes.quorumDataPerInterval[number]? = some votes ↔ ∃ i r, s.ranges[i]? = some r ∧
      number = Int32.ofNat i ∧ votes = (quorumTickData s.epoch r.stop).toCurrent := by
  have hordered : s.ranges.zipIdx.Pairwise fun p p' => p.2 < p'.2 := by
    rw [← List.pairwise_map, List.zipIdx_map_snd]
    exact List.pairwise_lt_range'
  have hposition : ∀ p ∈ s.ranges.zipIdx, p.2 < 2 ^ 31 := fun p hp =>
    s.lt_of_getElem?_ranges hsmall (List.mk_mem_zipIdx_iff_getElem?.1 hp)
  have hdistinct : (s.ranges.zipIdx.map fun p =>
      (Int32.ofNat p.2, (quorumTickData s.epoch p.1.stop).toCurrent)).Pairwise
        fun a b => ¬compare a.1 b.1 = .eq := by
    rw [List.pairwise_map]
    refine hordered.imp_of_mem fun {p p'} hp hp' hlt heq => ?_
    have hsame := ofNat_inj_of_lt (hposition p hp) (hposition p' hp')
      (Std.LawfulEqOrd.eq_of_compare heq)
    exact Nat.ne_of_lt hlt hsame
  have hfound : ∀ {r i}, (r, i) ∈ s.ranges.zipIdx →
      s.lastVotes.quorumDataPerInterval[Int32.ofNat i]? =
        some (quorumTickData s.epoch r.stop).toCurrent := fun {r i} hr =>
    Std.ExtTreeMap.getElem?_ofList_of_mem Std.ReflCmp.compare_self hdistinct
      (List.mem_map.2 ⟨(r, i), hr, rfl⟩)
  constructor
  · intro h
    have hnumber : number ∈ s.lastVotes.quorumDataPerInterval :=
      mem_iff_exists_getElem?.2 ⟨votes, h⟩
    rw [lastVotes, Std.ExtTreeMap.mem_ofList, List.map_map, List.contains_iff_mem,
      List.mem_map] at hnumber
    obtain ⟨⟨r, i⟩, hr, rfl⟩ := hnumber
    have hvotes := Option.some.inj (h.symm.trans (hfound hr))
    exact ⟨i, r, List.mk_mem_zipIdx_iff_getElem?.1 hr, rfl, hvotes⟩
  · rintro ⟨i, r, hr, rfl, rfl⟩
    exact hfound (List.mk_mem_zipIdx_iff_getElem?.2 hr)

/-- So it holds what the fold selects, if that is the votes on the last ticks. -/
lemma EpochSample.isNumbered_lastVotes (s : EpochSample) (hsmall : s.ranges.length ≤ 2 ^ 31)
    {selected : Std.ExtTreeMap Nat Legacy.QuorumTickData}
    (hselected : ∀ i : Nat, selected[i]? =
      s.ranges[i]?.map fun r => quorumTickData s.epoch r.stop) :
    IsNumbered selected s.lastVotes := by
  refine ⟨fun i q hq => ?_, fun i hi => Option.ext fun votes => ?_, fun number hnumber => ?_⟩
  · rw [hselected, Option.map_eq_some_iff] at hq
    obtain ⟨r, hr, -⟩ := hq
    exact s.lt_of_getElem?_ranges hsmall hr
  · rw [s.getElem?_lastVotes hsmall, hselected, Option.map_map, Option.map_eq_some_iff]
    constructor
    · rintro ⟨i', r, hr, heq, rfl⟩
      obtain rfl := ofNat_inj_of_lt hi (s.lt_of_getElem?_ranges hsmall hr) heq
      exact ⟨r, hr, rfl⟩
    · rintro ⟨r, hr, rfl⟩
      exact ⟨i, r, hr, rfl, rfl⟩
  · obtain ⟨votes, hvotes⟩ := mem_iff_exists_getElem?.1 hnumber
    obtain ⟨i, r, hr, heq, -⟩ := (s.getElem?_lastVotes hsmall).1 hvotes
    exact ⟨i, s.lt_of_getElem?_ranges hsmall hr, heq⟩

section Separate

variable (hseparate : Separate samples) (hs : s ∈ samples)

include hseparate hs

/-! ### Votes and ranges -/

/-- The interval of a tick is the one range that contains it. -/
lemma indexOf?_sample :
    TickRange.indexOf? s.ranges tick = some i ↔
      ∃ r, s.ranges[i]? = some r ∧ r.contains tick = true := by
  have hapart : s.ranges.Pairwise fun r r' =>
      ∀ tick, ¬(r.contains tick = true ∧ r'.contains tick = true) :=
    (hseparate.pairwise_ranges hs).imp fun hapart _ hboth => hapart.not_contains hboth.1 hboth.2
  rw [TickRange.indexOf?_eq_some_iff]
  constructor
  · rintro ⟨r, hr, hcontains, -⟩
    exact ⟨r, hr, hcontains⟩
  · rintro ⟨r, hr, hcontains⟩
    exact ⟨r, hr, hcontains, TickRange.earlier_of_pairwise hapart hr hcontains⟩

/-- Votes on a tick of a sample belong to a group of its epoch. -/
lemma groupOf_sample :
    (fold s.metadata).groupOf (quorumTickData s.epoch tick) = .ok (s.epoch, i) ↔
      ∃ r, s.ranges[i]? = some r ∧ r.contains tick = true := by
  rw [← indexOf?_sample hseparate hs, groupOf_fold]
  constructor
  · rintro ⟨-, hinterval, -⟩
    exact hinterval
  · intro hinterval
    exact ⟨rfl, hinterval, _, rfl, rfl⟩

lemma exists_groupOf_sample (htick : tick ∈ s.ticks) :
    ∃ i, (fold s.metadata).groupOf (quorumTickData s.epoch tick) = .ok (s.epoch, i) := by
  obtain ⟨r, hr, hcontains⟩ := EpochSample.mem_ticks.1 htick
  obtain ⟨i, hi⟩ := List.mem_iff_getElem?.1 hr
  exact ⟨i, (groupOf_sample hseparate hs).2 ⟨r, hi, hcontains⟩⟩

/-- The votes on the ticks of a range are moved. -/
lemma mem_quorumData (hr : r ∈ s.ranges) {item : Except Error (Legacy.QuorumTickData × Entry)} :
    item ∈ EpochPlan.quorumData (source samples) r ↔ ∃ tick, r.contains tick = true ∧
      item = .ok (quorumTickData s.epoch tick,
        (Key.word .quorumData tick, encode (quorumTickData s.epoch tick).reduced)) := by
  have hitem : ∀ tick, ((Except.ok (Key.word .quorumData tick,
      encode (quorumTickData s.epoch tick)) : Except Error Entry).bind
        fun e => (EpochEntry.quorumData e).mapError .codec) =
      .ok (quorumTickData s.epoch tick,
        (Key.word .quorumData tick, encode (quorumTickData s.epoch tick).reduced)) := by
    intro tick
    have hdecode := decode_encode .quorumData (length_quorumTickData_lt s.epoch tick)
    simp only [Except.bind, EpochEntry.quorumData_word hdecode rfl]
    rfl
  rw [EpochPlan.quorumData, source, Source.items_ofContents, List.map_map, List.mem_map]
  constructor
  · rintro ⟨old, hold, rfl⟩
    obtain ⟨tick, hcontains, rfl⟩ := (mem_scan_quorumData hseparate hs hr).1 hold
    exact ⟨tick, hcontains, hitem tick⟩
  · rintro ⟨tick, hcontains, rfl⟩
    exact ⟨_, (mem_scan_quorumData hseparate hs hr).2 ⟨tick, hcontains, rfl⟩, hitem tick⟩

/-- The votes of a range are those on its ticks. -/
lemma mem_voteItems (hr : r ∈ s.ranges) {item : Except Error Entry} :
    item ∈ voteItems (source samples) s.metadata r ↔ ∃ tick, r.contains tick = true ∧
      item = .ok (Key.word .quorumData tick, encode (quorumTickData s.epoch tick).reduced) := by
  have hitem : ∀ tick, r.contains tick = true → (do
      let (v, entry) ← (.ok (quorumTickData s.epoch tick,
        (Key.word .quorumData tick, encode (quorumTickData s.epoch tick).reduced)) :
          Except Error (Legacy.QuorumTickData × Entry))
      let _ ← ((fold s.metadata).groupOf v).mapError .consistency
      return entry) =
        .ok (Key.word .quorumData tick, encode (quorumTickData s.epoch tick).reduced) := by
    intro tick hcontains
    obtain ⟨i, hgroup⟩ := exists_groupOf_sample hseparate hs
      (EpochSample.mem_ticks.2 ⟨r, hr, hcontains⟩)
    simp only [bind, Except.bind, hgroup]
    rfl
  rw [voteItems, Fold.attributed, List.mem_map]
  constructor
  · rintro ⟨moved, hmoved, rfl⟩
    obtain ⟨tick, hcontains, rfl⟩ := (mem_quorumData hseparate hs hr).1 hmoved
    exact ⟨tick, hcontains, hitem tick hcontains⟩
  · rintro ⟨tick, hcontains, rfl⟩
    exact ⟨_, (mem_quorumData hseparate hs hr).2 ⟨tick, hcontains, rfl⟩, hitem tick hcontains⟩

/-- The votes that pass through the fold are those on the ticks of the sample. -/
lemma mem_votes {q : Legacy.QuorumTickData} :
    q ∈ votes (source samples) s.metadata ↔ ∃ tick ∈ s.ticks, q = quorumTickData s.epoch tick := by
  rw [votes, Fold.mem_records]
  constructor
  · rintro ⟨entry, hitem⟩
    obtain ⟨r, hr, hitem⟩ := List.mem_flatMap.1 hitem
    obtain ⟨tick, hcontains, heq⟩ := (mem_quorumData hseparate hs hr).1 hitem
    exact ⟨tick, EpochSample.mem_ticks.2 ⟨r, hr, hcontains⟩, (Prod.mk.inj (Except.ok.inj heq)).1⟩
  · rintro ⟨tick, htick, rfl⟩
    obtain ⟨r, hr, hcontains⟩ := EpochSample.mem_ticks.1 htick
    exact ⟨_, List.mem_flatMap.2
      ⟨r, hr, (mem_quorumData hseparate hs hr).2 ⟨tick, hcontains, rfl⟩⟩⟩

/-! ### The votes on the last ticks -/

/-- The votes of a range are those on its ticks. -/
lemma mem_filter_votes {q : Legacy.QuorumTickData} (hr : s.ranges[i]? = some r) :
    q ∈ (votes (source samples) s.metadata).filter (fun q => q.interval? s.ranges = some i) ↔
      ∃ tick, r.contains tick = true ∧ q = quorumTickData s.epoch tick := by
  rw [List.mem_filter, decide_eq_true_iff, mem_votes hseparate hs]
  constructor
  · rintro ⟨⟨tick, -, rfl⟩, hinterval⟩
    obtain ⟨r', hr', hcontains⟩ := (indexOf?_sample hseparate hs).1 hinterval
    rw [Option.some.inj (hr.symm.trans hr')]
    exact ⟨tick, hcontains, rfl⟩
  · rintro ⟨tick, hcontains, rfl⟩
    have hmem := List.mem_of_getElem? hr
    exact ⟨⟨tick, EpochSample.mem_ticks.2 ⟨r, hmem, hcontains⟩, rfl⟩,
      (indexOf?_sample hseparate hs).2 ⟨r, hr, hcontains⟩⟩

/-- Of the votes of a range, those on its last tick are kept. -/
lemma lastVotes?_sample :
    lastVotes? s.ranges i (votes (source samples) s.metadata) =
      s.ranges[i]?.map fun r => quorumTickData s.epoch r.stop := by
  rw [lastVotes?]
  cases hr : s.ranges[i]? with
  | none =>
      have hnone : (votes (source samples) s.metadata).filter
          (fun q => q.interval? s.ranges = some i) = [] := by
        refine List.filter_eq_nil_iff.2 fun q hq hinterval => ?_
        obtain ⟨tick, -, rfl⟩ := (mem_votes hseparate hs).1 hq
        obtain ⟨r, hr', -⟩ := (indexOf?_sample hseparate hs).1 (of_decide_eq_true hinterval)
        rw [hr] at hr'
        cases hr'
      rw [hnone]
      rfl
  | some r =>
      have hstop : r.contains r.stop = true := TickRange.contains_iff.2
        ⟨hseparate.ordered s hs r (List.mem_of_getElem? hr), UInt32.le_refl _⟩
      have hlast := (mem_filter_votes hseparate hs hr).2 ⟨r.stop, hstop, rfl⟩
      cases hbest : ((votes (source samples) s.metadata).filter
          fun q => q.interval? s.ranges = some i).argmax Attributed.tick with
      | none =>
          rw [List.argmax_eq_none.1 hbest] at hlast
          cases hlast
      | some q =>
          obtain ⟨tick, hcontains, rfl⟩ :=
            (mem_filter_votes hseparate hs hr).1 (List.argmax_mem hbest)
          -- the tick is as great as the last one, and no greater
          have hgreater := List.le_of_mem_argmax hlast hbest
          have hle : r.stop ≤ tick := UInt32.le_iff_toNat_le.2 hgreater
          have htick := UInt32.le_antisymm (TickRange.contains_iff.1 hcontains).2 hle
          rw [htick]
          rfl

/-- The fold keeps one group, which holds the votes on the last tick of each range. -/
lemma exists_keptVotes :
    ∃ selected, (keptVotes (source samples) s.metadata).groups[s.epoch]? = some selected ∧
      ∀ i : Nat, selected[i]? = s.ranges[i]?.map fun r => quorumTickData s.epoch r.stop := by
  have hall : ∀ q ∈ votes (source samples) s.metadata,
      ∃ group, (fold s.metadata).groupOf q = .ok group := by
    intro q hq
    obtain ⟨tick, htick, rfl⟩ := (mem_votes hseparate hs).1 hq
    obtain ⟨i, hgroup⟩ := exists_groupOf_sample hseparate hs htick
    exact ⟨_, hgroup⟩
  have hmem : s.epoch ∈ (keptVotes (source samples) s.metadata).groups := by
    obtain ⟨r, hr⟩ := List.exists_mem_of_ne_nil _ (hseparate.nonempty s hs)
    have hstart : r.contains r.start = true :=
      TickRange.contains_iff.2 ⟨UInt32.le_refl _, hseparate.ordered s hs r hr⟩
    have htick := EpochSample.mem_ticks.2 ⟨r, hr, hstart⟩
    exact (Fold.mem_groups_observeAll groups_fold _ _).2
      ⟨_, (mem_votes hseparate hs).2 ⟨_, htick, rfl⟩, exists_groupOf_sample hseparate hs htick⟩
  obtain ⟨selected, hgroup⟩ := mem_iff_exists_getElem?.1 hmem
  refine ⟨selected, hgroup, fun i => ?_⟩
  rw [getElem?_keptVotes hall hgroup i]
  exact lastVotes?_sample hseparate hs

/-- There is one item for the votes on the last ticks.  It is no error if and only if the positions
of all ranges are numbers of intervals. -/
lemma exists_lastItem :
    ∃ last, (∀ item, item ∈ lastItems (source samples) s.metadata ↔ item = last) ∧
      ((∃ entry, last = .ok entry) ↔ s.ranges.length ≤ 2 ^ 31) ∧
      ∀ entry, last = .ok entry →
        entry = (Key.word .lastTickQuorumDataPerEpochInterval s.epoch, encode s.lastVotes) := by
  obtain ⟨selected, hgroup, hselected⟩ := exists_keptVotes hseparate hs
  have hnumbered : ∀ {entry}, EpochEntry.lastTickQuorumData s.epoch selected = .ok entry →
      s.ranges.length ≤ 2 ^ 31 ∧
        entry = (Key.word .lastTickQuorumDataPerEpochInterval s.epoch, encode s.lastVotes) := by
    intro entry h
    obtain ⟨record, rfl, hrecord⟩ := EpochEntry.lastTickQuorumData_eq_ok h
    have hsmall : s.ranges.length ≤ 2 ^ 31 := by
      by_contra hmany
      obtain ⟨r, hr⟩ : ∃ r, s.ranges[2 ^ 31]? = some r :=
        ⟨_, List.getElem?_eq_getElem (Nat.not_le.1 hmany)⟩
      have hlast := hrecord.small (2 ^ 31) _ (by rw [hselected, hr]; rfl)
      exact Nat.lt_irrefl _ hlast
    rw [hrecord.unique (s.isNumbered_lastVotes hsmall hselected)]
    exact ⟨hsmall, rfl⟩
  refine ⟨(EpochEntry.lastTickQuorumData s.epoch selected).mapError .codec, fun item => ?_,
    ⟨?_, ?_⟩, fun entry hentry => (hnumbered (mapError_codec_eq_ok hentry)).2⟩
  · rw [lastItems, Fold.kept, List.mem_map]
    constructor
    · rintro ⟨⟨epoch, other⟩, hother, rfl⟩
      have hother := Std.ExtTreeMap.mem_toList_iff_getElem?_eq_some.1 hother
      have hepoch : epoch = s.epoch :=
        epoch_of_mem_keptVotes (mem_iff_exists_getElem?.2 ⟨_, hother⟩)
      subst hepoch
      rw [Option.some.inj (hother.symm.trans hgroup)]
    · rintro rfl
      exact ⟨_, Std.ExtTreeMap.mem_toList_iff_getElem?_eq_some.2 hgroup, rfl⟩
  · rintro ⟨entry, hentry⟩
    exact (hnumbered (mapError_codec_eq_ok hentry)).1
  · intro hsmall
    obtain ⟨entry, hentry⟩ := EpochEntry.exists_lastTickQuorumData s.epoch
      (s.isNumbered_lastVotes hsmall hselected).small
    exact ⟨entry, by rw [hentry]; rfl⟩

end Separate

end SampleArchive

end EpochSplit
