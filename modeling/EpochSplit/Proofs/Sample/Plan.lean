import EpochSplit.Proofs.Epoch.Completeness
import EpochSplit.Proofs.Epoch.LastVotes
import EpochSplit.Proofs.Sample.Reading
/-!
# The plan of a sample

What there is to write for the epoch of a sample, in terms of the sample alone (`moved`).
-/

namespace EpochSplit

namespace SampleArchive

open EpochPlan Wire

/-! ### What is left of a sample -/

namespace EpochSample

/-- The statuses of the transactions of a tick, in the order of the slots. -/
def statuses (s : EpochSample) (tick : UInt32) : List Legacy.TransactionStatus :=
  (List.range s.transactionsPerTick).map (transactionStatus s.epoch tick)

/-- The full votes on the last tick of each range, by the position of the range. -/
def lastVotes (s : EpochSample) : Current.LastTickQuorumDataPerEpochIntervals where
  quorumDataPerInterval := .ofList <| s.ranges.zipIdx.map fun (r, i) =>
    (Int32.ofNat i, (quorumTickData s.epoch r.stop).toCurrent)

/-- The pairs of the epoch as a whole, but for the votes on the last ticks. -/
def movedEpoch (s : EpochSample) (threshold : UInt32) : List Entry :=
  let lastTick : Current.ProcessedTick := { tickNumber := s.lastTick.getD 0, epoch := s.epoch }
  [(Key.word .computorList s.epoch, encode s.computors.toList),
    (Key.word .processedTickIntervals s.epoch, encode s.intervals.toCurrent),
    (Key.encode .lastProcessedTick .singleton, encode lastTick)] ++
  if threshold < s.epoch then
    [(Key.word .targetTickVoteSignature s.epoch, encodeWord s.voteSignature)]
  else []

/-- The pairs of the transaction in a slot of a tick. -/
def movedSlot (s : EpochSample) (tick : UInt32) (slot : Nat) : List Entry :=
  let id := txId s.epoch tick slot
  [(Key.text .transaction id, encode (transaction s.epoch tick slot).toCurrent),
    (Key.text .transactionStatus id, encode (transactionStatus s.epoch tick slot).toCurrent)]

/-- The pairs of a tick. -/
def movedTick (s : EpochSample) (tick : UInt32) : List Entry :=
  let statuses : Current.TickTransactionsStatus := ⟨(s.statuses tick).map (·.toCurrent)⟩
  [(Key.word .tickData tick, encode (tickData s.epoch tick s.transactionsPerTick).toCurrent),
    (Key.word .quorumData tick, encode (quorumTickData s.epoch tick).reduced),
    (Key.word .tickTransactionsStatus tick, encode statuses)] ++
  (List.range s.transactionsPerTick).flatMap (s.movedSlot tick)

/-- The pairs that the store of the epoch holds once the epoch is moved. -/
def moved (s : EpochSample) (threshold : UInt32) : List Entry :=
  s.movedEpoch threshold ++ s.ticks.flatMap s.movedTick ++
    [(Key.word .lastTickQuorumDataPerEpochInterval s.epoch, encode s.lastVotes)]

end EpochSample

variable {samples : List EpochSample} {s : EpochSample} {r : TickRange} {tick : UInt32}
  {slot : Nat} {threshold : UInt32}

section Separate

variable (hseparate : Separate samples) (hs : s ∈ samples)

include hseparate hs

/-! ### The metadata of the epoch -/

lemma items_metadata :
    (metadata (source samples) s.metadata threshold).items =
      (s.movedEpoch threshold).map .ok := by
  have hcomputors : computors (source samples) s.epoch =
      .ok (Key.word .computorList s.epoch, encode s.computors.toList) := by
    rw [computors, computors_source hseparate hs]
    rfl
  have hnonempty : s.intervals.intervals.isEmpty = false := by
    simpa [EpochSample.intervals] using hseparate.nonempty s hs
  have hintervals : processedTickIntervals (source samples) s.epoch =
      .ok (Key.word .processedTickIntervals s.epoch, encode s.intervals.toCurrent) := by
    rw [processedTickIntervals, intervals_source hseparate hs]
    simp only [Except.map, Option.filter, hnonempty]
    rfl
  have hsignature : voteSignature (source samples) s.epoch =
      .ok (Key.word .targetTickVoteSignature s.epoch, encodeWord s.voteSignature) := by
    rw [voteSignature, voteSignature_source hseparate hs]
    rfl
  have hepoch : s.metadata.epoch = s.epoch := rfl
  simp only [metadata, hepoch, hcomputors, hintervals, hsignature, EpochSample.movedEpoch]
  split <;> rfl

/-! ### The ticks of a range -/

/-- The tick data of a tick are moved. -/
lemma tickData_sample (tick : UInt32) :
    EpochEntry.tickData
        (Key.word .tickData tick, encode (tickData s.epoch tick s.transactionsPerTick)) =
      .ok ((tickData s.epoch tick s.transactionsPerTick).toCurrent,
        (Key.word .tickData tick,
          encode (tickData s.epoch tick s.transactionsPerTick).toCurrent)) := by
  have hsmall := hseparate.transactions s hs
  exact EpochEntry.tickData_word (decode_encode _ (length_tickData_lt s.epoch tick hsmall))

variable (hr : r ∈ s.ranges)

include hr

/-- The tick data of a range are those of its ticks. -/
lemma mem_tickData {item : Except Error (Current.TickData × Entry)} :
    item ∈ EpochPlan.tickData (source samples) r ↔ ∃ tick, r.contains tick = true ∧
      item = .ok ((tickData s.epoch tick s.transactionsPerTick).toCurrent,
        (Key.word .tickData tick,
          encode (tickData s.epoch tick s.transactionsPerTick).toCurrent)) := by
  have hitem : ∀ tick, ((Except.ok (Key.word .tickData tick,
      encode (tickData s.epoch tick s.transactionsPerTick)) : Except Error Entry).bind
        fun e => (EpochEntry.tickData e).mapError .codec) =
      .ok ((tickData s.epoch tick s.transactionsPerTick).toCurrent,
        (Key.word .tickData tick,
          encode (tickData s.epoch tick s.transactionsPerTick).toCurrent)) := by
    intro tick
    simp only [Except.bind, tickData_sample hseparate hs]
    rfl
  rw [EpochPlan.tickData, source, Source.items_ofContents, List.map_map, List.mem_map]
  constructor
  · rintro ⟨old, hold, rfl⟩
    obtain ⟨tick, hcontains, rfl⟩ := (mem_scan_tickData hseparate hs hr).1 hold
    exact ⟨tick, hcontains, hitem tick⟩
  · rintro ⟨tick, hcontains, rfl⟩
    exact ⟨_, (mem_scan_tickData hseparate hs hr).2 ⟨tick, hcontains, rfl⟩, hitem tick⟩

lemma mem_tickItems {item : Except Error Entry} :
    item ∈ tickItems (source samples) r ↔ ∃ tick, r.contains tick = true ∧
      item = .ok (Key.word .tickData tick,
        encode (tickData s.epoch tick s.transactionsPerTick).toCurrent) := by
  rw [tickItems, List.mem_map]
  constructor
  · rintro ⟨moved, hmoved, rfl⟩
    obtain ⟨tick, hcontains, rfl⟩ := (mem_tickData hseparate hs hr).1 hmoved
    exact ⟨tick, hcontains, rfl⟩
  · rintro ⟨tick, hcontains, rfl⟩
    exact ⟨_, (mem_tickData hseparate hs hr).2 ⟨tick, hcontains, rfl⟩, rfl⟩

/-- The ids that are listed under a tick of a range are those of its slots. -/
lemma getElem?_namedIds {txIds : List String} :
    (namedIds (source samples) r)[tick]? = some txIds ↔
      r.contains tick = true ∧
        txIds = (List.range s.transactionsPerTick).map (txId s.epoch tick) := by
  -- the tick data under the tick itself are the only ones that name it
  have hnames : ∀ old ∈ (archive samples).scan (KeyRange.ofTicks .tickData r), ∀ record,
      naming? tick old = some record → r.contains tick = true ∧ old.1 = Key.word .tickData tick ∧
        record = (tickData s.epoch tick s.transactionsPerTick).toCurrent := by
    intro old hold record hnaming
    obtain ⟨tick', hcontains, rfl⟩ := (mem_scan_tickData hseparate hs hr).1 hold
    obtain ⟨⟨entry, hmoved⟩, hname⟩ := naming?_eq_some.1 hnaming
    rw [tickData_sample hseparate hs] at hmoved
    cases hmoved
    obtain rfl : tick' = tick := hname
    exact ⟨hcontains, rfl, rfl⟩
  have hids : ∀ {txIds}, (namedIds (source samples) r)[tick]? = some txIds →
      txIds = (List.range s.transactionsPerTick).map (txId s.epoch tick) := fun h =>
    eq_of_namedIds (Key.word .tickData tick) h fun old hold record hnaming =>
      (hnames old hold record hnaming).2
  constructor
  · intro h
    obtain ⟨old, record, entry, hscanned, hmoved, hname⟩ := exists_of_namedIds h
    have hold := Contents.mem_scan.2 (Source.mem_items_ofContents.1 hscanned)
    obtain ⟨hcontains, -⟩ := hnames old hold record (naming?_eq_some.2 ⟨⟨entry, hmoved⟩, hname⟩)
    exact ⟨hcontains, hids h⟩
  · rintro ⟨hcontains, rfl⟩
    have hscanned := Source.mem_items_ofContents.2
      (Contents.mem_scan.1 ((mem_scan_tickData hseparate hs hr).2 ⟨tick, hcontains, rfl⟩))
    obtain ⟨txIds, hnamed, -⟩ := exists_namedIds
      (mem_records_tickData.2 ⟨_, _, hscanned, tickData_sample hseparate hs tick⟩)
    have hnamed : (namedIds (source samples) r)[tick]? = some txIds := hnamed
    rw [hnamed, hids hnamed]

/-- The transactions of a range are those of the slots of its ticks. -/
lemma mem_transactionItems {item : Except Error Entry} :
    item ∈ transactionItems (source samples) r ↔
      ∃ tick, r.contains tick = true ∧ ∃ slot < s.transactionsPerTick,
        item = .ok (EpochEntry.transaction (transaction s.epoch tick slot)) := by
  have hfound : ∀ tick, r.contains tick = true → ∀ slot < s.transactionsPerTick,
      EpochPlan.transaction (source samples) (txId s.epoch tick slot) =
        .ok (EpochEntry.transaction (transaction s.epoch tick slot)) := by
    intro tick hcontains slot hslot
    have htick := EpochSample.mem_ticks.2 ⟨r, hr, hcontains⟩
    rw [EpochPlan.transaction, transaction_source hseparate hs htick hslot]
    rfl
  rw [transactionItems, List.mem_map]
  constructor
  · rintro ⟨id, hid, rfl⟩
    obtain ⟨⟨tick, txIds⟩, hnamed, hid⟩ := List.mem_flatMap.1 hid
    obtain ⟨hcontains, rfl⟩ := (getElem?_namedIds hseparate hs hr).1
      (Std.ExtTreeMap.mem_toList_iff_getElem?_eq_some.1 hnamed)
    obtain ⟨slot, hslot, rfl⟩ := List.mem_map.1 hid
    have hslot := List.mem_range.1 hslot
    exact ⟨tick, hcontains, slot, hslot, hfound tick hcontains slot hslot⟩
  · rintro ⟨tick, hcontains, slot, hslot, rfl⟩
    have hnamed := (getElem?_namedIds hseparate hs hr).2 ⟨hcontains, rfl⟩
    refine ⟨_, List.mem_flatMap.2
      ⟨_, Std.ExtTreeMap.mem_toList_iff_getElem?_eq_some.2 hnamed, ?_⟩,
      hfound tick hcontains slot hslot⟩
    exact List.mem_map_of_mem (List.mem_range.2 hslot)

/-- The items of the statuses of a tick. -/
lemma tickStatuses_sample (hcontains : r.contains tick = true) :
    tickStatuses (source samples) tick
        ((List.range s.transactionsPerTick).map (txId s.epoch tick)) =
      ((s.statuses tick).map EpochEntry.transactionStatus ++
        [EpochEntry.tickTransactionsStatus tick
          ((s.statuses tick).map (·.toCurrent))]).map .ok := by
  have htick := EpochSample.mem_ticks.2 ⟨r, hr, hcontains⟩
  have hstatuses : ((List.range s.transactionsPerTick).map (txId s.epoch tick)).map
      (EpochPlan.transactionStatus (source samples)) = (s.statuses tick).map .ok := by
    rw [EpochSample.statuses, List.map_map, List.map_map]
    refine List.map_congr_left fun slot hslot => ?_
    rw [Function.comp_apply, EpochPlan.transactionStatus,
      status_source hseparate hs htick (List.mem_range.1 hslot)]
    rfl
  rw [tickStatuses]
  simp only [hstatuses, mapM_id_map_ok, List.map_map, List.map_append]
  rfl

/-- The statuses of a range are those of the slots of its ticks, and for each tick all of them
together. -/
lemma mem_statusItems {item : Except Error Entry} :
    item ∈ statusItems (source samples) r ↔ ∃ tick, r.contains tick = true ∧
      ((∃ slot < s.transactionsPerTick,
          item = .ok (EpochEntry.transactionStatus (transactionStatus s.epoch tick slot))) ∨
        item = .ok (EpochEntry.tickTransactionsStatus tick
          ((s.statuses tick).map (·.toCurrent)))) := by
  have hitems : ∀ tick, r.contains tick = true → (item ∈ tickStatuses (source samples) tick
      ((List.range s.transactionsPerTick).map (txId s.epoch tick)) ↔
        (∃ slot < s.transactionsPerTick,
          item = .ok (EpochEntry.transactionStatus (transactionStatus s.epoch tick slot))) ∨
        item = .ok (EpochEntry.tickTransactionsStatus tick
          ((s.statuses tick).map (·.toCurrent)))) := by
    intro tick hcontains
    rw [tickStatuses_sample hseparate hs hr hcontains, List.map_append, List.mem_append,
      List.map_singleton, List.mem_singleton, EpochSample.statuses, List.map_map, List.map_map,
      List.mem_map]
    simp only [List.mem_range, Function.comp_apply, eq_comm (b := item)]
  rw [statusItems, List.mem_flatMap]
  constructor
  · rintro ⟨⟨tick, txIds⟩, hnamed, hitem⟩
    obtain ⟨hcontains, rfl⟩ := (getElem?_namedIds hseparate hs hr).1
      (Std.ExtTreeMap.mem_toList_iff_getElem?_eq_some.1 hnamed)
    exact ⟨tick, hcontains, (hitems tick hcontains).1 hitem⟩
  · rintro ⟨tick, hcontains, hitem⟩
    have hnamed := (getElem?_namedIds hseparate hs hr).2 ⟨hcontains, rfl⟩
    exact ⟨_, Std.ExtTreeMap.mem_toList_iff_getElem?_eq_some.2 hnamed,
      (hitems tick hcontains).2 hitem⟩

end Separate

end SampleArchive

end EpochSplit
