import EpochSplit.Proofs.Epoch.References
/-!
# What tick data refer to

A plan without a fault writes all that the tick data of a processed range refer to: the
transactions, their statuses one by one, and the statuses of the tick that the tick data name.  The
archive is asked for these records by the ids in the tick data, and they are written under the ids
that they have themselves.
-/

namespace EpochSplit.EpochPlan

variable {s : Source} {m : EpochMetadata} {threshold : UInt32} {r : TickRange} {tick : UInt32}
  {txIds : List String}

/-! ### The ids of tick data -/

/-- The ids in tick data of a range are listed under the tick that they name. -/
lemma exists_namedIds {record : Current.TickData} (h : record ∈ Fold.records (tickData s r)) :
    ∃ txIds, (namedIds s r)[record.tickNumber]? = some txIds ∧ record.transactionIds ⊆ txIds := by
  have hnamed := getElem?_tickTransactions (Fold.records (tickData s r)) record.tickNumber
  rw [if_pos ⟨record, h, rfl⟩] at hnamed
  exact ⟨_, hnamed, fun txId hid =>
    List.mem_flatMap.2 ⟨record, List.mem_filter.2 ⟨h, decide_eq_true rfl⟩, hid⟩⟩

/-- The tick data of a pair, if they name a tick. -/
def naming? (tick : UInt32) (old : Entry) : Option Current.TickData :=
  ((EpochEntry.tickData old).toOption.map Prod.fst).filter (·.tickNumber = tick)

lemma naming?_eq_some {old : Entry} {record : Current.TickData} :
    naming? tick old = some record ↔
      (∃ entry, EpochEntry.tickData old = .ok (record, entry)) ∧ record.tickNumber = tick := by
  rw [naming?, Option.filter_eq_some_iff, decide_eq_true_iff]
  refine and_congr_left fun _ => ?_
  rcases EpochEntry.tickData old with fault | ⟨record', entry⟩ <;> simp [Except.toOption]

/-- The tick data in a range of an archive that name a tick, in the order of their keys. -/
lemma filter_records_tickData (archive : Contents) (r : TickRange) (tick : UInt32) :
    (Fold.records (tickData (.ofContents archive) r)).filter (·.tickNumber = tick) =
      (archive.scan (KeyRange.ofTicks .tickData r)).filterMap (naming? tick) := by
  rw [tickData, Source.items_ofContents, Fold.records, List.filterMap_map, List.filterMap_map,
    List.filter_filterMap]
  refine List.filterMap_congr fun old _ => ?_
  unfold naming?
  cases h : EpochEntry.tickData old <;> simp [h, Except.bind, Except.mapError, Except.toOption]

/-- If a single pair names a tick, the ids under the tick are just those of its tick data. -/
lemma eq_of_namedIds {archive : Contents} (key : Bytes) {record : Current.TickData}
    (hnamed : (namedIds (.ofContents archive) r)[tick]? = some txIds)
    (honce : ∀ old ∈ archive.scan (KeyRange.ofTicks .tickData r), ∀ record',
      naming? tick old = some record' → old.1 = key ∧ record' = record) :
    txIds = record.transactionIds := by
  -- a scan yields each key once, so that no two of its pairs name the tick
  have hsingle : ((archive.scan (KeyRange.ofTicks .tickData r)).filterMap (naming? tick)).Pairwise
      fun _ _ => False := by
    rw [List.pairwise_filterMap]
    refine (Contents.pairwise_scan archive _).imp_of_mem fun {old old'} hold hold' hlt => ?_
    intro _ h _ h'
    rw [(honce old hold _ h).1, (honce old' hold' _ h').1, Std.compare_self] at hlt
    cases hlt
  rw [namedIds, getElem?_tickTransactions] at hnamed
  split at hnamed
  · next hsome =>
      obtain rfl := Option.some.inj hnamed
      obtain ⟨record', hrecord', htick⟩ := hsome
      have hmem : record' ∈ (Fold.records (tickData (.ofContents archive) r)).filter
          (·.tickNumber = tick) := List.mem_filter.2 ⟨hrecord', decide_eq_true htick⟩
      rw [filter_records_tickData] at hmem ⊢
      rcases hlist : (archive.scan (KeyRange.ofTicks .tickData r)).filterMap (naming? tick) with
        _ | ⟨only, _ | ⟨other, rest⟩⟩
      · rw [hlist] at hmem
        cases hmem
      · obtain ⟨old, hold, honly⟩ := List.mem_filterMap.1 (hlist ▸ List.mem_cons_self (a := only))
        rw [(honce old hold _ honly).2]
        simp
      · rw [hlist] at hsingle
        exact (List.rel_of_pairwise_cons hsingle List.mem_cons_self).elim
  · cases hnamed

/-! ### What is written for them -/

section Sound

variable (hsound : (epochPlan s m threshold).findSome? EpochStream.fault? = none)
  (hr : r ∈ m.ranges) (hnamed : (namedIds s r)[tick]? = some txIds)

include hsound hr hnamed

/-- The transactions of the ids under a tick are written. -/
lemma exists_mem_of_transactions {txId : String} (hid : txId ∈ txIds) :
    ∃ t, s.transaction? txId = .ok (some t) ∧
      EpochEntry.transaction t ∈ (epochPlan s m threshold).flatMap EpochStream.entries := by
  have hitem : transaction s txId ∈ transactionItems s r :=
    List.mem_map_of_mem (List.mem_flatMap.2
      ⟨_, Std.ExtTreeMap.mem_toList_iff_getElem?_eq_some.2 hnamed, hid⟩)
  obtain ⟨entry, heq, hmem⟩ := exists_mem_of_item hsound
    (mem_items_epochPlan.2 (.inr (.inl ⟨r, hr, .inr (.inl hitem)⟩)))
  obtain ⟨t, ht, rfl⟩ := map_require_eq_ok heq
  exact ⟨t, ht, hmem⟩

/-- The statuses of the ids under a tick are written, one by one and all together. -/
lemma exists_mem_of_statuses :
    ∃ found : List Legacy.TransactionStatus, txIds.map (transactionStatus s) = found.map .ok ∧
      EpochEntry.tickTransactionsStatus tick (found.map (·.toCurrent)) ∈
        (epochPlan s m threshold).flatMap EpochStream.entries ∧
      ∀ status ∈ found, EpochEntry.transactionStatus status ∈
        (epochPlan s m threshold).flatMap EpochStream.entries := by
  have hitems : ∀ item ∈ tickStatuses s tick txIds, ∃ entry, item = .ok entry ∧
      entry ∈ (epochPlan s m threshold).flatMap EpochStream.entries := fun item hitem =>
    exists_mem_of_item hsound (mem_items_epochPlan.2 (.inr (.inl ⟨r, hr, .inr (.inr
      (List.mem_flatMap.2
        ⟨_, Std.ExtTreeMap.mem_toList_iff_getElem?_eq_some.2 hnamed, hitem⟩))⟩)))
  obtain ⟨entry, heq, hmem⟩ := hitems _ (List.mem_append_right _ List.mem_cons_self)
  rcases hfound : (txIds.map (transactionStatus s)).mapM id with e | found
  · rw [hfound] at heq
    cases heq
  · rw [hfound] at heq
    cases heq
    have hstatuses := eq_map_of_mapM_id hfound
    refine ⟨found, hstatuses, hmem, fun status hstatus => ?_⟩
    have hsingle : .ok status ∈ txIds.map (transactionStatus s) :=
      hstatuses ▸ List.mem_map_of_mem hstatus
    obtain ⟨entry, heq, hmem⟩ := hitems _ (List.mem_append_left _ (List.mem_map_of_mem hsingle))
    cases heq
    exact hmem

end Sound

end EpochSplit.EpochPlan
