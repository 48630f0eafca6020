import EpochSplit.Proofs.Epoch.LastVotes
/-!
# The order of a plan

What refers to something else comes later in a plan.  The statuses of a tick come after the single
statuses and after tick data that name the tick (`backed_of_yields`), and the votes on the last
ticks come after all else (`mem_keys_of_yields`).
-/

namespace EpochSplit

/-! ### The ids that tick data name -/

namespace Fold

lemma mem_records {V : Type} {items : List (Except Error (V × Entry))} {v : V} :
    v ∈ records items ↔ ∃ entry, .ok (v, entry) ∈ items := by
  rw [records, List.mem_filterMap]
  constructor
  · rintro ⟨e | ⟨v', entry⟩, hitem, heq⟩
    · cases heq
    · cases heq
      exact ⟨entry, hitem⟩
  · rintro ⟨entry, hitem⟩
    exact ⟨_, hitem, rfl⟩

end Fold

namespace EpochPlan

variable {s : Source} {m : EpochMetadata} {threshold : UInt32} {r : TickRange} {before : List Entry}
  {entry : Entry}

/-- The ids under a tick are those in the tick data that name the tick, in order. -/
theorem getElem?_tickTransactions (ticks : List Current.TickData) (tick : UInt32) :
    (tickTransactions ticks)[tick]? =
      if ∃ t ∈ ticks, t.tickNumber = tick then
        some ((ticks.filter (·.tickNumber = tick)).flatMap (·.transactionIds))
      else none := by
  induction ticks using List.reverseRecOn with
  | nil => simp [tickTransactions]
  | append_singleton ticks t ih =>
      have hstep : tickTransactions (ticks ++ [t]) =
          (tickTransactions ticks).insert t.tickNumber
            ((tickTransactions ticks)[t.tickNumber]?.getD [] ++ t.transactionIds) := by
        simp [tickTransactions]
      rw [hstep, Std.ExtTreeMap.getElem?_insert]
      by_cases htick : t.tickNumber = tick
      · subst htick
        have hold : (tickTransactions ticks)[t.tickNumber]?.getD [] =
            (ticks.filter (·.tickNumber = t.tickNumber)).flatMap (·.transactionIds) := by
          rw [ih]
          split
          · rfl
          · next hnone =>
              push Not at hnone
              rw [List.filter_eq_nil_iff.2 fun t' ht' => by simpa using hnone t' ht']
              rfl
        rw [if_pos Std.ReflCmp.compare_self, if_pos ⟨t, by simp, rfl⟩, hold]
        simp
      · rw [if_neg fun heq => htick (Std.LawfulEqOrd.eq_of_compare heq), ih]
        simp [htick]

/-- Tick data that are moved in a range are among the pairs that are scanned there. -/
lemma mem_records_tickData {record : Current.TickData} :
    record ∈ Fold.records (tickData s r) ↔
      ∃ old entry, .ok old ∈ s.items (KeyRange.ofTicks .tickData r) ∧
        EpochEntry.tickData old = .ok (record, entry) := by
  rw [Fold.mem_records, exists_comm]
  exact exists_congr fun entry => ok_mem_bind.trans (exists_congr fun old => Iff.rfl)

/-- Ids are listed under a tick only if some tick data of the range name the tick. -/
lemma exists_of_namedIds {tick : UInt32} {txIds : List String}
    (h : (namedIds s r)[tick]? = some txIds) :
    ∃ old record entry, .ok old ∈ s.items (KeyRange.ofTicks .tickData r) ∧
      EpochEntry.tickData old = .ok (record, entry) ∧ record.tickNumber = tick := by
  rw [namedIds, getElem?_tickTransactions] at h
  split at h
  · next hnamed =>
      obtain ⟨record, hrecord, htick⟩ := hnamed
      obtain ⟨old, entry, hscanned, hmoved⟩ := mem_records_tickData.1 hrecord
      exact ⟨old, record, entry, hscanned, hmoved, htick⟩
  · cases h

/-! ### Statuses -/

/-- The statuses of a tick come when all single statuses have come. -/
lemma exists_of_yields_tickStatuses {tick : UInt32} {txIds : List String}
    (h : Yields (tickStatuses s tick txIds) before entry)
    (hkey : entry.1.head? = some Namespace.tickTransactionsStatus.tag) :
    ∃ found : List Legacy.TransactionStatus,
      entry = EpochEntry.tickTransactionsStatus tick (found.map (·.toCurrent)) ∧
      ∀ status ∈ found, EpochEntry.transactionStatus status ∈ before := by
  obtain hsingle | ⟨hnone, since, rfl, hall⟩ := yields_append h
  · obtain ⟨status, -, rfl⟩ := ok_mem_map.1 hsingle.mem
    cases hkey
  · rcases hfound : (txIds.map (transactionStatus s)).mapM id with e | found
    · rw [hfound] at hall
      cases List.mem_singleton.1 hall.mem
    · rw [hfound] at hall
      cases List.mem_singleton.1 hall.mem
      have hstatuses := eq_map_of_mapM_id hfound
      refine ⟨found, rfl, fun status hstatus => List.mem_append_left _ ?_⟩
      rw [mem_leading_iff hnone, ok_mem_map]
      exact ⟨status, hstatuses ▸ List.mem_map_of_mem hstatus, rfl⟩

/-- The statuses of a tick, with what they refer to among some pairs: the single statuses, and tick
data that name the tick. -/
inductive Backed (s : Source) (m : EpochMetadata) (before : List Entry) : Entry → Prop where
  | intro {r : TickRange} {tick : UInt32} {found : List Legacy.TransactionStatus}
      {old moved : Entry} {record : Current.TickData} (range : r ∈ m.ranges)
      (scanned : .ok old ∈ s.items (KeyRange.ofTicks .tickData r))
      (moves : EpochEntry.tickData old = .ok (record, moved)) (names : record.tickNumber = tick)
      (data : moved ∈ before) (statuses : ∀ status ∈ found,
        EpochEntry.transactionStatus status ∈ before) :
      Backed s m before (EpochEntry.tickTransactionsStatus tick (found.map (·.toCurrent)))

lemma Backed.mono {all : List Entry} (h : Backed s m before entry) (hall : before ⊆ all) :
    Backed s m all entry := by
  cases h with
  | intro range scanned moves names data statuses =>
      exact .intro range scanned moves names (hall data) fun status hstatus =>
        hall (statuses status hstatus)

/-- In a range the statuses of a tick come when all tick data have come. -/
lemma backed_of_yields_range (hr : r ∈ m.ranges)
    (h : Yields (tickItems s r ++ (transactionItems s r ++ statusItems s r)) before entry)
    (hkey : entry.1.head? = some Namespace.tickTransactionsStatus.tag) :
    Backed s m before entry := by
  have hother : ∀ {ns}, Written s m 0 ns entry → ns = .tickTransactionsStatus :=
    fun hwritten => hwritten.eq_of_head? hkey
  obtain hdata | ⟨hsound, since, rfl, hrest⟩ := yields_append h
  · cases hother (written_of_tickItems hr hdata.mem)
  obtain htransactions | ⟨-, since, rfl, hstatuses⟩ := yields_append hrest
  · cases hother (written_of_transactionItems htransactions.mem)
  obtain ⟨⟨tick, txIds⟩, hnamed, group, hsuffix, hgroup⟩ := yields_flatMap hstatuses
  obtain ⟨found, rfl, hbacked⟩ := exists_of_yields_tickStatuses hgroup hkey
  obtain ⟨old, record, moved, hscanned, hmoves, hnames⟩ :=
    exists_of_namedIds (Std.ExtTreeMap.mem_toList_iff_getElem?_eq_some.1 hnamed)
  refine .intro hr hscanned hmoves hnames (List.mem_append_left _ ?_) fun status hstatus =>
    List.mem_append_right _ (List.mem_append_right _ (hsuffix.subset (hbacked status hstatus)))
  exact (mem_leading_iff hsound).2
    (ok_mem_map.2 ⟨(record, moved), ok_mem_bind.2 ⟨old, hscanned, hmoves⟩, rfl⟩)

/-- In a plan the statuses of a tick come when all has come that they refer to. -/
theorem backed_of_yields
    (h : Yields ((epochPlan s m threshold).flatMap EpochStream.items) before entry)
    (hkey : entry.1.head? = some Namespace.tickTransactionsStatus.tag) :
    Backed s m before entry := by
  have hother : ∀ {ns}, Written s m threshold ns entry → ns = .tickTransactionsStatus :=
    fun hwritten => hwritten.eq_of_head? hkey
  rw [items_epochPlan] at h
  obtain hmetadata | ⟨-, since, rfl, hrest⟩ := yields_append h
  · obtain ⟨ns, hns, hwritten⟩ := written_of_metadata hmetadata.mem
    obtain rfl := hother hwritten
    simp [metadataNamespaces] at hns
  obtain hticks | ⟨-, since, rfl, hquorum⟩ := yields_append hrest
  · obtain ⟨r, hr, block, hsuffix, hblock⟩ := yields_flatMap hticks
    exact (backed_of_yields_range hr hblock hkey).mono fun _ h =>
      List.mem_append_right _ (hsuffix.subset h)
  · obtain hvotes | hlast := List.mem_append.1 hquorum.mem
    · obtain ⟨r, hr, hvotes⟩ := List.mem_flatMap.1 hvotes
      cases hother (written_of_voteItems hr hvotes)
    · cases hother (written_of_lastItems hlast)

/-! ### The votes on the last ticks -/

lemma key_of_mem_lastItems (h : .ok entry ∈ lastItems s m) :
    entry.1 = Key.word .lastTickQuorumDataPerEpochInterval m.epoch := by
  have hwritten : Written s m 0 _ entry := written_of_lastItems h
  cases hwritten with
  | lastTickQuorumData group kept =>
      obtain ⟨record, rfl, -⟩ := EpochEntry.lastTickQuorumData_eq_ok kept
      rw [epoch_of_mem_keptVotes (mem_iff_exists_getElem?.2 ⟨_, group⟩)]

/-- The votes on the last ticks come when all keys of the plan have come but their own. -/
theorem mem_keys_of_yields
    (h : Yields ((epochPlan s m threshold).flatMap EpochStream.items) before entry)
    (hkey : entry.1.head? = some Namespace.lastTickQuorumDataPerEpochInterval.tag) {other : Entry}
    (hother : other ∈ leading ((epochPlan s m threshold).flatMap EpochStream.items)) :
    other.1 ∈ (before ++ [entry]).map Prod.fst := by
  have hkind : ∀ {ns}, Written s m threshold ns entry → ns = .lastTickQuorumDataPerEpochInterval :=
    fun hwritten => hwritten.eq_of_head? hkey
  -- all that is not made of the votes that were kept stands in front
  rw [items_epochPlan, ← List.append_assoc, ← List.append_assoc] at h hother
  obtain hfront | ⟨hnone, since, rfl, hlast⟩ := yields_append h
  · obtain (hmetadata | hticks) | hvotes :=
      (List.mem_append.1 hfront.mem).imp_left List.mem_append.1
    · obtain ⟨ns, hns, hwritten⟩ := written_of_metadata hmetadata
      obtain rfl := hkind hwritten
      simp [metadataNamespaces] at hns
    · obtain ⟨r, hr, hrange⟩ := List.mem_flatMap.1 hticks
      obtain hdata | htransactions | hstatuses :=
        (List.mem_append.1 hrange).imp_right List.mem_append.1
      · cases hkind (written_of_tickItems hr hdata)
      · cases hkind (written_of_transactionItems htransactions)
      · obtain hwritten | hwritten := written_of_statusItems hr hstatuses <;> cases hkind hwritten
    · obtain ⟨r, hr, hvotes⟩ := List.mem_flatMap.1 hvotes
      cases hkind (written_of_voteItems hr hvotes)
  · rw [leading_append_of_ok hnone] at hother
    obtain hfront | hother := List.mem_append.1 hother
    · exact List.mem_map_of_mem (List.mem_append_left _ (List.mem_append_left _ hfront))
    · rw [key_of_mem_lastItems (mem_leading hother), ← key_of_mem_lastItems hlast.mem]
      exact List.mem_map_of_mem (List.mem_append_right _ List.mem_cons_self)

end EpochPlan

end EpochSplit
