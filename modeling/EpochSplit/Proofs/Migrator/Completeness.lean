import EpochSplit.Proofs.Epoch.Completeness
import EpochSplit.Proofs.Store.Rehearsal
import Mathlib.Data.List.Forall2
/-!
# What tick data refer to in the store of an epoch

The transactions of a tick are looked up in the archive under the ids in its tick data, and what is
found is written under the tick that the tick data name and under the ids that the found records
name.  Nothing compares these names with the keys.  So a move with success leaves, for all tick
data, what the archive has for their ids (`IsAccounted`).  It leaves this under the tick and under
the ids of the tick data (`IsCovered`) if the records of the archive name their own keys, but not
for every archive.
-/

namespace EpochSplit

open EpochPlan

/-! ### References by name -/

/-- Tick data under a tick of some ranges name a tick. -/
structure NamesTick (archive : Contents) (ranges : List TickRange) (tick named : UInt32) :
    Prop where
  range : ∃ r ∈ ranges, (KeyRange.ofTicks .tickData r).contains (Key.word .tickData tick) = true
  name : ∃ stored t, archive[Key.word .tickData tick]? = some stored ∧
    Wire.decode Legacy.TickData .tickData stored = .ok t ∧ t.tickNumber = named

/-- What the archive has for the ids in tick data is there, under the names that it has itself. -/
structure IsAccounted (ranges : List TickRange) (archive target : Contents)
    (data : Current.TickData) : Prop where
  /-- There are statuses of the tick that the tick data name.  They are the statuses of these very
  ids, in order, unless other tick data name the same tick. -/
  statuses : ∃ record : Current.TickTransactionsStatus,
    target[Key.word .tickTransactionsStatus data.tickNumber]? = some (Wire.encode record) ∧
      ((∀ tick tick', NamesTick archive ranges tick data.tickNumber →
          NamesTick archive ranges tick' data.tickNumber → tick = tick') →
        ∃ found, record.transactions = found.map Legacy.TransactionStatus.toCurrent ∧
          List.Forall₂ (fun txId status =>
            (Source.ofContents archive).status? txId = .ok (some status))
            data.transactionIds found)
  transaction : ∀ txId ∈ data.transactionIds, ∃ t,
    (Source.ofContents archive).transaction? txId = .ok (some t) ∧
      Key.text .transaction t.txId ∈ target
  status : ∀ txId ∈ data.transactionIds, ∃ status,
    (Source.ofContents archive).status? txId = .ok (some status) ∧
      Key.text .transactionStatus status.txId ∈ target

/-! ### References by key -/

/-- All that tick data under a tick refer to is there: under the tick a status for each id, in
order, and under each id the transaction and its status. -/
structure IsCovered (target : Contents) (tick : UInt32) (data : Current.TickData) : Prop where
  statuses : ∃ record : Current.TickTransactionsStatus,
    target[Key.word .tickTransactionsStatus tick]? = some (Wire.encode record) ∧
      record.transactions.map (·.txId) = data.transactionIds
  transaction : ∀ txId ∈ data.transactionIds, Key.text .transaction txId ∈ target
  status : ∀ txId ∈ data.transactionIds, Key.text .transactionStatus txId ∈ target

/-- Contents in which all is there that tick data refer to. -/
def IsComplete (target : Contents) : Prop :=
  ∀ tick value, target[Key.word .tickData tick]? = some value →
    ∃ data : Current.TickData, value = Wire.encode data ∧ IsCovered target tick data

/-- The tick data, transactions and statuses of an archive name the ticks and ids that they are
stored under. -/
structure NamesItself (archive : Contents) : Prop where
  tickData : ∀ tick stored t, archive[Key.word .tickData tick]? = some stored →
    Wire.decode Legacy.TickData .tickData stored = .ok t → t.tickNumber = tick
  transaction : ∀ txId t, (Source.ofContents archive).transaction? txId = .ok (some t) →
    t.txId = txId
  status : ∀ txId status, (Source.ofContents archive).status? txId = .ok (some status) →
    status.txId = txId

/-- The value under a key of an archive, read as a record. -/
lemma record?_eq_ok {archive : Contents} {M : Type} [Wire.Record M] {ns : Namespace} {key : Bytes}
    {a : M} (h : (Source.ofContents archive).record? M ns key = .ok (some a)) :
    ∃ stored, archive[key]? = some stored ∧ Wire.decode M ns stored = .ok a := by
  obtain ⟨stored, hget, hdecode⟩ := Source.exists_of_record? h
  exact ⟨stored, Except.ok.inj hget, hdecode⟩

/-- Whether a pair of an archive names its own key. -/
def namesKey (e : Entry) : Bool :=
  match e.1.head?.bind Namespace.ofTag? with
  | some .tickData =>
      (Wire.decode Legacy.TickData .tickData e.2).toOption.all fun t =>
        Key.word .tickData t.tickNumber = e.1
  | some .transaction =>
      (Wire.decode Legacy.Transaction .transaction e.2).toOption.all fun t =>
        Key.text .transaction t.txId = e.1
  | some .transactionStatus =>
      (Wire.decode Legacy.TransactionStatus .transactionStatus e.2).toOption.all fun status =>
        Key.text .transactionStatus status.txId = e.1
  | _ => true

lemma namesItself_of_all {archive : Contents} (h : archive.toList.all namesKey = true) :
    NamesItself archive := by
  have hnames : ∀ {key stored : Bytes}, archive[key]? = some stored →
      namesKey (key, stored) = true := fun hstored =>
    List.all_eq_true.1 h _ (Std.ExtTreeMap.mem_toList_iff_getElem?_eq_some.2 hstored)
  refine ⟨fun tick stored t hstored ht => ?_, fun txId t ht => ?_, fun txId status hstatus => ?_⟩
  · have hname : (Wire.decode Legacy.TickData .tickData stored).toOption.all
      (fun t => Key.word .tickData t.tickNumber = Key.word .tickData tick) = true := hnames hstored
    rw [ht] at hname
    exact Key.word_inj rfl (of_decide_eq_true hname)
  · obtain ⟨stored, hstored, ht⟩ := record?_eq_ok ht
    have hname : (Wire.decode Legacy.Transaction .transaction stored).toOption.all
      (fun t => Key.text .transaction t.txId = Key.text .transaction txId) = true := hnames hstored
    rw [ht] at hname
    exact Key.text_inj rfl rfl (of_decide_eq_true hname)
  · obtain ⟨stored, hstored, hstatus⟩ := record?_eq_ok hstatus
    have hname : (Wire.decode Legacy.TransactionStatus .transactionStatus stored).toOption.all
      (fun status => Key.text .transactionStatus status.txId = Key.text .transactionStatus txId) =
        true := hnames hstored
    rw [hstatus] at hname
    exact Key.text_inj rfl rfl (of_decide_eq_true hname)

/-- Where names and keys agree, what is accounted for is covered. -/
lemma IsAccounted.isCovered {ranges : List TickRange} {archive target : Contents}
    {data : Current.TickData} (h : IsAccounted ranges archive target data)
    (hself : NamesItself archive) : IsCovered target data.tickNumber data where
  statuses := by
    obtain ⟨record, hrecord, hlist⟩ := h.statuses
    have hkey : ∀ {tick}, NamesTick archive ranges tick data.tickNumber →
        data.tickNumber = tick := fun ⟨_, stored, t, hstored, ht, hname⟩ =>
      hname.symm.trans (hself.tickData _ stored t hstored ht)
    obtain ⟨found, heq, hfound⟩ := hlist fun _ _ h h' => (hkey h).symm.trans (hkey h')
    refine ⟨record, hrecord, ?_⟩
    have hids : List.Forall₂ (fun txId status => status.txId = txId) data.transactionIds found :=
      hfound.imp hself.status
    rw [heq, List.map_map, ← List.forall₂_eq_eq_eq, List.forall₂_map_left_iff]
    exact hids.flip
  transaction txId hid := by
    obtain ⟨t, ht, hmem⟩ := h.transaction txId hid
    rwa [hself.transaction txId t ht] at hmem
  status txId hid := by
    obtain ⟨status, hstatus, hmem⟩ := h.status txId hid
    rwa [hself.status txId status hstatus] at hmem

section Plan

variable {archive : Contents} {m : EpochMetadata} {threshold : UInt32} {r : TickRange}
  {old entry : Entry} {data : Current.TickData}

/-- Tick data in a range are under some tick, and they name the tick that they name. -/
lemma namesTick_of_scanned (hr : r ∈ m.ranges)
    (hold : old ∈ archive.scan (KeyRange.ofTicks .tickData r))
    (hmoved : EpochEntry.tickData old = .ok (data, entry)) :
    ∃ tick, old.1 = Key.word .tickData tick ∧
      NamesTick archive m.ranges tick data.tickNumber := by
  obtain ⟨tick, t, hkey, hdecode, rfl, -⟩ := EpochEntry.exists_of_tickData hmoved
  obtain ⟨hstored, hcontains⟩ := Contents.mem_scan.1 hold
  rw [hkey] at hstored hcontains
  exact ⟨tick, hkey, ⟨r, hr, hcontains⟩, old.2, t, hstored, hdecode, rfl⟩

/-- If no other tick data name the tick, the ids under it are those in the tick data. -/
lemma namedIds_eq_of_namesTick (hr : r ∈ m.ranges)
    (hold : old ∈ archive.scan (KeyRange.ofTicks .tickData r))
    (hmoved : EpochEntry.tickData old = .ok (data, entry))
    (honce : ∀ tick tick', NamesTick archive m.ranges tick data.tickNumber →
      NamesTick archive m.ranges tick' data.tickNumber → tick = tick')
    {r' : TickRange} (hr' : r' ∈ m.ranges) {txIds : List String}
    (hnamed : (namedIds (.ofContents archive) r')[data.tickNumber]? = some txIds) :
    txIds = data.transactionIds := by
  obtain ⟨tick, hkey, hnames⟩ := namesTick_of_scanned hr hold hmoved
  refine eq_of_namedIds old.1 hnamed fun old' hold' data' hnaming => ?_
  obtain ⟨⟨entry', hmoved'⟩, hname'⟩ := naming?_eq_some.1 hnaming
  obtain ⟨tick', hkey', hnames'⟩ := namesTick_of_scanned hr' hold' hmoved'
  rw [hname'] at hnames'
  have hsame : old'.1 = old.1 := by rw [hkey, hkey', honce tick tick' hnames hnames']
  have hvalue := (Contents.mem_scan.1 hold').1
  rw [hsame, (Contents.mem_scan.1 hold).1] at hvalue
  obtain rfl : old' = old := Prod.ext hsame (Option.some.inj hvalue).symm
  rw [hmoved] at hmoved'
  cases hmoved'
  exact ⟨rfl, rfl⟩

/-- Statuses that are found one by one are the statuses of the archive. -/
lemma forall₂_of_map_eq {s : Source} {txIds : List String} {found : List Legacy.TransactionStatus}
    (h : txIds.map (transactionStatus s) = found.map .ok) :
    List.Forall₂ (fun txId status => s.status? txId = .ok (some status)) txIds found := by
  rw [← List.forall₂_eq_eq_eq, List.forall₂_map_left_iff, List.forall₂_map_right_iff] at h
  exact h.imp fun txId status hstatus => require_eq_ok hstatus

/-- Tick data that are found in the store come from a range of the archive. -/
lemma exists_of_getElem?_tickData {tick : UInt32} {value : Bytes}
    (hvalue : (Contents.overlay ∅ ((epochPlan (.ofContents archive) m threshold).flatMap
      EpochStream.entries))[Key.word .tickData tick]? = some value) :
    ∃ r ∈ m.ranges, ∃ old data entry, old ∈ archive.scan (KeyRange.ofTicks .tickData r) ∧
      EpochEntry.tickData old = .ok (data, entry) ∧ old.1 = Key.word .tickData tick ∧
      value = Wire.encode data := by
  have hkind : (Key.word .tickData tick).head? = some Namespace.tickData.tag := rfl
  obtain ⟨entry, hwritten, hpair⟩ := exists_written_of_getElem? hvalue hkind
  cases hwritten with
  | @tickData r old _ data range scanned moved =>
      obtain ⟨-, t, -, -, rfl, rfl⟩ := EpochEntry.exists_of_tickData moved
      have hold := Contents.mem_scan.2 (Source.mem_items_ofContents.1 scanned)
      exact ⟨r, range, old, _, _, hold, moved, congrArg Prod.fst hpair,
        (congrArg Prod.snd hpair).symm⟩

/-- Statuses that are found in the store under a tick are those of the ids under the tick in some
range. -/
lemma exists_of_getElem?_statuses {tick : UInt32} {value : Bytes}
    (hvalue : (Contents.overlay ∅ ((epochPlan (.ofContents archive) m threshold).flatMap
      EpochStream.entries))[Key.word .tickTransactionsStatus tick]? = some value) :
    ∃ r ∈ m.ranges, ∃ txIds, ∃ found : List Legacy.TransactionStatus,
      (namedIds (.ofContents archive) r)[tick]? = some txIds ∧
      txIds.map (transactionStatus (.ofContents archive)) = found.map .ok ∧
      value = Wire.encode (⟨found.map (·.toCurrent)⟩ : Current.TickTransactionsStatus) := by
  have hkind : (Key.word .tickTransactionsStatus tick).head? =
      some Namespace.tickTransactionsStatus.tag := rfl
  obtain ⟨entry, hwritten, hpair⟩ := exists_written_of_getElem? hvalue hkind
  cases hwritten with
  | @tickTransactionsStatus r tick' txIds found range named all =>
      obtain rfl : tick' = tick := Key.word_inj rfl (congrArg Prod.fst hpair)
      exact ⟨r, range, txIds, found, named, eq_map_of_mapM_id all, (congrArg Prod.snd hpair).symm⟩

variable
  (hsound : (epochPlan (.ofContents archive) m threshold).findSome? EpochStream.fault? = none)

include hsound

/-- Tick data of a plan without a fault are accounted for. -/
lemma isAccounted_overlay (hr : r ∈ m.ranges)
    (hold : old ∈ archive.scan (KeyRange.ofTicks .tickData r))
    (hmoved : EpochEntry.tickData old = .ok (data, entry)) :
    IsAccounted m.ranges archive
      (Contents.overlay ∅
        ((epochPlan (.ofContents archive) m threshold).flatMap EpochStream.entries)) data := by
  have hscanned := Source.mem_items_ofContents.2 (Contents.mem_scan.1 hold)
  obtain ⟨txIds, hnamed, hids⟩ :=
    exists_namedIds (mem_records_tickData.2 ⟨old, entry, hscanned, hmoved⟩)
  obtain ⟨found, hfound, hall, hsingle⟩ := exists_mem_of_statuses hsound hr hnamed
  refine ⟨?_, fun txId hid => ?_, fun txId hid => ?_⟩
  · obtain ⟨value, hvalue⟩ := mem_iff_exists_getElem?.1
      (Contents.mem_overlay.2 (.inl (List.mem_map_of_mem hall)))
    -- another range may have been the last to write under the tick
    obtain ⟨r', hr', txIds', found', hnamed', hfound', rfl⟩ := exists_of_getElem?_statuses hvalue
    refine ⟨_, hvalue, fun honce => ⟨found', rfl, ?_⟩⟩
    rw [← namedIds_eq_of_namesTick hr hold hmoved honce hr' hnamed']
    exact forall₂_of_map_eq hfound'
  · obtain ⟨t, ht, hmem⟩ := exists_mem_of_transactions hsound hr hnamed (hids hid)
    exact ⟨t, ht, Contents.mem_overlay.2 (.inl (List.mem_map_of_mem hmem))⟩
  · have hmem := List.mem_map_of_mem (f := transactionStatus (.ofContents archive)) (hids hid)
    rw [hfound] at hmem
    obtain ⟨status, hstatus, heq⟩ := List.mem_map.1 hmem
    exact ⟨status, require_eq_ok heq.symm,
      Contents.mem_overlay.2 (.inl (List.mem_map_of_mem (hsingle status hstatus)))⟩

end Plan

namespace Rehearsal

/-- A move with success into an empty store leaves, for all tick data in it, what the archive has
for their ids, under the names that these records have themselves.  Where the records of the archive
name their own keys, all is there that the tick data refer to. -/
theorem migrateEpoch_complete {m m' : Migrator} {e : UInt32} {w w' : Rehearsal}
    (hempty : w.held e = ∅) (h : m.migrateEpoch site e w = (.ok (), m', w')) :
    ∃ metadata, m.metadata.get? e = some metadata ∧
      (∀ tick value, (w'.held e)[Key.word .tickData tick]? = some value →
        ∃ data, value = Wire.encode data ∧
          IsAccounted metadata.ranges w.source (w'.held e) data) ∧
      (NamesItself w.source → IsComplete (w'.held e)) := by
  rw [migrateEpoch_site] at h
  obtain ⟨metadata, target, opened, hmd, -, hsound, hheld⟩ :=
    Migrator.view_migrateEpoch_ok tracks_held h
  rw [hempty] at hheld
  rw [hheld]
  refine ⟨metadata, hmd, fun tick value hvalue => ?_, fun hself tick value hvalue => ?_⟩
  · obtain ⟨r, hr, old, data, entry, hold, hmoved, -, rfl⟩ := exists_of_getElem?_tickData hvalue
    exact ⟨data, rfl, isAccounted_overlay hsound hr hold hmoved⟩
  · obtain ⟨r, hr, old, data, entry, hold, hmoved, hkey, rfl⟩ := exists_of_getElem?_tickData hvalue
    obtain ⟨-, t, -, hdecode, rfl, -⟩ := EpochEntry.exists_of_tickData hmoved
    have hstored := (Contents.mem_scan.1 hold).1
    rw [hkey] at hstored
    have htick : t.toCurrent.tickNumber = tick := hself.tickData tick old.2 t hstored hdecode
    have hcovered := (isAccounted_overlay hsound hr hold hmoved).isCovered hself
    rw [htick] at hcovered
    exact ⟨t.toCurrent, rfl, hcovered⟩

/-! ### Two small archives -/

/-- The move of the epoch of three ticks. -/
def threeTicksMove (named : UInt32) (txId : String) : Except Error Unit × Migrator × Rehearsal :=
  (Migrator.fresh site {} (threeTicks named txId)).migrateEpoch site 5 (threeTicks named txId)

/-- If the first tick data name their own tick and the last records their own id, all is there that
the tick data refer to. -/
theorem migrateEpoch_complete_threeTicks :
    (threeTicks 10 "c").held 5 = ∅ ∧ (threeTicksMove 10 "c").1 = .ok () ∧
      NamesItself (threeTicks 10 "c").source ∧
      Key.word .tickData 10 ∈ (threeTicksMove 10 "c").2.2.held 5 ∧
      IsComplete ((threeTicksMove 10 "c").2.2.held 5) := by
  have hempty : (threeTicks 10 "c").held 5 = ∅ := rfl
  have hok : (threeTicksMove 10 "c").1 = .ok () := by decide +kernel
  have hdata : ((threeTicksMove 10 "c").2.2.held 5).contains (Key.word .tickData 10) = true := by
    decide +kernel
  have hself : NamesItself (threeTicks 10 "c").source := namesItself_of_all (by decide +kernel)
  rw [threeTicksMove] at hok hdata ⊢
  obtain ⟨metadata, -, -, hcomplete⟩ :=
    migrateEpoch_complete hempty (Migrator.migrateEpoch_of_outcome hok)
  exact ⟨hempty, hok, hself, Std.ExtTreeMap.contains_iff_mem.1 hdata, hcomplete hself⟩

/-- If the first tick data name the second tick, there are no statuses under their own tick, and if
the last records name another id, nothing is there under the id in the last tick data.  The move
succeeds all the same. -/
theorem not_isComplete_threeTicks :
    (threeTicks 11 "d").held 5 = ∅ ∧ (threeTicksMove 11 "d").1 = .ok () ∧
      Key.word .tickTransactionsStatus 10 ∉ (threeTicksMove 11 "d").2.2.held 5 ∧
      Key.text .transaction "c" ∉ (threeTicksMove 11 "d").2.2.held 5 ∧
      Key.text .transactionStatus "c" ∉ (threeTicksMove 11 "d").2.2.held 5 ∧
      ¬ IsComplete ((threeTicksMove 11 "d").2.2.held 5) := by
  have hok : (threeTicksMove 11 "d").1 = .ok () := by decide +kernel
  have hdata : ((threeTicksMove 11 "d").2.2.held 5).contains (Key.word .tickData 10) = true := by
    decide +kernel
  have hother : ([Key.word .tickTransactionsStatus 10, Key.text .transaction "c",
      Key.text .transactionStatus "c"].all fun key =>
        !((threeTicksMove 11 "d").2.2.held 5).contains key) = true := by decide +kernel
  have habsent : ∀ key ∈ [Key.word .tickTransactionsStatus 10, Key.text .transaction "c",
      Key.text .transactionStatus "c"], key ∉ (threeTicksMove 11 "d").2.2.held 5 :=
    fun key hkey hmem => by
      have hnot := List.all_eq_true.1 hother key hkey
      rw [Std.ExtTreeMap.contains_iff_mem.2 hmem] at hnot
      cases hnot
  refine ⟨rfl, hok, habsent _ List.mem_cons_self,
    habsent _ (List.mem_cons_of_mem _ List.mem_cons_self),
    habsent _ (List.mem_cons_of_mem _ (List.mem_cons_of_mem _ List.mem_cons_self)),
    fun hcomplete => ?_⟩
  obtain ⟨value, hvalue⟩ :=
    mem_iff_exists_getElem?.1 (Std.ExtTreeMap.contains_iff_mem.1 hdata)
  obtain ⟨data, -, hcovered⟩ := hcomplete 10 value hvalue
  obtain ⟨record, hrecord, -⟩ := hcovered.statuses
  exact habsent _ List.mem_cons_self (mem_iff_exists_getElem?.2 ⟨_, hrecord⟩)

end Rehearsal

end EpochSplit
