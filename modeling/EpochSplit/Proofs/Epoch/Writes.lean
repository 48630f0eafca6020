import EpochSplit.Proofs.Epoch.Entry
import EpochSplit.Proofs.Epoch.Script
import EpochSplit.Proofs.Store.Overlay
/-!
# What a plan writes

The pairs that a plan writes, by the kind of their record, and where in the archive each comes from
(`written_of_mem`).  A pair that is read from a processed range keeps its key, so the kind of a pair
can be told from the first byte of its key.
-/

namespace EpochSplit

/-! ### Items that are not errors -/

lemma Source.mem_items_ofContents {archive : Contents} {r : KeyRange} {old : Entry} :
    .ok old ∈ (Source.ofContents archive).items r ↔
      archive[old.1]? = some old.2 ∧ r.contains old.1 = true := by
  rw [Source.items_ofContents, List.mem_map]
  constructor
  · rintro ⟨e, he, heq⟩
    cases heq
    exact Contents.mem_scan.1 he
  · exact fun h => ⟨old, Contents.mem_scan.2 h, rfl⟩

/-- A record that is found is read in the value under its key. -/
lemma Source.exists_of_record? {s : Source} {M : Type} [Wire.Record M] {ns : Namespace}
    {key : Bytes} {a : M} (h : s.record? M ns key = .ok (some a)) :
    ∃ stored, s.get key = .ok (some stored) ∧ Wire.decode M ns stored = .ok a := by
  unfold record? at h
  rcases hget : s.get key with fault | _ | stored
  · rw [hget] at h
    cases h
  · rw [hget] at h
    cases h
  · rcases hdecode : Wire.decode M ns stored with fault | a'
    · simp only [hget, hdecode, Except.mapError, bind, Except.bind] at h
      cases h
    · simp only [hget, hdecode, Except.mapError, bind, Except.bind] at h
      cases h
      exact ⟨stored, rfl, hdecode⟩

lemma ok_mem_map {α β : Type} {f : α → β} {items : List (Except Error α)} {b : β} :
    .ok b ∈ items.map (·.map f) ↔ ∃ a, .ok a ∈ items ∧ f a = b := by
  rw [List.mem_map]
  constructor
  · rintro ⟨e | a, hitem, heq⟩
    · cases heq
    · cases heq
      exact ⟨a, hitem, rfl⟩
  · rintro ⟨a, hitem, rfl⟩
    exact ⟨.ok a, hitem, rfl⟩

lemma ok_mem_bind {α β : Type} {f : α → Except CodecFault β} {items : List (Except Error α)}
    {b : β} :
    .ok b ∈ items.map (fun item => item.bind fun a => (f a).mapError .codec) ↔
      ∃ a, .ok a ∈ items ∧ f a = .ok b := by
  rw [List.mem_map]
  constructor
  · rintro ⟨e | a, hitem, heq⟩
    · cases heq
    · refine ⟨a, hitem, ?_⟩
      simp only [Except.bind] at heq
      rcases hf : f a with fault | b'
      · rw [hf] at heq
        cases heq
      · rw [hf] at heq
        cases heq
        rfl
  · rintro ⟨a, hitem, hf⟩
    exact ⟨.ok a, hitem, by simp only [Except.bind, hf, Except.mapError]⟩

lemma Fold.ok_mem_attributed {V : Type} [Attributed V] {f : Fold V}
    {items : List (Except Error (V × Entry))} {entry : Entry} :
    .ok entry ∈ f.attributed items ↔
      ∃ v group, .ok (v, entry) ∈ items ∧ f.groupOf v = .ok group := by
  rw [attributed, List.mem_map]
  constructor
  · rintro ⟨e | ⟨v, entry'⟩, hitem, heq⟩
    · cases heq
    · simp only [bind, Except.bind] at heq
      rcases hgroup : f.groupOf v with fault | group
      · rw [hgroup] at heq
        cases heq
      · rw [hgroup] at heq
        cases heq
        exact ⟨v, group, hitem, hgroup⟩
  · rintro ⟨v, group, hitem, hgroup⟩
    refine ⟨.ok (v, entry), hitem, ?_⟩
    simp only [bind, Except.bind, hgroup]
    rfl

namespace EpochPlan

/-! ### What passes through a plan -/

/-- The transaction ids that the tick data of a range name, by the tick that these name
themselves. -/
def namedIds (s : Source) (r : TickRange) : TickTransactions :=
  tickTransactions (Fold.records (tickData s r))

/-- The votes on the ticks of all processed ranges. -/
def votes (s : Source) (m : EpochMetadata) : List Legacy.QuorumTickData :=
  Fold.records (m.ranges.flatMap (quorumData s))

/-- What the fold over the votes of an epoch keeps. -/
def keptVotes (s : Source) (m : EpochMetadata) : Fold Legacy.QuorumTickData :=
  (fold m).observeAll (votes s m)

/-! ### The items of a plan -/

/-- The tick data of a range. -/
def tickItems (s : Source) (r : TickRange) : List (Except Error Entry) :=
  (tickData s r).map (·.map Prod.snd)

/-- The transactions that the tick data of a range name. -/
def transactionItems (s : Source) (r : TickRange) : List (Except Error Entry) :=
  ((namedIds s r).toList.flatMap Prod.snd).map (transaction s)

/-- The statuses of these transactions, tick by tick. -/
def statusItems (s : Source) (r : TickRange) : List (Except Error Entry) :=
  (namedIds s r).toList.flatMap fun p => tickStatuses s p.1 p.2

/-- The votes on the ticks of a range. -/
def voteItems (s : Source) (m : EpochMetadata) (r : TickRange) : List (Except Error Entry) :=
  (fold m).attributed (quorumData s r)

/-- The votes on the last ticks. -/
def lastItems (s : Source) (m : EpochMetadata) : List (Except Error Entry) :=
  (keptVotes s m).kept EpochEntry.lastTickQuorumData

/-- The items of a plan, range by range. -/
theorem items_epochPlan (s : Source) (m : EpochMetadata) (threshold : UInt32) :
    (epochPlan s m threshold).flatMap EpochStream.items =
      (metadata s m threshold).items ++
        ((m.ranges.flatMap fun r => tickItems s r ++ (transactionItems s r ++ statusItems s r)) ++
          (m.ranges.flatMap (voteItems s m) ++ lastItems s m)) := by
  have hticks : ∀ r, (tickRange s r).flatMap EpochStream.items =
      tickItems s r ++ (transactionItems s r ++ statusItems s r) := fun r => by
    simp only [tickRange, List.flatMap_cons, List.flatMap_nil, List.append_nil]
    rfl
  have hquorum : (quorum s m).flatMap EpochStream.items =
      m.ranges.flatMap (voteItems s m) ++ lastItems s m := by
    simp only [quorum, List.flatMap_append, List.flatMap_map, List.map_map, List.flatMap_cons,
      List.flatMap_nil, List.append_nil]
    rfl
  rw [epochPlan, List.flatMap_cons, List.flatMap_append, List.flatMap_assoc, hquorum]
  simp only [hticks]

lemma mem_items_epochPlan {s : Source} {m : EpochMetadata} {threshold : UInt32}
    {item : Except Error Entry} :
    item ∈ (epochPlan s m threshold).flatMap EpochStream.items ↔
      item ∈ (metadata s m threshold).items ∨
      (∃ r ∈ m.ranges, item ∈ tickItems s r ∨ item ∈ transactionItems s r ∨
        item ∈ statusItems s r) ∨
      (∃ r ∈ m.ranges, item ∈ voteItems s m r) ∨ item ∈ lastItems s m := by
  simp only [items_epochPlan, List.mem_append, List.mem_flatMap]

end EpochPlan

/-! ### The kinds of pairs -/

/-- The pairs that a plan may write under the keys of a namespace, with what the archive has to hold
for it. -/
inductive Written (s : Source) (m : EpochMetadata) (threshold : UInt32) :
    Namespace → Entry → Prop where
  | computors {c : Legacy.Computors} (found : s.computors? m.epoch = .ok (some c)) :
      Written s m threshold .computorList (EpochEntry.computors m.epoch c)
  | processedTickIntervals {p : Legacy.ProcessedTickIntervalsPerEpoch}
      (found : s.intervals? m.epoch = .ok (some p)) (nonempty : p.intervals.isEmpty = false) :
      Written s m threshold .processedTickIntervals (EpochEntry.processedTickIntervals p)
  | lastProcessedTick :
      Written s m threshold .lastProcessedTick (EpochEntry.lastProcessedTick m.epoch m.lastTick)
  | voteSignature {signature : UInt32} (signed : threshold < m.epoch)
      (found : s.voteSignature? m.epoch = .ok (some signature)) :
      Written s m threshold .targetTickVoteSignature (EpochEntry.voteSignature m.epoch signature)
  | tickData {r : TickRange} {old entry : Entry} {record : Current.TickData} (range : r ∈ m.ranges)
      (scanned : .ok old ∈ s.items (KeyRange.ofTicks .tickData r))
      (moved : EpochEntry.tickData old = .ok (record, entry)) :
      Written s m threshold .tickData entry
  | transaction {txId : String} {t : Legacy.Transaction}
      (found : s.transaction? txId = .ok (some t)) :
      Written s m threshold .transaction (EpochEntry.transaction t)
  | transactionStatus {txId : String} {status : Legacy.TransactionStatus}
      (found : s.status? txId = .ok (some status)) :
      Written s m threshold .transactionStatus (EpochEntry.transactionStatus status)
  | tickTransactionsStatus {r : TickRange} {tick : UInt32} {txIds : List String}
      {found : List Legacy.TransactionStatus} (range : r ∈ m.ranges)
      (named : (EpochPlan.namedIds s r)[tick]? = some txIds)
      (all : (txIds.map (EpochPlan.transactionStatus s)).mapM id = .ok found) :
      Written s m threshold .tickTransactionsStatus
        (EpochEntry.tickTransactionsStatus tick (found.map (·.toCurrent)))
  | quorumData {r : TickRange} {old entry : Entry} {votes : Legacy.QuorumTickData}
      {group : UInt32 × Nat} (range : r ∈ m.ranges)
      (scanned : .ok old ∈ s.items (KeyRange.ofTicks .quorumData r))
      (moved : EpochEntry.quorumData old = .ok (votes, entry))
      (attributed : (EpochPlan.fold m).groupOf votes = .ok group) :
      Written s m threshold .quorumData entry
  | lastTickQuorumData {epoch : UInt32} {selected : Std.ExtTreeMap Nat Legacy.QuorumTickData}
      {entry : Entry} (group : (EpochPlan.keptVotes s m).groups[epoch]? = some selected)
      (kept : EpochEntry.lastTickQuorumData epoch selected = .ok entry) :
      Written s m threshold .lastTickQuorumDataPerEpochInterval entry

/-- The first byte of the key of a pair tells its kind. -/
theorem Written.head? {s : Source} {m : EpochMetadata} {threshold : UInt32} {ns : Namespace}
    {entry : Entry} (h : Written s m threshold ns entry) : entry.1.head? = some ns.tag := by
  cases h with
  | tickData range scanned moved =>
      obtain ⟨⟨tick, hkey⟩, -, -⟩ := EpochEntry.tickData_eq_ok moved
      rw [hkey]
      rfl
  | quorumData range scanned moved attributed =>
      obtain ⟨⟨tick, hkey⟩, -, -⟩ := EpochEntry.quorumData_eq_ok moved
      rw [hkey]
      rfl
  | lastTickQuorumData group kept =>
      obtain ⟨record, rfl, -⟩ := EpochEntry.lastTickQuorumData_eq_ok kept
      rfl
  | computors | processedTickIntervals | lastProcessedTick | voteSignature | transaction
  | transactionStatus | tickTransactionsStatus => rfl

/-- The kind of a pair is the one that its key tells. -/
lemma Written.eq_of_head? {s : Source} {m : EpochMetadata} {threshold : UInt32}
    {ns ns' : Namespace} {entry : Entry} (h : Written s m threshold ns entry)
    (hkey : entry.1.head? = some ns'.tag) : ns = ns' := by
  rw [h.head?] at hkey
  exact Namespace.tag_injective (Option.some.inj hkey)

namespace EpochPlan

variable {s : Source} {m : EpochMetadata} {threshold : UInt32} {r : TickRange} {entry : Entry}

lemma require_eq_ok {α : Type} {found : Except Error (Option α)} {missing : ConsistencyFault}
    {a : α} (h : require found missing = .ok a) : found = .ok (some a) := by
  unfold require at h
  rcases found with e | _ | a'
  · cases h
  · cases h
  · cases h
    rfl

lemma map_require_eq_ok {α β : Type} {found : Except Error (Option α)}
    {missing : ConsistencyFault} {f : α → β} {b : β}
    (h : (do let a ← require found missing; return f a) = .ok b) :
    ∃ a, found = .ok (some a) ∧ f a = b := by
  rcases hreq : require found missing with e | a
  · rw [hreq] at h
    cases h
  · rw [hreq] at h
    cases h
    exact ⟨a, require_eq_ok hreq, rfl⟩

lemma mapError_codec_eq_ok {α : Type} {found : Except CodecFault α} {a : α}
    (h : found.mapError Error.codec = .ok a) : found = .ok a := by
  cases found with
  | error fault => cases h
  | ok a' =>
      cases h
      rfl

/-- The namespaces of the metadata of an epoch. -/
def metadataNamespaces : List Namespace :=
  [.computorList, .processedTickIntervals, .lastProcessedTick, .targetTickVoteSignature]

lemma written_of_metadata (h : .ok entry ∈ (metadata s m threshold).items) :
    ∃ ns ∈ metadataNamespaces, Written s m threshold ns entry := by
  simp only [metadata, List.mem_append, List.mem_cons, List.not_mem_nil, or_false] at h
  obtain (h | h | h) | h := h
  · obtain ⟨c, hc, rfl⟩ := map_require_eq_ok h.symm
    exact ⟨_, by decide, .computors hc⟩
  · obtain ⟨p, hp, rfl⟩ := map_require_eq_ok h.symm
    rcases hfound : s.intervals? m.epoch with e | p?
    · rw [hfound] at hp
      cases hp
    · rw [hfound] at hp
      obtain ⟨rfl, hnonempty⟩ := Option.filter_eq_some_iff.1 (Except.ok.inj hp)
      exact ⟨_, by decide, .processedTickIntervals hfound (by simpa using hnonempty)⟩
  · cases h
    exact ⟨_, by decide, .lastProcessedTick⟩
  · split at h
    · next hsigned =>
        obtain ⟨signature, hsignature, rfl⟩ := map_require_eq_ok (List.mem_singleton.1 h).symm
        exact ⟨_, by decide, .voteSignature hsigned hsignature⟩
    · cases h

lemma written_of_tickItems (hr : r ∈ m.ranges) (h : .ok entry ∈ tickItems s r) :
    Written s m threshold .tickData entry := by
  obtain ⟨⟨record, entry⟩, hitem, rfl⟩ := ok_mem_map.1 h
  obtain ⟨old, hscanned, hmoved⟩ := ok_mem_bind.1 hitem
  exact .tickData hr hscanned hmoved

lemma written_of_transactionItems (h : .ok entry ∈ transactionItems s r) :
    Written s m threshold .transaction entry := by
  obtain ⟨txId, -, heq⟩ := List.mem_map.1 h
  obtain ⟨t, ht, rfl⟩ := map_require_eq_ok heq
  exact .transaction ht

/-- The pairs of the statuses of a tick: that of each transaction, or that of all together. -/
lemma ok_mem_tickStatuses {tick : UInt32} {txIds : List String}
    (h : .ok entry ∈ tickStatuses s tick txIds) :
    (∃ txId ∈ txIds, ∃ status, s.status? txId = .ok (some status) ∧
      entry = EpochEntry.transactionStatus status) ∨
    ∃ found, (txIds.map (transactionStatus s)).mapM id = .ok found ∧
      entry = EpochEntry.tickTransactionsStatus tick (found.map (·.toCurrent)) := by
  obtain hitem | hitem := List.mem_append.1 h
  · obtain ⟨status, hstatus, rfl⟩ := ok_mem_map.1 hitem
    obtain ⟨txId, htxId, heq⟩ := List.mem_map.1 hstatus
    exact .inl ⟨txId, htxId, status, require_eq_ok heq, rfl⟩
  · rcases hfound : (txIds.map (transactionStatus s)).mapM id with e | found
    · rw [hfound] at hitem
      cases List.mem_singleton.1 hitem
    · rw [hfound] at hitem
      cases List.mem_singleton.1 hitem
      exact .inr ⟨found, rfl, rfl⟩

lemma written_of_statusItems (hr : r ∈ m.ranges) (h : .ok entry ∈ statusItems s r) :
    Written s m threshold .transactionStatus entry ∨
      Written s m threshold .tickTransactionsStatus entry := by
  obtain ⟨⟨tick, txIds⟩, hnamed, hitem⟩ := List.mem_flatMap.1 h
  obtain ⟨txId, -, status, hstatus, rfl⟩ | ⟨found, hfound, rfl⟩ := ok_mem_tickStatuses hitem
  · exact .inl (.transactionStatus hstatus)
  · exact .inr (.tickTransactionsStatus hr
      (Std.ExtTreeMap.mem_toList_iff_getElem?_eq_some.1 hnamed) hfound)

lemma written_of_voteItems (hr : r ∈ m.ranges) (h : .ok entry ∈ voteItems s m r) :
    Written s m threshold .quorumData entry := by
  obtain ⟨votes, group, hitem, hgroup⟩ := Fold.ok_mem_attributed.1 h
  obtain ⟨old, hscanned, hmoved⟩ := ok_mem_bind.1 hitem
  exact .quorumData hr hscanned hmoved hgroup

lemma written_of_lastItems (h : .ok entry ∈ lastItems s m) :
    Written s m threshold .lastTickQuorumDataPerEpochInterval entry := by
  obtain ⟨⟨epoch, selected⟩, hgroup, heq⟩ := List.mem_map.1 h
  exact .lastTickQuorumData (Std.ExtTreeMap.mem_toList_iff_getElem?_eq_some.1 hgroup)
    (mapError_codec_eq_ok heq)

/-- Each item of a plan that is no error is of one of the kinds. -/
theorem written_of_item (h : .ok entry ∈ (epochPlan s m threshold).flatMap EpochStream.items) :
    ∃ ns, Written s m threshold ns entry := by
  obtain h | ⟨r, hr, h | h | h⟩ | ⟨r, hr, h⟩ | h := mem_items_epochPlan.1 h
  · obtain ⟨ns, -, hwritten⟩ := written_of_metadata h
    exact ⟨ns, hwritten⟩
  · exact ⟨_, written_of_tickItems hr h⟩
  · exact ⟨_, written_of_transactionItems h⟩
  · obtain hwritten | hwritten := written_of_statusItems hr h <;> exact ⟨_, hwritten⟩
  · exact ⟨_, written_of_voteItems hr h⟩
  · exact ⟨_, written_of_lastItems h⟩

/-- Each pair that a plan writes is of one of the kinds. -/
theorem written_of_mem (h : entry ∈ (epochPlan s m threshold).flatMap EpochStream.entries) :
    ∃ ns, Written s m threshold ns entry := by
  obtain ⟨stream, hstream, hentry⟩ := List.mem_flatMap.1 h
  exact written_of_item (List.mem_flatMap.2 ⟨stream, hstream, mem_leading hentry⟩)

/-- The first byte of its key tells of which kind a pair is. -/
lemma written_of_head? {ns : Namespace}
    (hentry : entry ∈ (epochPlan s m threshold).flatMap EpochStream.entries)
    (hkey : entry.1.head? = some ns.tag) : Written s m threshold ns entry := by
  obtain ⟨ns', hwritten⟩ := written_of_mem hentry
  obtain rfl := hwritten.eq_of_head? hkey
  exact hwritten

/-- What is found in a store that was empty was written, as one of the kinds. -/
lemma exists_written_of_getElem? {ns : Namespace} {key value : Bytes}
    (hvalue : (Contents.overlay ∅
      ((epochPlan s m threshold).flatMap EpochStream.entries))[key]? = some value)
    (hkey : key.head? = some ns.tag) :
    ∃ entry, Written s m threshold ns entry ∧ entry = (key, value) :=
  ⟨_, written_of_head? (Contents.mem_of_getElem?_overlay_empty hvalue) hkey, rfl⟩

/-! ### What is scanned is written -/

section Sound

variable (hsound : (epochPlan s m threshold).findSome? EpochStream.fault? = none)

include hsound

/-- The items of a plan without a fault are no errors, and their records are written. -/
lemma exists_mem_of_item {item : Except Error Entry}
    (hitem : item ∈ (epochPlan s m threshold).flatMap EpochStream.items) :
    ∃ entry, item = .ok entry ∧
      entry ∈ (epochPlan s m threshold).flatMap EpochStream.entries := by
  have hnone := EpochStream.firstError?_flatMap_items.2 hsound
  obtain ⟨entry, rfl⟩ := exists_ok_of_mem hnone hitem
  refine ⟨entry, rfl, ?_⟩
  rw [← EpochStream.leading_flatMap_items hsound]
  exact (mem_leading_iff hnone).2 hitem

/-- The tick data in a processed range are written. -/
lemma exists_mem_of_tickData (hr : r ∈ m.ranges) {old : Entry}
    (hscanned : .ok old ∈ s.items (KeyRange.ofTicks .tickData r)) :
    ∃ record entry, EpochEntry.tickData old = .ok (record, entry) ∧
      entry ∈ (epochPlan s m threshold).flatMap EpochStream.entries := by
  obtain ⟨entry, heq, hmem⟩ := exists_mem_of_item hsound (mem_items_epochPlan.2
    (.inr (.inl ⟨r, hr, .inl (List.mem_map_of_mem (List.mem_map_of_mem hscanned))⟩)))
  simp only [Except.bind] at heq
  rcases hmoved : EpochEntry.tickData old with fault | ⟨record, entry'⟩
  · rw [hmoved] at heq
    cases heq
  · rw [hmoved] at heq
    cases heq
    exact ⟨record, entry', rfl, hmem⟩

/-- The votes on the ticks of a processed range are written, and they belong to a group. -/
lemma exists_group_of_quorumData (hr : r ∈ m.ranges) {old : Entry}
    (hscanned : .ok old ∈ s.items (KeyRange.ofTicks .quorumData r)) :
    ∃ votes entry group, EpochEntry.quorumData old = .ok (votes, entry) ∧
      (fold m).groupOf votes = .ok group ∧
      entry ∈ (epochPlan s m threshold).flatMap EpochStream.entries := by
  obtain ⟨entry, heq, hmem⟩ := exists_mem_of_item hsound (mem_items_epochPlan.2
    (.inr (.inr (.inl ⟨r, hr, List.mem_map_of_mem (List.mem_map_of_mem hscanned)⟩))))
  simp only [Except.bind] at heq
  rcases hmoved : EpochEntry.quorumData old with fault | ⟨votes, entry'⟩
  · rw [hmoved] at heq
    cases heq
  · rcases hgroup : (fold m).groupOf votes with fault | group
    · simp only [hmoved, hgroup, bind, Except.mapError, Except.bind] at heq
      cases heq
    · simp only [hmoved, hgroup, bind, Except.mapError, Except.bind] at heq
      cases heq
      exact ⟨votes, _, group, rfl, hgroup, hmem⟩

/-- The votes on the ticks of a processed range are written. -/
lemma exists_mem_of_quorumData (hr : r ∈ m.ranges) {old : Entry}
    (hscanned : .ok old ∈ s.items (KeyRange.ofTicks .quorumData r)) :
    ∃ votes entry, EpochEntry.quorumData old = .ok (votes, entry) ∧
      entry ∈ (epochPlan s m threshold).flatMap EpochStream.entries := by
  obtain ⟨votes, entry, group, hmoved, -, hmem⟩ := exists_group_of_quorumData hsound hr hscanned
  exact ⟨votes, entry, hmoved, hmem⟩

/-- What the fold over the votes keeps of an epoch is written. -/
lemma exists_mem_of_keptVotes {epoch : UInt32}
    {selected : Std.ExtTreeMap Nat Legacy.QuorumTickData}
    (hgroup : (keptVotes s m).groups[epoch]? = some selected) :
    ∃ entry, EpochEntry.lastTickQuorumData epoch selected = .ok entry ∧
      entry ∈ (epochPlan s m threshold).flatMap EpochStream.entries := by
  obtain ⟨entry, heq, hmem⟩ := exists_mem_of_item hsound (mem_items_epochPlan.2
    (.inr (.inr (.inr (List.mem_map.2
      ⟨(epoch, selected), Std.ExtTreeMap.mem_toList_iff_getElem?_eq_some.2 hgroup, rfl⟩)))))
  exact ⟨entry, mapError_codec_eq_ok heq, hmem⟩

end Sound

end EpochPlan

end EpochSplit
