import EpochSplit.Proofs.Sample.Votes
/-!
# What is left of a sample

The plan of a sample is without a fault if and only if the positions of its ranges are numbers of
intervals (`sound_iff`).  It then writes the pairs of `EpochSample.moved`, of which no two are under
one key (`nodup_moved`), so that an empty store holds these pairs and nothing else
(`perm_toList_overlay`).
-/

namespace EpochSplit

namespace SampleArchive

open EpochPlan Wire

variable {samples : List EpochSample} {s : EpochSample} {tick tick' : UInt32} {slot : Nat}
  {threshold : UInt32} {ns : Namespace} {key : Bytes}

/-! ### Keys and namespaces -/

/-- All keys of a list are of the given namespaces. -/
def AreOf (namespaces : List Namespace) (keys : List Bytes) : Prop :=
  ∀ key ∈ keys, ∃ ns ∈ namespaces, key.head? = some ns.tag

/-- Keys of different namespaces are different. -/
lemma AreOf.ne {namespaces namespaces' : List Namespace} {keys keys' : List Bytes}
    (h : AreOf namespaces keys) (h' : AreOf namespaces' keys')
    (hapart : ∀ ns ∈ namespaces, ns ∉ namespaces') : ∀ key ∈ keys, ∀ key' ∈ keys', key ≠ key' := by
  rintro key hkey key' hkey' rfl
  obtain ⟨ns, hns, hhead⟩ := h key hkey
  obtain ⟨ns', hns', hhead'⟩ := h' key hkey'
  rw [hhead] at hhead'
  obtain rfl := Namespace.tag_injective (Option.some.inj hhead')
  exact hapart ns hns hns'

/-- Keys of one namespace each are of these namespaces. -/
lemma areOf_of_heads (namespaces : List Namespace) {keys : List Bytes}
    (h : (keys.map List.head?).Sublist (namespaces.map fun ns => some ns.tag)) :
    AreOf namespaces keys := by
  intro key hkey
  obtain ⟨ns, hns, heq⟩ := List.mem_map.1 (h.subset (List.mem_map_of_mem hkey))
  exact ⟨ns, hns, heq.symm⟩

lemma nodup_of_heads (namespaces : List Namespace) {keys : List Bytes}
    (h : (keys.map List.head?).Sublist (namespaces.map fun ns => some ns.tag))
    (hnamespaces : (namespaces.map fun ns => some ns.tag).Nodup) : keys.Nodup :=
  (hnamespaces.sublist h).of_map

/-- The id in a key is the same whatever the namespace. -/
lemma text_eq_of_key {ns ns' : Namespace} {t t' : String} (h : Key.text ns t = Key.text ns' t') :
    t = t' := by
  have hbody : Bytes.ofText t = Bytes.ofText t' := (List.cons.inj h).2
  have htext := congrArg Bytes.toText? hbody
  rw [Bytes.toText?_ofText, Bytes.toText?_ofText] at htext
  exact Option.some.inj htext

/-- The number in a key is the same whatever the namespace. -/
lemma word_eq_of_key {ns ns' : Namespace} {n n' : UInt32} (h : Key.word ns n = Key.word ns' n') :
    n = n' := by
  have hbody : Bytes.bigEndian 8 n.toUInt64.toNat = Bytes.bigEndian 8 n'.toUInt64.toNat :=
    (List.cons.inj h).2
  have hnumber := congrArg (fun bytes => UInt64.ofNat (Bytes.ofBigEndian bytes)) hbody
  simp only [Bytes.ofBigEndian_word] at hnumber
  exact UInt32.toUInt64_inj.1 hnumber

/-! ### Keys of a tick -/

/-- The namespaces of the pairs of a tick, without those of its transactions. -/
def wordNamespaces : List Namespace := [.tickData, .quorumData, .tickTransactionsStatus]

/-- The namespaces of the pairs of a transaction. -/
def slotNamespaces : List Namespace := [.transaction, .transactionStatus]

/-- The keys of a slot end with the id of its transaction. -/
lemma exists_of_movedSlot (h : key ∈ (s.movedSlot tick slot).map Prod.fst) :
    ∃ ns ∈ slotNamespaces, key = Key.text ns (txId s.epoch tick slot) := by
  simp only [EpochSample.movedSlot, List.map_cons, List.map_nil, List.mem_cons, List.not_mem_nil,
    or_false] at h
  obtain rfl | rfl := h
  · exact ⟨_, by decide, rfl⟩
  · exact ⟨_, by decide, rfl⟩

/-- The keys of a tick end with the tick or with the id of one of its transactions. -/
lemma exists_of_movedTick (h : key ∈ (s.movedTick tick).map Prod.fst) :
    (∃ ns ∈ wordNamespaces, key = Key.word ns tick) ∨
      ∃ slot, ∃ ns ∈ slotNamespaces, key = Key.text ns (txId s.epoch tick slot) := by
  rw [EpochSample.movedTick, List.map_append, List.map_flatMap, List.mem_append,
    List.mem_flatMap] at h
  obtain h | ⟨slot, -, h⟩ := h
  · simp only [List.map_cons, List.map_nil, List.mem_cons, List.not_mem_nil, or_false] at h
    obtain rfl | rfl | rfl := h
    · exact .inl ⟨_, by decide, rfl⟩
    · exact .inl ⟨_, by decide, rfl⟩
    · exact .inl ⟨_, by decide, rfl⟩
  · exact .inr ⟨slot, exists_of_movedSlot h⟩

lemma areOf_movedTick : AreOf (wordNamespaces ++ slotNamespaces)
    ((s.movedTick tick).map Prod.fst) := by
  intro key hkey
  obtain ⟨ns, hns, rfl⟩ | ⟨slot, ns, hns, rfl⟩ := exists_of_movedTick hkey
  · exact ⟨ns, List.mem_append_left _ hns, rfl⟩
  · exact ⟨ns, List.mem_append_right _ hns, rfl⟩

lemma nodup_movedTick : ((s.movedTick tick).map Prod.fst).Nodup := by
  rw [EpochSample.movedTick, List.map_append, List.map_flatMap, List.nodup_append]
  refine ⟨nodup_of_heads wordNamespaces (.refl _) (by decide), ?_, ?_⟩
  · rw [List.nodup_flatMap]
    refine ⟨fun slot _ => nodup_of_heads slotNamespaces (.refl _) (by decide), ?_⟩
    refine List.nodup_range.imp fun {slot slot'} hne key hkey hkey' => hne ?_
    obtain ⟨ns, -, rfl⟩ := exists_of_movedSlot hkey
    obtain ⟨ns', -, heq⟩ := exists_of_movedSlot hkey'
    exact (txId_inj (text_eq_of_key heq)).2.2
  · have hslots : AreOf slotNamespaces ((List.range s.transactionsPerTick).flatMap fun slot =>
        (s.movedSlot tick slot).map Prod.fst) := by
      intro key hkey
      obtain ⟨slot, -, hkey⟩ := List.mem_flatMap.1 hkey
      obtain ⟨ns, hns, rfl⟩ := exists_of_movedSlot hkey
      exact ⟨ns, hns, rfl⟩
    exact (areOf_of_heads wordNamespaces (.refl _)).ne hslots (by decide)

/-- No two ticks have a key in common. -/
lemma nodup_movedTicks (hticks : s.ticks.Nodup) :
    ((s.ticks.flatMap s.movedTick).map Prod.fst).Nodup := by
  rw [List.map_flatMap, List.nodup_flatMap]
  refine ⟨fun tick _ => nodup_movedTick, hticks.imp fun {tick tick'} hne key hkey hkey' => hne ?_⟩
  -- a tick in a key is not an id in a key, since no namespace has both
  have hapart : ∀ {ns ns' : Namespace} {n : UInt32} {id : String}, ns ∈ wordNamespaces →
      ns' ∈ slotNamespaces → Key.word ns n ≠ Key.text ns' id := by
    intro ns ns' n id hns hns' heq
    obtain rfl := Namespace.tag_injective (List.cons.inj heq).1
    revert hns hns'
    cases ns <;> decide
  obtain ⟨ns, hns, rfl⟩ | ⟨slot, ns, hns, rfl⟩ := exists_of_movedTick hkey
  · obtain ⟨ns', -, heq⟩ | ⟨slot', ns', hns', heq⟩ := exists_of_movedTick hkey'
    · exact word_eq_of_key heq
    · exact absurd heq (hapart hns hns')
  · obtain ⟨ns', hns', heq⟩ | ⟨slot', ns', -, heq⟩ := exists_of_movedTick hkey'
    · exact absurd heq.symm (hapart hns' hns)
    · exact (txId_inj (text_eq_of_key heq)).2.1

/-- No two pairs that are left of a sample are under one key. -/
theorem nodup_moved (hticks : s.ticks.Nodup) : ((s.moved threshold).map Prod.fst).Nodup := by
  have hheads : (((s.movedEpoch threshold).map Prod.fst).map List.head?).Sublist
      (metadataNamespaces.map fun ns => some ns.tag) := by
    rw [EpochSample.movedEpoch]
    split
    · exact .refl _
    · exact List.sublist_append_left _ [some Namespace.targetTickVoteSignature.tag]
  have hepoch := areOf_of_heads metadataNamespaces hheads
  have htick : AreOf (wordNamespaces ++ slotNamespaces)
      ((s.ticks.flatMap s.movedTick).map Prod.fst) := by
    intro key hkey
    rw [List.map_flatMap] at hkey
    obtain ⟨tick, -, hkey⟩ := List.mem_flatMap.1 hkey
    exact areOf_movedTick key hkey
  have hlast : AreOf [.lastTickQuorumDataPerEpochInterval]
      [Key.word .lastTickQuorumDataPerEpochInterval s.epoch] :=
    areOf_of_heads _ (.refl _)
  rw [EpochSample.moved, List.append_assoc, List.map_append, List.map_append, List.nodup_append,
    List.nodup_append]
  refine ⟨nodup_of_heads metadataNamespaces hheads (by decide),
    ⟨nodup_movedTicks hticks, List.nodup_singleton _, htick.ne hlast (by decide)⟩, ?_⟩
  intro key hkey key' hkey'
  obtain hkey' | hkey' := List.mem_append.1 hkey'
  · exact hepoch.ne htick (by decide) key hkey key' hkey'
  · exact hepoch.ne hlast (by decide) key hkey key' hkey'

/-! ### The plan -/

/-- The pairs of a tick, one by one. -/
lemma mem_movedTick {entry : Entry} :
    entry ∈ s.movedTick tick ↔
      (entry = (Key.word .tickData tick,
          encode (tickData s.epoch tick s.transactionsPerTick).toCurrent) ∨
        entry = (Key.word .quorumData tick, encode (quorumTickData s.epoch tick).reduced) ∨
        entry = EpochEntry.tickTransactionsStatus tick ((s.statuses tick).map (·.toCurrent))) ∨
      ∃ slot < s.transactionsPerTick,
        entry = EpochEntry.transaction (transaction s.epoch tick slot) ∨
        entry = EpochEntry.transactionStatus (transactionStatus s.epoch tick slot) := by
  simp only [EpochSample.movedTick, EpochSample.movedSlot, List.mem_append, List.mem_cons,
    List.not_mem_nil, or_false, List.mem_flatMap, List.mem_range]
  rfl

section Separate

variable (hseparate : Separate samples) (hs : s ∈ samples)

include hseparate hs

/-- The items of the plan are the pairs that are left, and the item of the votes on the last ticks,
which may be an error. -/
lemma mem_items_sample {last item : Except Error Entry}
    (hlast : ∀ item, item ∈ lastItems (source samples) s.metadata ↔ item = last) :
    item ∈ (epochPlan (source samples) s.metadata threshold).flatMap EpochStream.items ↔
      (∃ entry ∈ s.movedEpoch threshold ++ s.ticks.flatMap s.movedTick, item = .ok entry) ∨
        item = last := by
  rw [mem_items_epochPlan, items_metadata hseparate hs, hlast]
  constructor
  · have htick : ∀ {r tick entry}, r ∈ s.ranges → r.contains tick = true →
        entry ∈ s.movedTick tick →
          (∃ entry' ∈ s.movedEpoch threshold ++ s.ticks.flatMap s.movedTick,
            (.ok entry : Except Error Entry) = .ok entry') ∨ .ok entry = last := by
      intro r tick entry hr hcontains hentry
      have htick := EpochSample.mem_ticks.2 ⟨r, hr, hcontains⟩
      exact .inl ⟨entry, List.mem_append_right _ (List.mem_flatMap.2 ⟨tick, htick, hentry⟩), rfl⟩
    rintro (hitem | ⟨r, hr, hitem | hitem | hitem⟩ | ⟨r, hr, hitem⟩ | rfl)
    · obtain ⟨entry, hentry, rfl⟩ := List.mem_map.1 hitem
      exact .inl ⟨entry, List.mem_append_left _ hentry, rfl⟩
    · obtain ⟨tick, hcontains, rfl⟩ := (mem_tickItems hseparate hs hr).1 hitem
      exact htick hr hcontains (mem_movedTick.2 (.inl (.inl rfl)))
    · obtain ⟨tick, hcontains, slot, hslot, rfl⟩ := (mem_transactionItems hseparate hs hr).1 hitem
      exact htick hr hcontains (mem_movedTick.2 (.inr ⟨slot, hslot, .inl rfl⟩))
    · obtain ⟨tick, hcontains, ⟨slot, hslot, rfl⟩ | rfl⟩ :=
        (mem_statusItems hseparate hs hr).1 hitem
      · exact htick hr hcontains (mem_movedTick.2 (.inr ⟨slot, hslot, .inr rfl⟩))
      · exact htick hr hcontains (mem_movedTick.2 (.inl (.inr (.inr rfl))))
    · obtain ⟨tick, hcontains, rfl⟩ := (mem_voteItems hseparate hs hr).1 hitem
      exact htick hr hcontains (mem_movedTick.2 (.inl (.inr (.inl rfl))))
    · exact .inr rfl
  · rintro (⟨entry, hentry, rfl⟩ | rfl)
    · obtain hentry | hentry := List.mem_append.1 hentry
      · exact .inl (List.mem_map_of_mem hentry)
      obtain ⟨tick, htick, hentry⟩ := List.mem_flatMap.1 hentry
      obtain ⟨r, hr, hcontains⟩ := EpochSample.mem_ticks.1 htick
      obtain (rfl | rfl | rfl) | ⟨slot, hslot, rfl | rfl⟩ := mem_movedTick.1 hentry
      · exact .inr (.inl ⟨r, hr, .inl ((mem_tickItems hseparate hs hr).2 ⟨tick, hcontains, rfl⟩)⟩)
      · exact .inr (.inr (.inl
          ⟨r, hr, (mem_voteItems hseparate hs hr).2 ⟨tick, hcontains, rfl⟩⟩))
      · exact .inr (.inl ⟨r, hr, .inr (.inr
          ((mem_statusItems hseparate hs hr).2 ⟨tick, hcontains, .inr rfl⟩))⟩)
      · exact .inr (.inl ⟨r, hr, .inr (.inl
          ((mem_transactionItems hseparate hs hr).2 ⟨tick, hcontains, slot, hslot, rfl⟩))⟩)
      · exact .inr (.inl ⟨r, hr, .inr (.inr
          ((mem_statusItems hseparate hs hr).2 ⟨tick, hcontains, .inl ⟨slot, hslot, rfl⟩⟩))⟩)
    · exact .inr (.inr (.inr rfl))

/-- The plan is without a fault if and only if the positions of the ranges are numbers of
intervals. -/
theorem sound_iff :
    (epochPlan (source samples) s.metadata threshold).findSome? EpochStream.fault? = none ↔
      s.ranges.length ≤ 2 ^ 31 := by
  obtain ⟨last, hlast, hok, -⟩ := exists_lastItem hseparate hs
  rw [← EpochStream.firstError?_flatMap_items, firstError?_eq_none_iff, ← hok]
  constructor
  · intro hall
    exact hall last ((mem_items_sample hseparate hs hlast).2 (.inr rfl))
  · rintro hlastOk item hitem
    obtain ⟨entry, -, rfl⟩ | rfl := (mem_items_sample hseparate hs hlast).1 hitem
    · exact ⟨entry, rfl⟩
    · exact hlastOk

/-- A plan without a fault writes the pairs that are left of the sample. -/
theorem mem_entries_sample (hsmall : s.ranges.length ≤ 2 ^ 31) {entry : Entry} :
    entry ∈ (epochPlan (source samples) s.metadata threshold).flatMap EpochStream.entries ↔
      entry ∈ s.moved threshold := by
  obtain ⟨last, hlast, hok, hrecord⟩ := exists_lastItem hseparate hs
  obtain ⟨record, rfl⟩ := hok.2 hsmall
  have hsound : (epochPlan (source samples) s.metadata threshold).findSome? EpochStream.fault? =
      none := (sound_iff hseparate hs).2 hsmall
  have hnone := EpochStream.firstError?_flatMap_items.2 hsound
  rw [← EpochStream.leading_flatMap_items hsound, mem_leading_iff hnone,
    mem_items_sample hseparate hs hlast, EpochSample.moved, List.mem_append, List.mem_singleton,
    ← hrecord record rfl]
  simp only [Except.ok.injEq, exists_eq_right']

/-- Once they are written to an empty store, it holds what is left of the sample and nothing
else. -/
theorem perm_toList_overlay (hsmall : s.ranges.length ≤ 2 ^ 31) :
    (Contents.overlay ∅ ((epochPlan (source samples) s.metadata threshold).flatMap
      EpochStream.entries)).toList.Perm (s.moved threshold) := by
  have hkeys : ((s.moved threshold).map Prod.fst).Nodup := nodup_moved (hseparate.nodup_ticks hs)
  refine (List.perm_ext_iff_of_nodup ?_ hkeys.of_map).2 fun (key, value) => ?_
  · refine List.Nodup.of_map Prod.fst ?_
    rw [Std.ExtTreeMap.map_fst_toList_eq_keys]
    exact Std.ExtTreeMap.nodup_keys
  · rw [Std.ExtTreeMap.mem_toList_iff_getElem?_eq_some, Contents.getElem?_overlay_iff,
      mem_entries_sample hseparate hs hsmall]
    intro e he e' he' hkey
    rw [mem_entries_sample hseparate hs hsmall] at he he'
    exact List.inj_on_of_nodup_map hkeys he' he hkey

end Separate

end SampleArchive

end EpochSplit
