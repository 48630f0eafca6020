import EpochSplit.Proofs.Epoch.Job
import Mathlib.Algebra.BigOperators.Group.List.Lemmas
import Mathlib.Algebra.GroupWithZero.Nat
/-!
# What is counted, by namespace

What is counted while an epoch is written comes from different places: numbers that passes report, a
counter, a number of ticks.  The counts name the namespaces, and nothing in them looks at a key.
For a plan without a fault they agree with the tags of the keys that are written
(`count_addAll_counts`).
-/

namespace EpochSplit

/-- Whether a key is one of a namespace, which its first byte tells. -/
def Namespace.tags (ns : Namespace) (key : Bytes) : Bool := key.head? == some ns.tag

/-- The number of pairs whose key is one of a namespace. -/
def countTagged (ns : Namespace) (entries : List Entry) : Nat :=
  entries.countP fun e => ns.tags e.1

/-! ### Tallies -/

namespace Tally

/-- What a list of counts says about a namespace. -/
def listed (counts : List (Namespace × Nat)) (ns : Namespace) : Nat :=
  ((counts.filter (·.1 = ns)).map Prod.snd).sum

@[simp] lemma listed_nil (ns : Namespace) : listed [] ns = 0 := rfl

lemma listed_cons (ns' ns : Namespace) (n : Nat) (counts : List (Namespace × Nat)) :
    listed ((ns', n) :: counts) ns = (if ns' = ns then n else 0) + listed counts ns := by
  by_cases h : ns' = ns
  · simp [listed, h]
  · simp [listed, h]

lemma listed_append (counts more : List (Namespace × Nat)) (ns : Namespace) :
    listed (counts ++ more) ns = listed counts ns + listed more ns := by
  simp [listed]

/-- Adding counts adds what they say about each namespace. -/
lemma count_addAll (t : Tally) (counts : List (Namespace × Nat)) (ns : Namespace) :
    (t.addAll counts).count ns = t.count ns + listed counts ns := by
  induction counts generalizing t with
  | nil => rfl
  | cons p counts ih =>
      obtain ⟨ns', n⟩ := p
      have hstep : t.addAll ((ns', n) :: counts) = (t.add ns' n).addAll counts := rfl
      rw [hstep, ih, count_add, listed_cons]
      by_cases h : ns' = ns
      · rw [if_pos h, if_pos h, Nat.add_assoc]
      · rw [if_neg h, if_neg h, Nat.zero_add]

/-- A tally lists each namespace once at most. -/
lemma perm_toList (t : Tally) :
    t.toList.Perm (Namespace.all.filterMap fun ns => t[ns]?.map fun n => (ns, n)) := by
  have hleft : t.toList.Nodup := by
    refine Std.ExtTreeMap.distinct_keys_toList.imp fun {p q} hne heq => hne ?_
    rw [heq]
    exact Std.ReflCmp.compare_self
  have hright : (Namespace.all.filterMap fun ns => t[ns]?.map fun n => (ns, n)).Nodup := by
    have hall : Namespace.all.Nodup := by decide
    refine hall.filterMap fun ns ns' p hp hp' => ?_
    obtain ⟨n, -, rfl⟩ := Option.map_eq_some_iff.1 hp
    obtain ⟨n', -, heq⟩ := Option.map_eq_some_iff.1 hp'
    exact (congrArg Prod.fst heq).symm
  rw [List.perm_ext_iff_of_nodup hleft hright]
  rintro ⟨ns, n⟩
  rw [Std.ExtTreeMap.mem_toList_iff_getElem?_eq_some, List.mem_filterMap]
  constructor
  · intro hn
    exact ⟨ns, Namespace.mem_all ns, by rw [hn]; rfl⟩
  · rintro ⟨ns', -, hmap⟩
    obtain ⟨n', hn', heq⟩ := Option.map_eq_some_iff.1 hmap
    cases heq
    exact hn'

/-- The total of a tally is the sum over all namespaces. -/
lemma total_eq (t : Tally) : t.total = (Namespace.all.map t.count).sum := by
  have hfoldr : ∀ pairs : List (Namespace × Nat),
      pairs.foldr (fun p total => p.2 + total) 0 = (pairs.map Prod.snd).sum := by
    intro pairs
    induction pairs with
    | nil => rfl
    | cons p pairs ih => rw [List.foldr_cons, ih, List.map_cons, List.sum_cons]
  rw [total, hfoldr, (t.perm_toList.map Prod.snd).sum_eq]
  induction Namespace.all with
  | nil => rfl
  | cons ns rest ih =>
      rw [List.filterMap_cons, List.map_cons, List.sum_cons, ← ih, count]
      cases t[ns]? with
      | none => simp
      | some n => simp

end Tally

/-! ### Items and their counts -/

/-- The number of items that are pairs of a namespace. -/
def countItems (ns : Namespace) (items : List (Except Error Entry)) : Nat :=
  items.countP fun item => item.toOption.any fun e => ns.tags e.1

lemma countItems_map_ok (ns : Namespace) (entries : List Entry) :
    countItems ns (entries.map .ok) = countTagged ns entries := by
  rw [countItems, List.countP_map]
  rfl

/-- Counts that are right about some items. -/
def AreCounts (items : List (Except Error Entry)) (counts : List (Namespace × Nat)) : Prop :=
  ∀ ns, countItems ns items = Tally.listed counts ns

namespace AreCounts

variable {items more : List (Except Error Entry)} {counts further : List (Namespace × Nat)}

lemma nil : AreCounts [] [] := fun _ => rfl

lemma append (h : AreCounts items counts) (hmore : AreCounts more further) :
    AreCounts (items ++ more) (counts ++ further) := by
  intro ns
  rw [Tally.listed_append, ← h ns, ← hmore ns]
  exact List.countP_append

lemma flatMap {α : Type} {parts : List α} {f : α → List (Except Error Entry)}
    {g : α → List (Namespace × Nat)} (h : ∀ part ∈ parts, AreCounts (f part) (g part)) :
    AreCounts (parts.flatMap f) (parts.flatMap g) := by
  induction parts with
  | nil => exact nil
  | cons part parts ih =>
      obtain ⟨hpart, hparts⟩ := List.forall_mem_cons.1 h
      rw [List.flatMap_cons, List.flatMap_cons]
      exact hpart.append (ih hparts)

/-- Pairs that all belong to one namespace are counted by their number. -/
lemma uniform {ns : Namespace}
    (h : ∀ item ∈ items, ∃ entry : Entry, item = .ok entry ∧ entry.1.head? = some ns.tag) :
    AreCounts items [(ns, items.length)] := by
  intro ns'
  rw [Tally.listed_cons, Tally.listed_nil, Nat.add_zero, countItems]
  by_cases hns : ns = ns'
  · subst hns
    rw [if_pos rfl, List.countP_eq_length]
    intro item hitem
    obtain ⟨entry, rfl, hhead⟩ := h item hitem
    simp [Except.toOption, Namespace.tags, hhead]
  · rw [if_neg hns, List.countP_eq_zero]
    intro item hitem
    obtain ⟨entry, rfl, hhead⟩ := h item hitem
    simp only [Except.toOption, Option.any_some, Namespace.tags, hhead, beq_iff_eq,
      Option.some.injEq]
    exact fun htag => hns (Namespace.tag_injective htag)

end AreCounts

namespace EpochPlan

variable {s : Source} {m : EpochMetadata} {threshold : UInt32} {r : TickRange}

/-- A single item that is a pair of a namespace counts as one. -/
lemma areCounts_singleton {ns : Namespace} {item : Except Error Entry}
    (hok : ∃ entry, item = .ok entry)
    (htag : ∀ entry, item = .ok entry → entry.1.head? = some ns.tag) :
    AreCounts [item] [(ns, 1)] := by
  refine AreCounts.uniform fun item' hitem' => ?_
  obtain rfl := List.mem_singleton.1 hitem'
  obtain ⟨entry, hentry⟩ := hok
  exact ⟨entry, hentry, htag entry hentry⟩

/-- The metadata of an epoch are counted by fixed numbers. -/
lemma areCounts_metadata
    (hok : ∀ item ∈ (metadata s m threshold).items, ∃ entry, item = .ok entry) :
    AreCounts (metadata s m threshold).items (metadataCounts m threshold) := by
  simp only [metadata, metadataCounts, List.forall_mem_append, List.forall_mem_cons] at hok ⊢
  obtain ⟨⟨hcomputors, hintervals, -, -⟩, hsignature⟩ := hok
  have hcomputors : AreCounts [computors s m.epoch] [(.computorList, 1)] := by
    refine areCounts_singleton hcomputors fun entry hentry => ?_
    obtain ⟨c, -, rfl⟩ := map_require_eq_ok hentry
    rfl
  have hintervals :
      AreCounts [processedTickIntervals s m.epoch] [(.processedTickIntervals, 1)] := by
    refine areCounts_singleton hintervals fun entry hentry => ?_
    obtain ⟨p, -, rfl⟩ := map_require_eq_ok hentry
    rfl
  have hlast : AreCounts [.ok (EpochEntry.lastProcessedTick m.epoch m.lastTick)]
      [(.lastProcessedTick, 1)] := by
    refine areCounts_singleton ⟨_, rfl⟩ fun entry hentry => ?_
    cases hentry
    rfl
  refine (hcomputors.append (hintervals.append hlast)).append ?_
  by_cases hsigned : threshold < m.epoch
  · rw [if_pos hsigned] at hsignature ⊢
    rw [if_pos hsigned]
    refine areCounts_singleton (hsignature _ List.mem_cons_self) fun entry hentry => ?_
    obtain ⟨signature, -, rfl⟩ := map_require_eq_ok hentry
    rfl
  · rw [if_neg hsigned, if_neg hsigned]
    exact AreCounts.nil

/-- The statuses of a tick are counted one by one, and their list once. -/
lemma areCounts_tickStatuses {tick : UInt32} {txIds : List String}
    (hok : ∀ item ∈ tickStatuses s tick txIds, ∃ entry, item = .ok entry) :
    AreCounts (tickStatuses s tick txIds)
      ([(.transactionStatus, txIds.length)] ++ [(.tickTransactionsStatus, 1)]) := by
  obtain ⟨hsingle, hall⟩ := List.forall_mem_append.1 hok
  refine AreCounts.append ?_ ?_
  · have hlength : ((txIds.map (transactionStatus s)).map
        (·.map EpochEntry.transactionStatus)).length = txIds.length := by
      rw [List.length_map, List.length_map]
    rw [← hlength]
    refine AreCounts.uniform fun item hitem => ?_
    obtain ⟨entry, rfl⟩ := hsingle item hitem
    obtain ⟨status, -, rfl⟩ := ok_mem_map.1 hitem
    exact ⟨_, rfl, rfl⟩
  · refine areCounts_singleton (hall _ List.mem_cons_self) fun entry hentry => ?_
    rcases hfound : (txIds.map (transactionStatus s)).mapM id with e | found
    · rw [hfound] at hentry
      cases hentry
    · rw [hfound] at hentry
      cases hentry
      rfl

/-- The counts for all ticks of a range, from those for each. -/
lemma listed_statuses (ids : List (UInt32 × List String)) (ns : Namespace) :
    Tally.listed (ids.flatMap fun p =>
        [(.transactionStatus, p.2.length)] ++ [(.tickTransactionsStatus, 1)]) ns =
      Tally.listed [(.transactionStatus, (ids.flatMap Prod.snd).length),
        (.tickTransactionsStatus, ids.length)] ns := by
  induction ids with
  | nil => cases ns <;> rfl
  | cons p ids ih =>
      rw [List.flatMap_cons, Tally.listed_append, ih]
      simp only [List.singleton_append, Tally.listed_cons, Tally.listed_nil, List.flatMap_cons,
        List.length_append, List.length_cons]
      split <;> split <;> omega

/-- The records of a range are counted by the numbers of its tick data and of the ids in them. -/
lemma areCounts_tickRange (hr : r ∈ m.ranges)
    (hok : ∀ item ∈ tickItems s r ++ (transactionItems s r ++ statusItems s r),
      ∃ entry, item = .ok entry) :
    AreCounts (tickItems s r ++ (transactionItems s r ++ statusItems s r))
      (rangeCounts s r) := by
  simp only [List.forall_mem_append] at hok
  obtain ⟨hticks, htransactions, hstatuses⟩ := hok
  have hparts : rangeCounts s r =
      [(.tickData, (tickItems s r).length)] ++ ([(.transaction, (transactionItems s r).length)] ++
        [(.transactionStatus, ((namedIds s r).toList.flatMap Prod.snd).length),
          (.tickTransactionsStatus, (namedIds s r).toList.length)]) := by
    rw [Std.ExtTreeMap.length_toList]
    rfl
  rw [hparts]
  refine AreCounts.append ?_ (AreCounts.append ?_ ?_)
  · refine AreCounts.uniform fun item hitem => ?_
    obtain ⟨entry, rfl⟩ := hticks item hitem
    have hwritten : Written s m 0 .tickData entry := written_of_tickItems hr hitem
    exact ⟨entry, rfl, hwritten.head?⟩
  · refine AreCounts.uniform fun item hitem => ?_
    obtain ⟨entry, rfl⟩ := htransactions item hitem
    have hwritten : Written s m 0 .transaction entry := written_of_transactionItems hitem
    exact ⟨entry, rfl, hwritten.head?⟩
  · intro ns
    rw [← listed_statuses]
    refine AreCounts.flatMap (fun p hp => areCounts_tickStatuses fun item hitem => ?_) ns
    exact hstatuses item (List.mem_flatMap.2 ⟨p, hp, hitem⟩)

/-- The votes of all ranges are counted together, after the last of them. -/
lemma areCounts_quorum
    (hok : ∀ item ∈ m.ranges.flatMap (voteItems s m) ++ lastItems s m,
      ∃ entry, item = .ok entry) :
    AreCounts (m.ranges.flatMap (voteItems s m) ++ lastItems s m)
      (quorumCounts s m) := by
  obtain ⟨hvotes, hlast⟩ := List.forall_mem_append.1 hok
  have hparts : quorumCounts s m =
      [(.quorumData, (m.ranges.flatMap (voteItems s m)).length)] ++
        [(.lastTickQuorumDataPerEpochInterval, (lastItems s m).length)] := rfl
  rw [hparts]
  refine AreCounts.append ?_ ?_
  · refine AreCounts.uniform fun item hitem => ?_
    obtain ⟨entry, rfl⟩ := hvotes item hitem
    obtain ⟨r, hr, hitem⟩ := List.mem_flatMap.1 hitem
    have hwritten : Written s m 0 .quorumData entry := written_of_voteItems hr hitem
    exact ⟨entry, rfl, hwritten.head?⟩
  · refine AreCounts.uniform fun item hitem => ?_
    obtain ⟨entry, rfl⟩ := hlast item hitem
    have hwritten : Written s m 0 .lastTickQuorumDataPerEpochInterval entry :=
      written_of_lastItems hitem
    exact ⟨entry, rfl, hwritten.head?⟩

/-- The counts of a plan without a fault are right about its items. -/
theorem areCounts_epochPlan
    (hsound : (epochPlan s m threshold).findSome? EpochStream.fault? = none) :
    AreCounts ((epochPlan s m threshold).flatMap EpochStream.items)
      (counts s m threshold) := by
  have hok : ∀ item ∈ (epochPlan s m threshold).flatMap EpochStream.items,
      ∃ entry, item = .ok entry := by
    intro item hitem
    obtain ⟨entry, hentry, -⟩ := exists_mem_of_item hsound hitem
    exact ⟨entry, hentry⟩
  rw [items_epochPlan] at hok ⊢
  obtain ⟨hmetadata, hrest⟩ := List.forall_mem_append.1 hok
  obtain ⟨hticks, hquorum⟩ := List.forall_mem_append.1 hrest
  refine (areCounts_metadata hmetadata).append (AreCounts.append ?_ (areCounts_quorum hquorum))
  refine AreCounts.flatMap fun r hr => areCounts_tickRange hr fun item hitem => ?_
  exact hticks item (List.mem_flatMap.2 ⟨r, hr, hitem⟩)

/-- The counts of a plan without a fault are the numbers of pairs that it writes, by namespace. -/
theorem count_addAll_counts
    (hsound : (epochPlan s m threshold).findSome? EpochStream.fault? = none) (ns : Namespace) :
    (Tally.addAll ∅ (counts s m threshold)).count ns =
      countTagged ns ((epochPlan s m threshold).flatMap EpochStream.entries) := by
  have hnone := EpochStream.firstError?_flatMap_items.2 hsound
  have hitems := areCounts_epochPlan hsound ns
  rw [eq_map_leading hnone, EpochStream.leading_flatMap_items hsound, countItems_map_ok] at hitems
  rw [Tally.count_addAll, Tally.count_empty, Nat.zero_add, hitems]

/-- Each pair that a plan writes belongs to one namespace. -/
lemma sum_countTagged (plan : List Entry)
    (htagged : ∀ entry ∈ plan, ∃ ns : Namespace, entry.1.head? = some ns.tag) :
    (Namespace.all.map fun ns => countTagged ns plan).sum = plan.length := by
  induction plan with
  | nil => rfl
  | cons entry plan ih =>
      obtain ⟨⟨ns, hhead⟩, hrest⟩ := List.forall_mem_cons.1 htagged
      have hone : (Namespace.all.map fun ns' => if ns'.tags entry.1 then 1 else 0).sum = 1 := by
        simp only [Namespace.tags, hhead]
        cases ns <;> rfl
      have hstep : ∀ ns', countTagged ns' (entry :: plan) =
          countTagged ns' plan + if ns'.tags entry.1 then 1 else 0 := fun ns' =>
        List.countP_cons
      simp only [hstep]
      rw [List.sum_map_add, ih hrest, hone, List.length_cons]

/-- In total a plan without a fault counts the pairs that it writes. -/
theorem total_addAll_counts
    (hsound : (epochPlan s m threshold).findSome? EpochStream.fault? = none) :
    (Tally.addAll ∅ (counts s m threshold)).total =
      ((epochPlan s m threshold).flatMap EpochStream.entries).length := by
  have hcounts : Tally.count (Tally.addAll ∅ (counts s m threshold)) =
      fun ns => countTagged ns ((epochPlan s m threshold).flatMap EpochStream.entries) :=
    funext (count_addAll_counts hsound)
  rw [Tally.total_eq, hcounts]
  refine sum_countTagged _ fun entry hentry => ?_
  obtain ⟨ns, hwritten⟩ := written_of_mem hentry
  exact ⟨ns, hwritten.head?⟩

end EpochPlan

end EpochSplit
