import EpochSplit.Proofs.Epoch.Tally
import EpochSplit.Proofs.Migrator.Copying
/-!
# How copies are counted

The pairs that a copy writes are counted twice: the report of the migrator adds up what was ever
copied, and what a call returns is noted anew by each call.  The report counts every turn of a
namespace that is named more than once, while what is returned tells about its last turn only
(`copyNamespaces_counted`).  So the two agree about the namespaces that are named once, and about
the others only if there was nothing to copy.
-/

namespace EpochSplit

variable {σ : Type}

/-! ### Counts that replace each other -/

namespace Tally

variable {counts : List (Namespace × Nat)} {ns : Namespace} {n : Nat}

/-- Notes counts one after the other, each in the place of an earlier one of its namespace. -/
def noteAll (t : Tally) (counts : List (Namespace × Nat)) : Tally :=
  counts.foldl (fun t p => t.insert p.1 p.2) t

/-- What a list of counts says about a namespace in the end. -/
def latest? (counts : List (Namespace × Nat)) (ns : Namespace) : Option Nat :=
  ((counts.filter (·.1 = ns)).map Prod.snd).getLast?

lemma latest?_concat (counts : List (Namespace × Nat)) (p : Namespace × Nat) (ns : Namespace) :
    latest? (counts ++ [p]) ns = if p.1 = ns then some p.2 else latest? counts ns := by
  by_cases h : p.1 = ns
  · simp [latest?, h]
  · simp [latest?, h]

/-- The last count of a namespace stays. -/
lemma getElem?_noteAll (t : Tally) (counts : List (Namespace × Nat)) (ns : Namespace) :
    (t.noteAll counts)[ns]? = (latest? counts ns).or t[ns]? := by
  induction counts using List.reverseRecOn with
  | nil => rfl
  | append_singleton counts p ih =>
      have hlast : t.noteAll (counts ++ [p]) = (t.noteAll counts).insert p.1 p.2 := by
        rw [noteAll, List.foldl_concat, ← noteAll]
      rw [hlast, latest?_concat, Std.ExtTreeMap.getElem?_insert]
      by_cases h : p.1 = ns
      · simp [h]
      · simpa [h] using ih

lemma mem_of_latest? (h : latest? counts ns = some n) : (ns, n) ∈ counts := by
  obtain ⟨p, hp, rfl⟩ := List.mem_map.1 (List.mem_of_getLast? h)
  obtain ⟨hmem, hns⟩ := List.mem_filter.1 hp
  obtain rfl : p.1 = ns := by simpa using hns
  exact hmem

lemma latest?_eq_none_iff : latest? counts ns = none ↔ ns ∉ counts.map Prod.fst := by
  simp only [latest?, List.getLast?_eq_none_iff, List.map_eq_nil_iff, List.filter_eq_nil_iff,
    decide_eq_true_eq, List.mem_map, not_exists, not_and]

lemma length_filter_eq_count (counts : List (Namespace × Nat)) (ns : Namespace) :
    (counts.filter (·.1 = ns)).length = (counts.map Prod.fst).count ns := by
  rw [← List.countP_eq_length_filter, List.count, List.countP_map]
  refine List.countP_congr fun p _ => ?_
  simp

/-- A namespace with a single count. -/
lemma listed_of_count_eq_one (h : (counts.map Prod.fst).count ns = 1) :
    latest? counts ns = some (listed counts ns) := by
  rw [← length_filter_eq_count] at h
  obtain ⟨p, hp⟩ := List.length_eq_one_iff.1 h
  simp [latest?, listed, hp]

/-- A namespace all of whose counts are the same. -/
lemma listed_of_uniform (h : ∀ p ∈ counts, p.1 = ns → p.2 = n) :
    listed counts ns = (counts.map Prod.fst).count ns * n := by
  have hall : ∀ k ∈ (counts.filter (·.1 = ns)).map Prod.snd, k = n := by
    intro k hk
    obtain ⟨p, hp, rfl⟩ := List.mem_map.1 hk
    obtain ⟨hmem, hns⟩ := List.mem_filter.1 hp
    exact h p hmem (by simpa using hns)
  rw [listed, List.sum_eq_card_nsmul _ n hall, List.length_map, length_filter_eq_count,
    smul_eq_mul]

end Tally

namespace Migrator

variable {site : Site σ} {target : Target σ} {m m' : Migrator} {world world' : σ}
  {namespaces : List Namespace} {copied copied' : Tally}

/-! ### One turn after the other -/

/-- A namespace that is copied with success was read, and all of its pairs are counted. -/
lemma exists_scan_of_copied {s : Source} {r : KeyRange} {c : Channel σ} {stats : PassStats}
    {p : Pass σ} (h : c.transcode (s.items r) world = (.ok stats, p)) :
    ∃ pairs, s.scan r = .ok pairs ∧ stats.written = pairs.length := by
  have hwritten := Channel.written_transcode h
  cases hscan : s.scan r with
  | error fault => simp [Source.items, hscan, Channel.transcode, Channel.stageAll] at h
  | ok pairs => exact ⟨pairs, rfl, by simpa [Source.items, hscan] using hwritten⟩

/-- Each turn has a count of its own, which the report adds and the other tally notes. -/
lemma copyEach_counts
    (h : m.copyEach site target namespaces copied world = (.ok copied', m', world')) :
    ∃ counts : List (Namespace × Nat), counts.map Prod.fst = namespaces ∧
      copied' = copied.noteAll counts ∧
      (∀ ns, m'.report.copied.count ns = m.report.copied.count ns + Tally.listed counts ns) ∧
      (site.Spares target → ∀ p ∈ counts, ∃ pairs,
        (site.source world).scan (.ofNamespace p.1) = .ok pairs ∧ p.2 = pairs.length) := by
  induction namespaces generalizing copied m world with
  | nil =>
      cases h
      exact ⟨[], rfl, rfl, fun _ => rfl, fun _ => List.forall_mem_nil _⟩
  | cons ns namespaces ih =>
      rcases hcopy : (m.channel site target ns.name).transcode
        ((site.source world).items (KeyRange.ofNamespace ns)) world with ⟨e | stats, p⟩
      · rw [copyEach_cons_error hcopy] at h
        cases h
      · rw [copyEach_cons_ok hcopy] at h
        obtain ⟨counts, rfl, hnoted, hadded, hread⟩ := ih h
        refine ⟨(ns, stats.written) :: counts, rfl, hnoted, fun ns' => ?_, fun hspares => ?_⟩
        · rw [hadded, countCopied, Tally.count_add, Tally.listed_cons]
          by_cases hns : ns = ns'
          · simp [hns, Nat.add_assoc]
          · simp [hns]
        · -- the archive is read by each turn as it was at the start
          have hsource := source_transcode hspares m ns.name
            ((site.source world).items (KeyRange.ofNamespace ns)) world
          rw [hcopy] at hsource
          refine List.forall_mem_cons.2 ⟨exists_scan_of_copied hcopy, ?_⟩
          rw [← hsource]
          exact hread hspares

/-! ### The two counts -/

/-- How a copy that succeeds is counted by the report and by what it returns. -/
structure CountsTurns (site : Site σ) (target : Target σ) (namespaces : List Namespace)
    (m : Migrator) (world : σ) (m' : Migrator) (copied : Tally) : Prop where
  /-- Each time that a namespace is named has a count: the report adds all of them, and what is
  returned is the last one. -/
  turns : ∃ counts : List (Namespace × Nat), counts.map Prod.fst = namespaces ∧
    (∀ ns, m'.report.copied.count ns = m.report.copied.count ns + Tally.listed counts ns) ∧
    ∀ ns, copied[ns]? = Tally.latest? counts ns
  /-- What is returned has an entry for each namespace that is named, and no other. -/
  named : ∀ ns, ns ∈ copied ↔ ns ∈ namespaces
  /-- A namespace that is named once is counted alike. -/
  once : ∀ ns, namespaces.count ns = 1 →
    m'.report.copied.count ns = m.report.copied.count ns + copied.count ns
  /-- As long as writing leaves the archive as it is, what is returned is the number of the pairs
  that were read, -/
  pairs : site.Spares target → ∀ ns ∈ namespaces, ∃ read,
    (site.source world).scan (.ofNamespace ns) = .ok read ∧ copied[ns]? = some read.length
  /-- the report has grown by as much for each time that the namespace is named, -/
  grown : site.Spares target → ∀ ns, m'.report.copied.count ns =
    m.report.copied.count ns + namespaces.count ns * copied.count ns
  /-- and so the two agree only about what is named once and about what is empty. -/
  agree_iff : site.Spares target → ∀ ns ∈ namespaces,
    (m'.report.copied.count ns = m.report.copied.count ns + copied.count ns ↔
      namespaces.count ns = 1 ∨ copied.count ns = 0)

/-- Whatever the archive, the store and the namespaces: the report of a copy that succeeds has grown
by what all turns of a namespace wrote, and what is returned is what its last turn wrote. -/
theorem copyNamespaces_counted
    (h : m.copyNamespaces site target namespaces world = (.ok copied, m', world')) :
    CountsTurns site target namespaces m world m' copied := by
  have hready : m.state.canCopy = true := by
    by_contra hbusy
    rw [copyNamespaces, if_neg hbusy] at h
    cases h
  rw [copyNamespaces, if_pos hready] at h
  obtain ⟨counts, rfl, rfl, hadded, hread⟩ := copyEach_counts h
  have hnoted : ∀ ns, (Tally.noteAll ∅ counts)[ns]? = Tally.latest? counts ns := by
    intro ns
    simp [Tally.getElem?_noteAll]
  have hnamed : ∀ ns, ns ∈ Tally.noteAll ∅ counts ↔ ns ∈ counts.map Prod.fst := by
    intro ns
    rw [Std.ExtTreeMap.mem_iff_isSome_getElem?, hnoted, ← Option.ne_none_iff_isSome, ne_eq,
      Tally.latest?_eq_none_iff, not_not]
  have hpairs : site.Spares target → ∀ ns ∈ counts.map Prod.fst, ∃ read,
      (site.source world).scan (.ofNamespace ns) = .ok read ∧
        (Tally.noteAll ∅ counts)[ns]? = some read.length := by
    intro hspares ns hns
    obtain ⟨n, hn⟩ := Option.isSome_iff_exists.1
      (Std.ExtTreeMap.mem_iff_isSome_getElem?.1 ((hnamed ns).2 hns))
    obtain ⟨read, hscan, hcount⟩ := hread hspares _ (Tally.mem_of_latest? ((hnoted ns) ▸ hn))
    exact ⟨read, hscan, hn.trans (congrArg some hcount)⟩
  have hgrown : site.Spares target → ∀ ns, m'.report.copied.count ns =
      m.report.copied.count ns +
        (counts.map Prod.fst).count ns * (Tally.noteAll ∅ counts).count ns := by
    intro hspares ns
    rw [hadded]
    congr 1
    refine Tally.listed_of_uniform fun p hp hns => ?_
    -- all turns of the namespace have read the same pairs
    obtain ⟨read, hscan, hcount⟩ := hpairs hspares ns (List.mem_map.2 ⟨p, hp, hns⟩)
    obtain ⟨read', hscan', hcount'⟩ := hread hspares p hp
    rw [hns, hscan] at hscan'
    cases hscan'
    rw [hcount', Tally.count, hcount]
    rfl
  exact {
    turns := ⟨counts, rfl, hadded, hnoted⟩
    named := hnamed
    once := fun ns hns => by
      have hlast : (Tally.noteAll ∅ counts).count ns = Tally.listed counts ns := by
        rw [Tally.count, hnoted, Tally.listed_of_count_eq_one hns]
        rfl
      rw [hadded, hlast]
    pairs := hpairs
    grown := hgrown
    agree_iff := fun hspares ns hns => by
      have hpos : 0 < (counts.map Prod.fst).count ns := List.count_pos_iff.2 hns
      rw [hgrown hspares, Nat.add_left_cancel_iff]
      constructor
      · intro heq
        by_cases hzero : (Tally.noteAll ∅ counts).count ns = 0
        · exact .inr hzero
        · exact .inl (Nat.eq_of_mul_eq_mul_right (Nat.pos_of_ne_zero hzero) (by omega))
      · rintro (hone | hzero)
        · rw [hone, Nat.one_mul]
        · rw [hzero, Nat.mul_zero] }

end Migrator

/-! ### A rehearsed copy -/

namespace Rehearsal

/-- The sample with tick data named twice: the report counts them twice, what is returned once. -/
theorem copyNamespaces_counted_sample :
    ∃ copied m' w',
      sampleMigrator.copyNamespaces site (placeTarget "out") sampleNamespaces sample =
        (.ok copied, m', w') ∧
      Migrator.CountsTurns site (placeTarget "out") sampleNamespaces sampleMigrator sample m'
        copied := by
  have hok : (sampleMigrator.copyNamespaces site (placeTarget "out") sampleNamespaces
      sample).1.isOk = true := by
    decide +kernel
  rcases h : sampleMigrator.copyNamespaces site (placeTarget "out") sampleNamespaces sample with
    ⟨e | copied, m', w'⟩
  · rw [h] at hok
    cases hok
  · exact ⟨copied, m', w', rfl, Migrator.copyNamespaces_counted h⟩

/-- Tick data that are named twice: two records are returned, and the report has grown by four. -/
theorem copyNamespaces_tickDataTwice :
    (sampleMigrator.copyNamespaces site (placeTarget "out") [.tickData, .tickData]
        sample).1.toOption.map (Tally.count · .tickData) = some 2 ∧
      sampleMigrator.report.copied.count .tickData = 0 ∧
      (sampleMigrator.copyNamespaces site (placeTarget "out") [.tickData, .tickData]
        sample).2.1.report.copied.count .tickData = 4 := by
  decide +kernel

end Rehearsal

end EpochSplit
