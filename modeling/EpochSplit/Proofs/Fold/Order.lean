import EpochSplit.Proofs.Fold.Selection
import EpochSplit.Proofs.Metadata.Intervals
import EpochSplit.Proofs.Store.Overlay
/-!
# The order of records

A fold that prefers greater ticks keeps of each group the earliest record of the greatest tick,
where the group of a record is the first range of its epoch that contains its tick.  So the order in
which the records come decides between records of one tick only, a record that comes again changes
nothing, and a record that is refused leaves no trace (`selectsGreatest`).
-/

namespace EpochSplit

variable {V : Type}

/-! ### The earliest of the greatest -/

section Argmax

variable {α : Type} {g : α → Nat}

/-- An element that exceeds all in front of it, and that none behind exceeds, is the first of the
greatest. -/
lemma argmax_append_cons {before after : List α} {a : α} (hbefore : ∀ b ∈ before, g b < g a)
    (hafter : ∀ b ∈ after, g b ≤ g a) : (before ++ a :: after).argmax g = some a := by
  induction after using List.reverseRecOn with
  | nil =>
      rw [List.argmax_concat]
      cases hbest : before.argmax g with
      | none => rfl
      | some best => exact if_pos (hbefore best (List.argmax_mem hbest))
  | append_singleton after c ih =>
      rw [← List.cons_append, ← List.append_assoc, List.argmax_concat,
        ih fun b hb => hafter b (List.mem_append_left _ hb)]
      exact if_neg (Nat.not_lt.2 (hafter c (List.mem_append_right _ List.mem_cons_self)))

/-- The first of the greatest elements of a list exceeds all in front of it, and none behind exceeds
it. -/
theorem argmax_eq_some_iff_append {as : List α} {a : α} :
    as.argmax g = some a ↔ ∃ before after, as = before ++ a :: after ∧
      (∀ b ∈ before, g b < g a) ∧ ∀ b ∈ after, g b ≤ g a := by
  refine ⟨fun h => ?_, ?_⟩
  · induction as using List.reverseRecOn with
    | nil => cases h
    | append_singleton as c ih =>
        rw [List.argmax_concat] at h
        cases hbest : as.argmax g with
        | none =>
            rw [hbest] at h
            cases h
            rw [List.argmax_eq_none.1 hbest]
            exact ⟨[], [], rfl, List.forall_mem_nil _, List.forall_mem_nil _⟩
        | some best =>
            simp only [hbest] at h
            split at h
            · next hless =>
                cases h
                refine ⟨as, [], rfl, fun b hb => ?_, List.forall_mem_nil _⟩
                exact (List.le_of_mem_argmax hb hbest).trans_lt hless
            · next hless =>
                cases h
                obtain ⟨before, after, rfl, hbefore, hafter⟩ := ih hbest
                refine ⟨before, after ++ [c], by simp, hbefore, fun b hb => ?_⟩
                rcases List.mem_append.1 hb with hb | hb
                · exact hafter b hb
                · rw [List.mem_singleton.1 hb]
                  exact Nat.not_lt.1 hless
  · rintro ⟨before, after, rfl, hbefore, hafter⟩
    exact argmax_append_cons hbefore hafter

/-- The same among the elements with a property. -/
theorem argmax_filter_eq_some_iff {p : α → Bool} {as : List α} {a : α} :
    (as.filter p).argmax g = some a ↔ ∃ before after, as = before ++ a :: after ∧ p a = true ∧
      (∀ b ∈ before, p b = true → g b < g a) ∧ ∀ b ∈ after, p b = true → g b ≤ g a := by
  rw [argmax_eq_some_iff_append]
  constructor
  · rintro ⟨less, rest, hfilter, hless, hrest⟩
    obtain ⟨before, others, rfl, rfl, hothers⟩ := List.filter_eq_append_iff.1 hfilter
    obtain ⟨skipped, after, rfl, hskipped, ha, rfl⟩ := List.filter_eq_cons_iff.1 hothers
    refine ⟨before ++ skipped, after, by simp, ha, fun b hb hp => ?_, fun b hb hp => ?_⟩
    · rcases List.mem_append.1 hb with hb | hb
      · exact hless b (List.mem_filter.2 ⟨hb, hp⟩)
      · exact absurd hp (hskipped b hb)
    · exact hrest b (List.mem_filter.2 ⟨hb, hp⟩)
  · rintro ⟨before, after, rfl, ha, hbefore, hafter⟩
    refine ⟨before.filter p, after.filter p, ?_, fun b hb => ?_, fun b hb => ?_⟩
    · rw [List.filter_append, List.filter_cons_of_pos ha]
    · exact hbefore b (List.mem_filter.1 hb).1 (List.mem_filter.1 hb).2
    · exact hafter b (List.mem_filter.1 hb).1 (List.mem_filter.1 hb).2

/-- Where the greatest elements stand makes no difference to how great they are. -/
lemma map_argmax_of_perm {as bs : List α} (h : as.Perm bs) :
    (as.argmax g).map g = (bs.argmax g).map g := by
  cases ha : as.argmax g with
  | none =>
      have hnil : bs = [] := by
        rw [List.argmax_eq_none.1 ha] at h
        exact h.nil_eq.symm
      rw [hnil]
      rfl
  | some a =>
      cases hb : bs.argmax g with
      | none =>
          rw [List.argmax_eq_none.1 hb] at h
          rw [h.eq_nil] at ha
          cases ha
      | some b =>
          have hle := List.le_of_mem_argmax (h.mem_iff.1 (List.argmax_mem ha)) hb
          have hge := List.le_of_mem_argmax (h.mem_iff.2 (List.argmax_mem hb)) ha
          exact congrArg some (Nat.le_antisymm hle hge)

end Argmax

/-! ### The group of a record -/

/-- The record is about a tick of the epoch, and the range at position `i` is the first of the epoch
to contain that tick. -/
def IntervalIndex.Places [Attributed V] (index : IntervalIndex) (v : V) (epoch : UInt32) (i : Nat) :
    Prop :=
  ∃ tick ranges range, Attributed.attribution v = some (epoch, tick) ∧
    index.ranges[epoch]? = some ranges ∧ ranges[i]? = some range ∧ range.contains tick = true ∧
    ∀ j < i, ∀ earlier, ranges[j]? = some earlier → earlier.contains tick = false

namespace Fold

variable {f : Fold V} {epoch : UInt32} {i : Nat} {v : V} {vs vs' : List V}

/-! ### Making room -/

lemma insertIfNew_of_mem {groups : Groups V} (h : epoch ∈ groups) :
    groups.insertIfNew epoch ∅ = groups := by
  refine Std.ExtTreeMap.ext_getElem? fun epoch' => ?_
  rw [Std.ExtTreeMap.getElem?_insertIfNew, if_neg fun hnew => hnew.2 h]

lemma getD_insertIfNew (groups : Groups V) (epoch : UInt32) :
    (groups.insertIfNew epoch ∅)[epoch]?.getD ∅ = groups[epoch]?.getD ∅ := by
  by_cases h : epoch ∈ groups
  · rw [insertIfNew_of_mem h]
  · rw [Std.ExtTreeMap.getElem?_insertIfNew, if_pos ⟨Std.ReflCmp.compare_self, h⟩,
      Std.ExtTreeMap.getElem?_eq_none h]
    rfl

lemma insert_insertIfNew (groups : Groups V) (epoch : UInt32) (group : Std.ExtTreeMap Nat V) :
    (groups.insertIfNew epoch ∅).insert epoch group = groups.insert epoch group := by
  refine Std.ExtTreeMap.ext_getElem? fun epoch' => ?_
  rw [Std.ExtTreeMap.getElem?_insert, Std.ExtTreeMap.getElem?_insert]
  split
  · rfl
  · next hne => rw [Std.ExtTreeMap.getElem?_insertIfNew, if_neg fun hnew => hne hnew.1]

variable [Attributed V]

/-! ### The group that is offered to -/

lemma exists_find_of_groupOf (h : f.groupOf v = .ok (epoch, i)) :
    ∃ tick, Attributed.attribution v = some (epoch, tick) ∧ f.index.find epoch tick = .ok i := by
  unfold groupOf at h
  split at h
  · cases h
  · next epoch' tick hat =>
      rcases hfind : f.index.find epoch' tick with fault | i'
      · rw [hfind] at h
        cases h
      · rw [hfind] at h
        cases h
        exact ⟨tick, hat, hfind⟩

lemma groupOf_eq_ok_iff : f.groupOf v = .ok (epoch, i) ↔ f.index.Places v epoch i := by
  constructor
  · intro h
    obtain ⟨tick, hat, hfind⟩ := exists_find_of_groupOf h
    obtain ⟨ranges, hranges, hindex⟩ := IntervalIndex.find_eq_ok_iff.1 hfind
    obtain ⟨range, hrange⟩ := TickRange.indexOf?_eq_some_iff.1 hindex
    exact ⟨tick, ranges, range, hat, hranges, hrange⟩
  · rintro ⟨tick, ranges, range, hat, hranges, hrange⟩
    have hfind := IntervalIndex.find_eq_ok_iff.2
      ⟨ranges, hranges, TickRange.indexOf?_eq_some_iff.2 ⟨range, hrange⟩⟩
    simp only [groupOf, hat, hfind]
    rfl

/-! ### Offering in place -/

/-- A record that belongs to a group is offered to it. -/
theorem observeInPlace_of_ok (h : f.groupOf v = .ok (epoch, i)) :
    f.observeInPlace v = (.ok (), f.offer epoch i v) := by
  obtain ⟨tick, hat, hfind⟩ := exists_find_of_groupOf h
  simp only [observeInPlace, hat, hfind, offer, getD_insertIfNew, insert_insertIfNew]
  split
  · next hstays =>
      -- a group that keeps its record was there before
      have hmem : epoch ∈ f.groups := by
        rw [keeps_eq_getD] at hstays
        obtain ⟨current, hcurrent, -⟩ := (Option.any_eq_true _ _).1 hstays
        obtain ⟨group, hgroup, -⟩ := Option.bind_eq_some_iff.1 hcurrent
        exact mem_iff_exists_getElem?.2 ⟨group, hgroup⟩
      rw [insertIfNew_of_mem hmem]
  · rfl

/-- A record that belongs to no group is refused, and nothing has changed. -/
theorem observeInPlace_of_error {fault : ConsistencyFault} (h : f.groupOf v = .error fault) :
    f.observeInPlace v = (.error fault, f) := by
  unfold groupOf at h
  unfold observeInPlace
  split at h
  · cases h
    rfl
  · next epoch tick hat =>
      rcases hfind : f.index.find epoch tick with fault' | i
      · rw [hfind] at h
        cases h
        simp only
      · rw [hfind] at h
        cases h

/-- A fold after a sequence of records was offered to it in place. -/
def observeEach (f : Fold V) (vs : List V) : Fold V :=
  vs.foldl (fun f v => (f.observeInPlace v).2) f

lemma observeEach_concat (f : Fold V) (vs : List V) (v : V) :
    f.observeEach (vs ++ [v]) = ((f.observeEach vs).observeInPlace v).2 := by
  rw [observeEach, List.foldl_concat, ← observeEach]

lemma observeEach_eq_observeAll (f : Fold V) (vs : List V) :
    f.observeEach vs = f.observeAll vs := by
  induction vs using List.reverseRecOn with
  | nil => rfl
  | append_singleton vs v ih =>
      rw [observeAll_concat, ← ih, observeEach_concat]
      rcases hgroup : (f.observeEach vs).groupOf v with fault | ⟨epoch, i⟩
      · rw [observeInPlace_of_error hgroup, observe_of_error hgroup]
      · rw [observeInPlace_of_ok hgroup, observe_of_ok hgroup]

/-! ### The records that are kept -/

/-- A fold that prefers greater ticks, before any record was offered to it. -/
def fresh (index : IntervalIndex) : Fold V := { index, prefers := greatestTick }

/-- What a fold over `vs` keeps if it prefers greater ticks. -/
structure SelectsGreatest (index : IntervalIndex) (vs : List V) : Prop where
  /-- A group holds a record if some record belongs to it. -/
  holds : ∀ epoch i, (((fresh index).observeEach vs).keeps epoch i).isSome ↔
    ∃ v ∈ vs, index.Places v epoch i
  /-- That record is the earliest of the greatest tick in the group. -/
  earliest : ∀ epoch i v, ((fresh index).observeEach vs).keeps epoch i = some v ↔
    ∃ before after, vs = before ++ v :: after ∧ index.Places v epoch i ∧
      (∀ w ∈ before, index.Places w epoch i → Attributed.tick w < Attributed.tick v) ∧
      ∀ w ∈ after, index.Places w epoch i → Attributed.tick w ≤ Attributed.tick v
  /-- The epochs with groups are those that some record belongs to. -/
  epochs : ∀ epoch, epoch ∈ ((fresh index).observeEach vs).groups ↔
    ∃ v ∈ vs, ∃ i, index.Places v epoch i
  /-- The ticks that are kept do not depend on the order of the records. -/
  ticks : ∀ {vs'}, vs.Perm vs' → ∀ epoch i,
    (((fresh index).observeEach vs').keeps epoch i).map Attributed.tick =
      (((fresh index).observeEach vs).keeps epoch i).map Attributed.tick
  /-- Nor does the record that is kept of a group, if the ticks in the group are distinct. -/
  records : ∀ {vs'}, vs.Perm vs' → ∀ epoch i,
    (∀ v ∈ vs, ∀ w ∈ vs, index.Places v epoch i → index.Places w epoch i →
      Attributed.tick v = Attributed.tick w → v = w) →
    ((fresh index).observeEach vs').keeps epoch i = ((fresh index).observeEach vs).keeps epoch i
  /-- Just the records that belong to a group are taken. -/
  accepts : ∀ v, (((fresh index).observeEach vs).observeInPlace v).1 = .ok () ↔
    ∃ epoch i, index.Places v epoch i
  /-- A record that was taken before changes nothing when it comes again. -/
  again : ∀ v ∈ vs, (∃ epoch i, index.Places v epoch i) →
    ((fresh index).observeEach vs).observeInPlace v = (.ok (), (fresh index).observeEach vs)
  /-- A record that is refused changes nothing. -/
  failed : ∀ {v fault f'}, ((fresh index).observeEach vs).observeInPlace v = (.error fault, f') →
    f' = (fresh index).observeEach vs

lemma keeps_observeEach (index : IntervalIndex) (vs : List V) (epoch : UInt32) (i : Nat) :
    ((fresh index).observeEach vs).keeps epoch i =
      ((fresh index).members epoch i vs).argmax Attributed.tick := by
  rw [observeEach_eq_observeAll]
  exact keeps_observeAll rfl rfl vs epoch i

lemma mem_members_fresh {index : IntervalIndex} :
    v ∈ (fresh index).members epoch i vs ↔ v ∈ vs ∧ index.Places v epoch i := by
  rw [mem_members, groupOf_eq_ok_iff]
  rfl

lemma groupOf_observeEach (index : IntervalIndex) (vs : List V) :
    ((fresh index).observeEach vs).groupOf v = .ok (epoch, i) ↔ index.Places v epoch i := by
  rw [observeEach_eq_observeAll, groupOf_observeAll, groupOf_eq_ok_iff]
  rfl

lemma placed_of_keeps {index : IntervalIndex}
    (h : ((fresh index).observeEach vs).keeps epoch i = some v) :
    v ∈ vs ∧ index.Places v epoch i := by
  rw [keeps_observeEach] at h
  exact mem_members_fresh.1 (List.argmax_mem h)

/-- Permuted records leave records of the same ticks. -/
lemma map_keeps_of_perm (index : IntervalIndex) (h : vs.Perm vs') (epoch : UInt32) (i : Nat) :
    (((fresh index).observeEach vs').keeps epoch i).map Attributed.tick =
      (((fresh index).observeEach vs).keeps epoch i).map Attributed.tick := by
  rw [keeps_observeEach, keeps_observeEach]
  exact map_argmax_of_perm (h.symm.filter _)

/-- Permuted records leave the same record if the tick tells which one it is. -/
lemma keeps_of_perm {index : IntervalIndex} (h : vs.Perm vs')
    (hdistinct : ∀ v ∈ vs, ∀ w ∈ vs, index.Places v epoch i → index.Places w epoch i →
      Attributed.tick v = Attributed.tick w → v = w) :
    ((fresh index).observeEach vs').keeps epoch i =
      ((fresh index).observeEach vs).keeps epoch i := by
  have hticks := map_keeps_of_perm index h epoch i
  cases hkept : ((fresh index).observeEach vs).keeps epoch i with
  | none =>
      rw [hkept, Option.map_none, Option.map_eq_none_iff] at hticks
      exact hticks
  | some v =>
      rw [hkept] at hticks
      obtain ⟨w, hkept', htick⟩ := Option.map_eq_some_iff.1 hticks
      obtain ⟨hv, hplaced⟩ := placed_of_keeps hkept
      obtain ⟨hw, hplaced'⟩ := placed_of_keeps hkept'
      rw [hkept', hdistinct w (h.mem_iff.2 hw) v hv hplaced' hplaced htick]

/-- A record is refused if it belongs to no group, and only then. -/
lemma observeInPlace_cases (index : IntervalIndex) (vs : List V) (v : V) :
    (∃ fault, ((fresh index).observeEach vs).observeInPlace v =
        (.error fault, (fresh index).observeEach vs) ∧ ¬∃ epoch i, index.Places v epoch i) ∨
      ((((fresh index).observeEach vs).observeInPlace v).1 = .ok () ∧
        ∃ epoch i, index.Places v epoch i) := by
  rcases hgroup : ((fresh index).observeEach vs).groupOf v with fault | ⟨epoch, i⟩
  · refine .inl ⟨fault, observeInPlace_of_error hgroup, ?_⟩
    rintro ⟨epoch, i, hplaced⟩
    rw [(groupOf_observeEach index vs).2 hplaced] at hgroup
    cases hgroup
  · refine .inr ⟨?_, epoch, i, (groupOf_observeEach index vs).1 hgroup⟩
    rw [observeInPlace_of_ok hgroup]

/-- Whatever the intervals and the records: of each group the earliest record of the greatest tick
is kept, so that the order counts for records of one tick only; records that come again and records
that are refused change nothing. -/
theorem selectsGreatest (index : IntervalIndex) (vs : List V) : SelectsGreatest index vs where
  holds epoch i := by
    rw [keeps_observeEach, ← Option.ne_none_iff_isSome, ne_eq, List.argmax_eq_none,
      List.eq_nil_iff_forall_not_mem]
    push Not
    simp only [mem_members_fresh]
  earliest epoch i v := by
    rw [keeps_observeEach, members, argmax_filter_eq_some_iff]
    simp only [decide_eq_true_eq, toOption_eq_some_iff, groupOf_eq_ok_iff]
    rfl
  epochs epoch := by
    rw [observeEach_eq_observeAll, mem_groups_observeAll rfl]
    simp only [groupOf_eq_ok_iff]
    rfl
  ticks h := map_keeps_of_perm index h
  records h _ _ := keeps_of_perm h
  accepts v := by
    obtain ⟨fault, hrefused, hnone⟩ | ⟨htaken, hplaced⟩ := observeInPlace_cases index vs v
    · simp [hrefused, hnone]
    · simp only [htaken, hplaced]
  again v hv hplaced := by
    obtain ⟨fault, -, hnone⟩ | ⟨htaken, -⟩ := observeInPlace_cases index vs v
    · exact absurd hplaced hnone
    · refine Prod.ext htaken ?_
      rw [← observeEach_concat, observeEach_eq_observeAll, observeEach_eq_observeAll]
      exact observeAll_concat_of_mem rfl rfl hv
  failed {v fault f'} h := by
    obtain ⟨fault', hrefused, -⟩ | ⟨htaken, -⟩ := observeInPlace_cases index vs v
    · rw [hrefused] at h
      cases h
      rfl
    · rw [h] at htaken
      cases htaken

end Fold

end EpochSplit
