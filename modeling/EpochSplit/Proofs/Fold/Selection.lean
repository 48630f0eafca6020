import EpochSplit.Fold
import EpochSplit.Proofs.Batch.Schedule
import Mathlib.Data.List.MinMax
import Mathlib.Data.List.Induction
/-!
# What a fold keeps

A fold that prefers records of a greater tick keeps of each group the first among its records of the
greatest tick (`keeps_observeAll`).  A record that was offered before makes no difference when it is
offered again (`observeAll_concat_of_mem`), so records that come more than once count once
(`observeAll_eraseDups`).
-/

namespace EpochSplit

variable {V : Type}

/-- The tick that a record is about. -/
def Attributed.tick [Attributed V] (v : V) : Nat :=
  ((attribution v).map (·.2.toNat)).getD 0

namespace Fold

variable {f : Fold V} {epoch epoch' : UInt32} {i i' : Nat} {v : V} {vs : List V}

/-- The record that the fold keeps for a group so far. -/
def keeps (f : Fold V) (epoch : UInt32) (i : Nat) : Option V :=
  f.groups[epoch]?.bind (·[i]?)

/-- Of two records of a group, the one that the fold keeps. -/
def better (f : Fold V) (current? : Option V) (v : V) : V :=
  match current? with
  | none => v
  | some current => if f.prefers current v then v else current

/-! ### One record -/

lemma keeps_eq_getD (f : Fold V) (epoch : UInt32) (i : Nat) :
    (f.groups[epoch]?.getD ∅)[i]? = f.keeps epoch i := by
  unfold keeps
  cases f.groups[epoch]? with
  | none => exact Std.ExtTreeMap.getElem?_empty
  | some group => rfl

/-- Offering a record to a group leaves the other groups as they are. -/
lemma keeps_offer (f : Fold V) (epoch epoch' : UInt32) (i i' : Nat) (v : V) :
    (f.offer epoch i v).keeps epoch' i' =
      if (epoch, i) = (epoch', i') then some (f.better (f.keeps epoch i) v)
      else f.keeps epoch' i' := by
  unfold offer
  simp only [keeps_eq_getD]
  split
  · next hstays =>
      obtain ⟨current, hcurrent, hprefers⟩ := (Option.any_eq_true _ _).1 hstays
      split
      · next hsame =>
          cases hsame
          have hprefers' : f.prefers current v = false := by simpa using hprefers
          rw [hcurrent, better, hprefers', if_neg Bool.false_ne_true]
      · rfl
  · next htakes =>
      have hbetter : f.better (f.keeps epoch i) v = v := by
        cases hcurrent : f.keeps epoch i with
        | none => rfl
        | some current =>
            rw [hcurrent] at htakes
            have hprefers : f.prefers current v = true := by simpa using htakes
            rw [better, if_pos hprefers]
      rw [hbetter]
      rw [keeps]
      by_cases hepoch : epoch = epoch'
      · subst hepoch
        rw [Std.ExtTreeMap.getElem?_insert_self, Option.bind_some, Std.ExtTreeMap.getElem?_insert,
          keeps_eq_getD]
        simp
      · have hne : compare epoch epoch' ≠ .eq := by simpa using hepoch
        rw [Std.ExtTreeMap.getElem?_insert, if_neg hne, ← keeps, if_neg (by simp [hepoch])]

lemma offer_of_kept {current : V} (hkept : f.keeps epoch i = some current)
    (hprefers : f.prefers current v = false) : f.offer epoch i v = f := by
  rw [offer]
  simp only [keeps_eq_getD, hkept, Option.any_some, hprefers, Bool.not_false, if_true]

lemma mem_groups_offer (f : Fold V) (epoch epoch' : UInt32) (i : Nat) (v : V) :
    epoch' ∈ (f.offer epoch i v).groups ↔ epoch = epoch' ∨ epoch' ∈ f.groups := by
  unfold offer
  simp only [keeps_eq_getD]
  split
  · next hstays =>
      -- a group that stays as it is was there before
      refine ⟨Or.inr, ?_⟩
      rintro (rfl | h)
      · obtain ⟨current, hcurrent, -⟩ := (Option.any_eq_true _ _).1 hstays
        obtain ⟨group, hgroup, -⟩ := Option.bind_eq_some_iff.1 hcurrent
        rw [Std.ExtTreeMap.mem_iff_isSome_getElem?, hgroup]
        rfl
      · exact h
  · simp [Std.ExtTreeMap.mem_insert]

variable [Attributed V]

lemma observe_of_ok (h : f.groupOf v = .ok (epoch, i)) :
    (f.observe v).toOption.getD f = f.offer epoch i v := by
  rw [observe, h]
  rfl

lemma observe_of_error {fault : ConsistencyFault} (h : f.groupOf v = .error fault) :
    (f.observe v).toOption.getD f = f := by
  rw [observe, h]
  rfl

/-! ### All records -/

lemma observeAll_concat (f : Fold V) (vs : List V) (v : V) :
    f.observeAll (vs ++ [v]) = ((f.observeAll vs).observe v).toOption.getD (f.observeAll vs) := by
  rw [observeAll, List.foldl_concat, observeAll]

/-- A fold groups and compares by the same rules all along. -/
lemma rules_observeAll (f : Fold V) (vs : List V) :
    (f.observeAll vs).index = f.index ∧ (f.observeAll vs).prefers = f.prefers := by
  induction vs using List.reverseRecOn with
  | nil => exact ⟨rfl, rfl⟩
  | append_singleton vs v ih =>
      rw [observeAll_concat]
      rcases hgroup : (f.observeAll vs).groupOf v with fault | ⟨epoch, i⟩
      · rwa [observe_of_error hgroup]
      · rw [observe_of_ok hgroup, offer]
        split <;> exact ih

lemma groupOf_observeAll (f : Fold V) (vs : List V) (v : V) :
    (f.observeAll vs).groupOf v = f.groupOf v := by
  unfold groupOf
  rw [(rules_observeAll f vs).1]

/-- The records of a group, in order. -/
def members (f : Fold V) (epoch : UInt32) (i : Nat) (vs : List V) : List V :=
  vs.filter fun v => (f.groupOf v).toOption = some (epoch, i)

lemma mem_members : v ∈ f.members epoch i vs ↔ v ∈ vs ∧ f.groupOf v = .ok (epoch, i) := by
  rw [members, List.mem_filter, decide_eq_true_eq, toOption_eq_some_iff]

lemma members_concat_of_eq (h : f.groupOf v = .ok (epoch, i)) :
    f.members epoch i (vs ++ [v]) = f.members epoch i vs ++ [v] := by
  rw [members, List.filter_append,
    List.filter_cons_of_pos (by simpa using toOption_eq_some_iff.2 h)]
  rfl

lemma members_concat_of_ne (h : f.groupOf v ≠ .ok (epoch, i)) :
    f.members epoch i (vs ++ [v]) = f.members epoch i vs := by
  rw [members, List.filter_append, List.filter_cons_of_neg (by simp [toOption_eq_some_iff, h]),
    List.filter_nil, List.append_nil, members]

/-- Records of a group say their tick, so that the preference compares the ticks. -/
lemma greatestTick_iff {current : V} (hcurrent : f.groupOf current = .ok (epoch, i))
    (hv : f.groupOf v = .ok (epoch', i')) :
    greatestTick current v = true ↔ Attributed.tick current < Attributed.tick v := by
  unfold groupOf at hcurrent hv
  unfold greatestTick Attributed.tick
  cases hc : Attributed.attribution current with
  | none =>
      rw [hc] at hcurrent
      cases hcurrent
  | some at' =>
      cases ht : Attributed.attribution v with
      | none =>
          rw [ht] at hv
          cases hv
      | some at'' => simp [UInt32.lt_iff_toNat_lt]

variable (hprefers : f.prefers = greatestTick) (hempty : f.groups = ∅)

include hprefers hempty

/-- Of each group, the first among the records of the greatest tick is kept. -/
theorem keeps_observeAll (vs : List V) (epoch : UInt32) (i : Nat) :
    (f.observeAll vs).keeps epoch i = (f.members epoch i vs).argmax Attributed.tick := by
  induction vs using List.reverseRecOn generalizing epoch i with
  | nil =>
      rw [observeAll, List.foldl_nil, keeps, hempty]
      rfl
  | append_singleton vs v ih =>
      rw [observeAll_concat]
      rcases hgroup : f.groupOf v with fault | ⟨epoch', i'⟩
      · rw [observe_of_error ((groupOf_observeAll f vs v).trans hgroup), ih,
          members_concat_of_ne (by simp [hgroup])]
      · rw [observe_of_ok ((groupOf_observeAll f vs v).trans hgroup), keeps_offer, ih, ih]
        split
        · next hsame =>
            cases hsame
            rw [members_concat_of_eq hgroup, List.argmax_concat]
            cases hbest : (f.members epoch i vs).argmax Attributed.tick with
            | none => rfl
            | some best =>
                have hbest' := (mem_members.1 (List.argmax_mem hbest)).2
                simp only [better, (rules_observeAll f vs).2, hprefers,
                  greatestTick_iff hbest' hgroup]
                split <;> rfl
        · next hother =>
            rw [members_concat_of_ne fun h => hother (Except.ok.inj (hgroup.symm.trans h))]

omit hprefers in
/-- There is a group of each epoch that some record belongs to, and none else. -/
theorem mem_groups_observeAll (vs : List V) (epoch : UInt32) :
    epoch ∈ (f.observeAll vs).groups ↔ ∃ v ∈ vs, ∃ i, f.groupOf v = .ok (epoch, i) := by
  induction vs using List.reverseRecOn with
  | nil => simp [observeAll, hempty]
  | append_singleton vs v ih =>
      simp only [List.mem_append, List.mem_singleton, or_and_right, exists_or, exists_eq_left]
      rw [observeAll_concat]
      rcases hgroup : f.groupOf v with fault | ⟨epoch', i'⟩
      · rw [observe_of_error ((groupOf_observeAll f vs v).trans hgroup), ih]
        simp
      · rw [observe_of_ok ((groupOf_observeAll f vs v).trans hgroup), mem_groups_offer, ih, or_comm]
        simp

/-- A record that was offered before changes nothing when it is offered again. -/
theorem observeAll_concat_of_mem (h : v ∈ vs) : f.observeAll (vs ++ [v]) = f.observeAll vs := by
  rw [observeAll_concat]
  rcases hgroup : f.groupOf v with fault | ⟨epoch, i⟩
  · exact observe_of_error ((groupOf_observeAll f vs v).trans hgroup)
  · rw [observe_of_ok ((groupOf_observeAll f vs v).trans hgroup)]
    have hmem : v ∈ f.members epoch i vs := mem_members.2 ⟨h, hgroup⟩
    cases hbest : (f.members epoch i vs).argmax Attributed.tick with
    | none =>
        rw [List.argmax_eq_none.1 hbest] at hmem
        cases hmem
    | some best =>
        -- what is kept has a tick that is no smaller
        have hgreater := List.le_of_mem_argmax hmem hbest
        refine offer_of_kept ((keeps_observeAll hprefers hempty vs epoch i).trans hbest) ?_
        rw [(rules_observeAll f vs).2, hprefers, Bool.eq_false_iff, ne_eq,
          greatestTick_iff (mem_members.1 (List.argmax_mem hbest)).2 hgroup]
        exact Nat.not_lt.2 hgreater

/-- Records that come more than once count once. -/
theorem observeAll_eraseDups {α : Type} [BEq α] [LawfulBEq α] (read : α → Option V) (as : List α) :
    f.observeAll (as.eraseDups.filterMap read) = f.observeAll (as.filterMap read) := by
  induction as using List.reverseRecOn with
  | nil => rfl
  | append_singleton as a ih =>
      rw [List.eraseDups_append, List.filterMap_append, List.filterMap_append]
      by_cases hmem : a ∈ as
      · have hgone : [a].removeAll as = [] := by simp [List.removeAll, hmem]
        rw [hgone, List.eraseDups_nil, List.filterMap_nil, List.append_nil, ih]
        cases hv : read a with
        | none => simp [hv]
        | some v =>
            rw [List.filterMap_cons_some hv, List.filterMap_nil]
            exact (observeAll_concat_of_mem hprefers hempty
              (List.mem_filterMap.2 ⟨a, hmem, hv⟩)).symm
      · have hstays : [a].removeAll as = [a] := by simp [List.removeAll, hmem]
        rw [hstays, List.eraseDups_cons, List.filter_nil, List.eraseDups_nil]
        cases hv : read a with
        | none => simpa [hv] using ih
        | some v =>
            rw [List.filterMap_cons_some hv, List.filterMap_nil, observeAll_concat,
              observeAll_concat, ih]

end Fold

end EpochSplit
