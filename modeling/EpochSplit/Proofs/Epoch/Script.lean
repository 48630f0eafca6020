import EpochSplit.Epoch.Plan
import EpochSplit.Proofs.Batch.Schedule
import Mathlib.Data.List.Basic
import Mathlib.Data.List.Infix
/-!
# The steps of a plan

A plan is carried out by taking the steps of its streams, one stream after the other.  A plan
without a fault writes the records of its streams in order, however they are cut into batches; a
plan with a fault reports the first.
-/

namespace EpochSplit.EpochStream

variable {σ : Type}

/-- The steps of writing a stream in batches of `limit` records. -/
def steps (limit : Nat) (s : EpochStream) : List Step :=
  schedule limit s.label s.contexts [] 0 s.items

/-- The records of a stream, up to its first error. -/
def entries (s : EpochStream) : List Entry := leading s.items

/-- The first error of a stream, together with what is being done. -/
def fault? (s : EpochStream) : Option Error := (firstError? s.items).map (Error.within s.contexts)

/-! ### Faults and records of a plan -/

lemma fault?_steps (limit : Nat) (s : EpochStream) :
    (s.steps limit).findSome? Step.fault? = s.fault? :=
  fault?_schedule _ _ _ _ _ _

/-- The fault that a plan reports does not depend on how its streams are cut into batches. -/
theorem fault?_flatMap_steps (limit : Nat) (plan : List EpochStream) :
    (plan.flatMap (steps limit)).findSome? Step.fault? = plan.findSome? fault? := by
  induction plan with
  | nil => rfl
  | cons s plan ih =>
      rw [List.flatMap_cons, List.findSome?_append, fault?_steps, ih, List.findSome?_cons]
      cases s.fault? <;> rfl

/-- A plan has a fault if there is an error anywhere in it. -/
lemma firstError?_flatMap_items {plan : List EpochStream} :
    firstError? (plan.flatMap items) = none ↔ plan.findSome? fault? = none := by
  induction plan with
  | nil => exact ⟨fun _ => rfl, fun _ => rfl⟩
  | cons s plan ih =>
      rw [List.flatMap_cons, firstError?_append, Option.or_eq_none_iff, ih, List.findSome?_cons,
        fault?]
      cases firstError? s.items with
      | none => simp
      | some e => simp

/-- The records of a plan without a fault are the records in front of the first error, as there is
no error. -/
lemma leading_flatMap_items {plan : List EpochStream} (hsound : plan.findSome? fault? = none) :
    leading (plan.flatMap items) = plan.flatMap entries := by
  induction plan with
  | nil => rfl
  | cons s plan ih =>
      have hall := firstError?_flatMap_items.2 hsound
      rw [List.flatMap_cons, firstError?_append, Option.or_eq_none_iff] at hall
      rw [List.flatMap_cons, List.flatMap_cons, leading_append_of_ok hall.1,
        ih (firstError?_flatMap_items.1 hall.2), entries]

lemma firstError?_of_sound {plan : List EpochStream} (hsound : plan.findSome? fault? = none)
    {s : EpochStream} (hs : s ∈ plan) : firstError? s.items = none := by
  have hnone := List.findSome?_eq_none_iff.1 hsound s hs
  simpa [fault?] using hnone

/-- The records that a plan without a fault writes do not depend on how its streams are cut into
batches. -/
theorem entries_flatMap_steps (limit : Nat) {plan : List EpochStream}
    (hsound : plan.findSome? fault? = none) :
    (plan.flatMap (steps limit)).flatMap Step.entries = plan.flatMap entries := by
  rw [List.flatMap_assoc]
  refine List.flatMap_congr fun s hs => ?_
  exact entries_schedule _ _ _ _ _ (firstError?_of_sound hsound hs)

lemma prefix_entries_steps (limit : Nat) (s : EpochStream) :
    (s.steps limit).flatMap Step.entries <+: s.entries :=
  prefix_entries_schedule _ _ _ _ _ _

/-- What the steps of a plan write is among its records, even if the plan has a fault. -/
lemma mem_entries_of_mem_steps {limit : Nat} {plan : List EpochStream} {entry : Entry}
    (h : entry ∈ (plan.flatMap (steps limit)).flatMap Step.entries) :
    entry ∈ plan.flatMap entries := by
  rw [List.flatMap_assoc] at h
  obtain ⟨s, hs, hentry⟩ := List.mem_flatMap.1 h
  exact List.mem_flatMap.2 ⟨s, hs, (prefix_entries_steps limit s).subset hentry⟩

/-- Steps that are taken up to some point without meeting a fault write a beginning of the records
in front of the first error of the plan. -/
theorem entries_prefix_leading {limit : Nat} {plan : List EpochStream} {done : List Step}
    (hdone : done <+: plan.flatMap (steps limit)) (hsound : done.findSome? Step.fault? = none) :
    done.flatMap Step.entries <+: leading (plan.flatMap items) := by
  induction plan generalizing done with
  | nil =>
      rw [List.prefix_nil.1 hdone]
      exact List.nil_prefix
  | cons s plan ih =>
      rw [List.flatMap_cons] at hdone ⊢
      -- either this stream is not finished, or all of it was written
      obtain hpart | ⟨more, rfl⟩ := List.prefix_or_prefix_of_prefix hdone (List.prefix_append _ _)
      · have hentries : done.flatMap Step.entries <+: s.entries :=
          (List.IsPrefix.flatMap hpart Step.entries).trans (prefix_entries_steps limit s)
        exact hentries.trans (leading_prefix_append _ _)
      · rw [List.findSome?_append, Option.or_eq_none_iff, fault?_steps] at hsound
        have hitems : firstError? s.items = none := by simpa [fault?] using hsound.1
        rw [List.flatMap_append, leading_append_of_ok hitems, steps,
          entries_schedule _ _ _ _ _ hitems, List.nil_append]
        exact (List.prefix_append_right_inj _).2
          (ih ((List.prefix_append_right_inj _).1 hdone) hsound.2)

end EpochSplit.EpochStream
