import Mathlib.Data.List.Basic
/-!
# Splitting a list at an element

Where an element stands in a list that was put together from two, and the last element with a
property.
-/

namespace EpochSplit

variable {α : Type} {first more before after : List α} {a : α}

/-- What follows a member of a list made of two parts, if it is in the first of them, or in the
second. -/
lemma split_append (h : first ++ more = before ++ a :: after) :
    (∃ rest, first = before ++ a :: rest ∧ after = rest ++ more) ∨
      ∃ rest, before = first ++ rest ∧ more = rest ++ a :: after := by
  obtain ⟨rest, hbefore, hmore⟩ | ⟨rest, hfirst, hafter⟩ := List.append_eq_append_iff.1 h
  · exact .inr ⟨rest, hbefore, hmore⟩
  · obtain ⟨rfl, hmore⟩ | ⟨rest', rfl, hafter⟩ := List.cons_eq_append_iff.1 hafter
    · exact .inr ⟨[], by rw [hfirst, List.append_nil, List.append_nil], hmore⟩
    · exact .inl ⟨rest', hfirst, List.tail_eq_of_cons_eq hafter⟩

lemma split_append_of_not_mem (h : first ++ more = before ++ a :: after) (ha : a ∉ first) :
    ∃ rest, before = first ++ rest ∧ more = rest ++ a :: after := by
  obtain ⟨rest, rfl, -⟩ | hmore := split_append h
  · exact absurd (List.mem_append_right _ List.mem_cons_self) ha
  · exact hmore

/-- If some element has a property, one is the last that has it. -/
lemma exists_last {p : α → Prop} {as : List α} (h : ∃ a ∈ as, p a) :
    ∃ before a after, as = before ++ a :: after ∧ p a ∧ ∀ b ∈ after, ¬p b := by
  induction as with
  | nil =>
      obtain ⟨a, ha, -⟩ := h
      cases ha
  | cons a as ih =>
      by_cases hlater : ∃ b ∈ as, p b
      · obtain ⟨before, b, after, rfl, hb⟩ := ih hlater
        exact ⟨a :: before, b, after, rfl, hb⟩
      · push Not at hlater
        obtain ⟨b, hb, hp⟩ := h
        obtain rfl | hb := List.mem_cons.1 hb
        · exact ⟨[], b, as, rfl, hp, hlater⟩
        · exact absurd hp (hlater b hb)

end EpochSplit
