import EpochSplit.Proofs.Maps
import EpochSplit.Store.Contents
import Mathlib.Data.List.Induction
/-!
# Contents after writing

Looking up a key after pairs were written over contents, and what follows for writing again.  The
last pair of a key decides about it, so pairs that are all written once more leave no trace of
their first writing: a sequence absorbs each of its prefixes, and writing it twice is writing it
once.
-/

namespace EpochSplit

namespace Contents

/-! ### Looking up a key -/

/-- The last value that a list of pairs has for a key. -/
def lastValue? (entries : List Entry) (key : Bytes) : Option Bytes :=
  entries.reverse.lookup key

@[simp] lemma lastValue?_nil (key : Bytes) : lastValue? [] key = none := rfl

lemma lastValue?_concat (entries : List Entry) (e : Entry) (key : Bytes) :
    lastValue? (entries ++ [e]) key = if e.1 = key then some e.2 else lastValue? entries key := by
  obtain ⟨k, value⟩ := e
  by_cases h : k = key
  · subst h
    simp [lastValue?]
  · have hbeq : (key == k) = false := beq_false_of_ne (Ne.symm h)
    simp [lastValue?, List.lookup_cons, hbeq, h]

lemma lastValue?_eq_none_iff {entries : List Entry} {key : Bytes} :
    lastValue? entries key = none ↔ key ∉ entries.map Prod.fst := by
  simp only [lastValue?, List.lookup_eq_none_iff, List.mem_reverse, List.mem_map, not_exists,
    not_and, bne_iff_ne, ne_eq]
  exact ⟨fun h e he heq => h e he heq.symm, fun h e he heq => h e he heq.symm⟩

/-- The value that was written last for a key stands among the pairs written. -/
lemma mem_of_lastValue? {entries : List Entry} {key value : Bytes}
    (h : lastValue? entries key = some value) : (key, value) ∈ entries := by
  obtain ⟨before, after, heq, -⟩ := List.lookup_eq_some_iff.1 h
  have hmem : (key, value) ∈ entries.reverse := by simp [heq]
  simpa using hmem

/-- The last pair of a key decides about it; other keys keep the value that they had. -/
theorem getElem?_overlay (base : Contents) (entries : List Entry) (key : Bytes) :
    (base.overlay entries)[key]? = (lastValue? entries key).or base[key]? := by
  induction entries using List.reverseRecOn with
  | nil => simp
  | append_singleton entries e ih =>
      rw [← Std.ExtTreeMap.get?_eq_getElem?, get?_overlay_concat, lastValue?_concat]
      split
      · rfl
      · rw [Std.ExtTreeMap.get?_eq_getElem?, ih]

lemma mem_overlay {c : Contents} {entries : List Entry} {key : Bytes} :
    key ∈ c.overlay entries ↔ key ∈ entries.map Prod.fst ∨ key ∈ c := by
  rw [Std.ExtTreeMap.mem_iff_isSome_getElem?, getElem?_overlay,
    Std.ExtTreeMap.mem_iff_isSome_getElem?, Option.isSome_or, Bool.or_eq_true,
    ← Option.ne_none_iff_isSome, ne_eq, lastValue?_eq_none_iff, not_not]

/-- What is found in contents that were empty before was written. -/
lemma mem_of_getElem?_overlay_empty {entries : List Entry} {key value : Bytes}
    (h : (overlay ∅ entries)[key]? = some value) : (key, value) ∈ entries := by
  rw [getElem?_overlay] at h
  exact mem_of_lastValue? (by simpa using h)

/-- If all pairs of a key that are written have one value, that value is found. -/
lemma getElem?_overlay_of_unique {entries : List Entry} {e : Entry} (he : e ∈ entries)
    (hunique : ∀ e' ∈ entries, e'.1 = e.1 → e' = e) : (overlay ∅ entries)[e.1]? = some e.2 := by
  obtain ⟨value, hvalue⟩ := mem_iff_exists_getElem?.1
    (mem_overlay.2 (.inl (List.mem_map_of_mem he)))
  have heq : (e.1, value) = e := hunique _ (mem_of_getElem?_overlay_empty hvalue) rfl
  rw [hvalue, ← heq]

/-- If each key is written with one value only, just the pairs that are written are found. -/
lemma getElem?_overlay_iff {entries : List Entry}
    (honce : ∀ e ∈ entries, ∀ e' ∈ entries, e'.1 = e.1 → e' = e) {key value : Bytes} :
    (overlay ∅ entries)[key]? = some value ↔ (key, value) ∈ entries :=
  ⟨mem_of_getElem?_overlay_empty, fun h => getElem?_overlay_of_unique h (honce _ h)⟩

/-! ### Writing again -/

/-- Pairs leave no trace once all of their keys are written again. -/
theorem overlay_overlay_of_keys {c : Contents} {first again : List Entry}
    (h : ∀ e ∈ first, e.1 ∈ again.map Prod.fst) :
    (c.overlay first).overlay again = c.overlay again := by
  -- a key that is not written again was not written first either
  refine Std.ExtTreeMap.ext_getElem? fun key => ?_
  rw [getElem?_overlay, getElem?_overlay, getElem?_overlay]
  cases hagain : lastValue? again key with
  | some value => rfl
  | none =>
      have hfirst : lastValue? first key = none := by
        rw [lastValue?_eq_none_iff] at hagain ⊢
        intro hmem
        obtain ⟨e, he, rfl⟩ := List.mem_map.1 hmem
        exact hagain (h e he)
      simp [hfirst]

/-- A sequence of pairs absorbs each of its prefixes. -/
theorem overlay_overlay_of_prefix {c : Contents} {first all : List Entry} (h : first <+: all) :
    (c.overlay first).overlay all = c.overlay all :=
  overlay_overlay_of_keys fun _ he => List.mem_map_of_mem (h.subset he)

end Contents

end EpochSplit
