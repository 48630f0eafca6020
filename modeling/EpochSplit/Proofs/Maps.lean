import Std.Data.ExtTreeMap
import Mathlib.Tactic.Common
/-!
# Maps by their pairs

An ordered map is made up of its pairs: put into an empty map one after the other, in whatever
order, they give the map again.
-/

namespace EpochSplit

variable {κ ν : Type} [Ord κ] [Std.TransOrd κ]

lemma mem_iff_exists_getElem? {t : Std.ExtTreeMap κ ν} {k : κ} : k ∈ t ↔ ∃ v, t[k]? = some v := by
  rw [Std.ExtTreeMap.mem_iff_isSome_getElem?, Option.isSome_iff_exists]

/-- A map is made up of its pairs, in whatever order they come. -/
lemma foldl_insert_of_perm [DecidableEq κ] [Std.LawfulEqOrd κ]
    {t : Std.ExtTreeMap κ ν} {pairs : List (κ × ν)} (h : pairs.Perm t.toList) :
    pairs.foldl (fun t p => t.insert p.1 p.2) ∅ = t := by
  have hdistinct : pairs.Pairwise fun p p' => ¬compare p.1 p'.1 = .eq :=
    (h.pairwise_iff fun hne heq => hne (Std.OrientedCmp.eq_symm heq)).2
      Std.ExtTreeMap.distinct_keys_toList
  rw [← Std.ExtTreeMap.insertMany_list_eq_foldl, ← Std.ExtTreeMap.ofList_eq_insertMany_empty]
  refine Std.ExtTreeMap.ext_getElem? fun k => ?_
  cases hk : t[k]? with
  | some v =>
      exact Std.ExtTreeMap.getElem?_ofList_of_mem Std.ReflCmp.compare_self hdistinct
        (h.mem_iff.2 (Std.ExtTreeMap.mem_toList_iff_getElem?_eq_some.2 hk))
  | none =>
      have hkey : k ∉ t.keys := by
        simp [Std.ExtTreeMap.mem_keys, Std.ExtTreeMap.mem_iff_isSome_getElem?, hk]
      refine Std.ExtTreeMap.getElem?_ofList_of_contains_eq_false ?_
      rw [← Std.ExtTreeMap.map_fst_toList_eq_keys, ← (h.map Prod.fst).mem_iff] at hkey
      simpa using hkey

end EpochSplit
