import EpochSplit.Key.Range
import Std.Data.ExtTreeMap
/-!
# Contents

What a store holds: a value under each of its keys, in the order of the keys.  Writing pairs over
contents keeps the last value for each key, and scanning a range of keys yields its pairs in
ascending order.
-/

namespace EpochSplit

/-- The values of a store by key. -/
abbrev Contents := Std.ExtTreeMap Bytes Bytes

namespace Contents

/-- The contents after the pairs of a list are written over them one after the other. -/
def overlay (c : Contents) (entries : List Entry) : Contents :=
  entries.foldl (fun c e => c.insert e.1 e.2) c

/-- The pairs from `lower` up to, but without, `upper`: from the first key that does not come before
`lower`, up to the first that does not come before `upper`. -/
def between (c : Contents) (lower upper : Bytes) (_ : (compare lower upper).isLE = true) :
    List Entry :=
  (c.toList.dropWhile fun e => (compare e.1 lower).isLT).takeWhile fun e =>
    (compare e.1 upper).isLT

/-- The pairs whose key lies in a range, in ascending order. -/
def scan (c : Contents) (r : KeyRange) : List Entry :=
  r.ask [] c.between

/-- The number of pairs whose key lies in a range. -/
def count (c : Contents) (r : KeyRange) : Nat :=
  r.ask 0 fun lower upper h => (c.between lower upper h).length

@[simp] theorem overlay_nil (c : Contents) : c.overlay [] = c := rfl

@[simp] theorem overlay_append (c : Contents) (es es' : List Entry) :
    c.overlay (es ++ es') = (c.overlay es).overlay es' := by
  simp [overlay]

theorem overlay_concat (c : Contents) (es : List Entry) (e : Entry) :
    c.overlay (es ++ [e]) = (c.overlay es).insert e.1 e.2 := by
  simp [overlay]

/-- The last pair decides about its key. -/
theorem get?_overlay_concat (c : Contents) (es : List Entry) (e : Entry) (key : Bytes) :
    (c.overlay (es ++ [e])).get? key = if e.1 = key then some e.2 else (c.overlay es).get? key := by
  rw [overlay_concat]
  simp [Std.ExtTreeMap.getElem?_insert]

/-! ### Scans -/

section Prefix

variable {α : Type} {p : α → Bool} {as : List α}

/-- If no element has a property behind one that has it not, those that have it come first. -/
theorem takeWhile_eq_filter (h : as.Pairwise fun a b => p b = true → p a = true) :
    as.takeWhile p = as.filter p := by
  induction as with
  | nil => rfl
  | cons a as ih =>
      obtain ⟨ha, has⟩ := List.pairwise_cons.1 h
      by_cases hp : p a = true
      · rw [List.takeWhile_cons_of_pos hp, List.filter_cons_of_pos hp, ih has]
      · rw [List.takeWhile_cons_of_neg hp, List.filter_cons_of_neg hp, eq_comm,
          List.filter_eq_nil_iff]
        exact fun b hb hpb => hp (ha b hb hpb)

theorem dropWhile_eq_filter (h : as.Pairwise fun a b => p b = true → p a = true) :
    as.dropWhile p = as.filter fun a => !p a := by
  induction as with
  | nil => rfl
  | cons a as ih =>
      obtain ⟨ha, has⟩ := List.pairwise_cons.1 h
      by_cases hp : p a = true
      · rw [List.dropWhile_cons_of_pos hp, ih has, List.filter_cons_of_neg (by simp [hp])]
      · rw [List.dropWhile_cons_of_neg hp, eq_comm, List.filter_eq_self]
        intro b hb
        rw [Bool.not_eq_true', Bool.eq_false_iff]
        obtain rfl | hb := List.mem_cons.1 hb
        · exact hp
        · exact fun hpb => hp (ha b hb hpb)

end Prefix

/-- Along ascending pairs, those whose key comes before a bound come first. -/
theorem pairwise_isLT (bound : Bytes) {entries : List Entry}
    (h : entries.Pairwise fun e e' => compare e.1 e'.1 = .lt) :
    entries.Pairwise fun e e' =>
      (compare e'.1 bound).isLT = true → (compare e.1 bound).isLT = true :=
  h.imp fun hlt hbelow =>
    Ordering.isLT_iff_eq_lt.2 (Std.TransCmp.lt_trans hlt (Ordering.isLT_iff_eq_lt.1 hbelow))

theorem pairwise_toList (c : Contents) : c.toList.Pairwise fun e e' => compare e.1 e'.1 = .lt :=
  Std.ExtTreeMap.ordered_keys_toList

/-- What lies between two bounds is what lies in the range that they bound. -/
theorem between_eq_filter (c : Contents) {lower upper : Bytes}
    (h : (compare lower upper).isLE = true) :
    c.between lower upper h = c.toList.filter fun e => KeyRange.contains ⟨lower, upper⟩ e.1 := by
  have hfrom := dropWhile_eq_filter (pairwise_isLT lower c.pairwise_toList)
  have hascending := c.pairwise_toList.sublist
    (List.filter_sublist (p := fun e => !(compare e.1 lower).isLT))
  rw [between, hfrom, takeWhile_eq_filter (pairwise_isLT upper hascending), List.filter_filter]
  refine List.filter_congr fun e _ => ?_
  have hswap : compare lower e.1 = (compare e.1 lower).swap := Std.OrientedCmp.eq_swap
  rw [KeyRange.contains, hswap, Bool.and_comm]
  cases compare e.1 lower <;> rfl

/-- A scan yields the pairs whose key lies in the range. -/
theorem scan_eq_filter (c : Contents) (r : KeyRange) :
    c.scan r = c.toList.filter fun e => r.contains e.1 := by
  cases hempty : r.isEmpty with
  | true =>
      rw [scan, KeyRange.ask_of_isEmpty hempty, eq_comm, List.filter_eq_nil_iff]
      exact fun e _ => Bool.eq_false_iff.1 (KeyRange.isEmpty_iff.1 hempty e.1)
  | false =>
      rw [scan, KeyRange.ask_of_lt (KeyRange.isEmpty_eq_false_iff.1 hempty), between_eq_filter]

theorem length_scan (c : Contents) (r : KeyRange) : (c.scan r).length = c.count r := by
  unfold scan count KeyRange.ask
  split <;> rfl

theorem mem_scan {c : Contents} {r : KeyRange} {e : Entry} :
    e ∈ c.scan r ↔ c.get? e.1 = some e.2 ∧ r.contains e.1 = true := by
  obtain ⟨key, value⟩ := e
  simp [scan_eq_filter, Std.ExtTreeMap.mem_toList_iff_getElem?_eq_some]

/-- A scan yields its pairs in ascending order, each key once. -/
theorem pairwise_scan (c : Contents) (r : KeyRange) :
    (c.scan r).Pairwise fun e e' => compare e.1 e'.1 = .lt := by
  rw [scan_eq_filter]
  exact c.pairwise_toList.sublist List.filter_sublist

end Contents

end EpochSplit
