import EpochSplit.Proofs.Json.Reading
import Mathlib.Data.List.Nodup
/-!
# Numbers and records as trees

A number is taken apart into the number that was put in, and a record, which is written as an object
with a member for each of its fields, into the values of its fields.
-/

namespace EpochSplit.Json

/-! ### Decimal numbers -/

lemma toList_toString (n : Nat) : (toString n).toList = Nat.toDigits 10 n := Nat.toList_repr

lemma isDigit_of_mem_toString {n : Nat} {c : Char} (h : c ∈ (toString n).toList) :
    c.isDigit = true := by
  rw [toList_toString] at h
  exact Nat.isDigit_of_mem_toDigits (by decide) (by decide) h

/-- Only zero is written with a leading zero. -/
lemma eq_zero_of_head?_toDigits {n : Nat} (h : (Nat.toDigits 10 n).head? = some '0') : n = 0 := by
  induction n using Nat.strongRecOn with
  | ind n ih =>
      obtain hn | hn := Nat.lt_or_ge n 10
      · have hdigit : ∀ n < 10, Nat.digitChar n = '0' → n = 0 := by decide
        rw [Nat.toDigits_of_lt_base hn] at h
        exact hdigit n hn (Option.some.inj h)
      · rw [Nat.toDigits_of_base_le (by decide) hn,
          List.head?_append_of_ne_nil _ Nat.toDigits_ne_nil] at h
        have hzero := ih (n / 10) (by omega) h
        omega

lemma isNumber_toString (n : Nat) : IsNumber (toString n) := by
  refine isNumber_of_digits ?_ (fun c hc => isDigit_of_mem_toString hc) fun hhead => ?_
  · rw [toList_toString]
    exact Nat.toDigits_ne_nil
  · rw [toList_toString] at hhead
    rw [eq_zero_of_head?_toDigits hhead]
    rfl

lemma isString_toString (n : Nat) : IsString (toString n) := by
  refine isString_of_plain (List.all_eq_true.mpr fun c hc => ?_)
  have hdigit := isDigit_of_mem_toString hc
  simp only [isPlain, Bool.and_eq_true, bne_iff_ne, decide_eq_true_eq]
  refine ⟨⟨?_, ?_⟩, ?_⟩
  · rintro rfl
    cases hdigit
  · rintro rfl
    cases hdigit
  · simp only [Char.isDigit, Bool.and_eq_true, decide_eq_true_eq] at hdigit
    have hlow : (48 : UInt32) ≤ c.val := hdigit.1
    rw [UInt32.le_iff_toNat_le] at hlow
    exact Nat.le_trans (by decide) hlow

lemma natural?_toString (n : Nat) : natural? (toString n) = some n := by
  have hvalue : ofDigits (Nat.toDigits 10 n) = n := Nat.ofDigitChars_ten_toDigits
  have hall : (toString n).toList.all Char.isDigit = true :=
    List.all_eq_true.mpr fun c hc => isDigit_of_mem_toString hc
  obtain ⟨c, cs, hdigits⟩ := List.exists_cons_of_ne_nil (Nat.toDigits_ne_nil (n := n) (b := 10))
  have hzero : (c != '0' || cs.isEmpty) = true := by
    by_cases hc : c = '0'
    · subst hc
      obtain rfl : n = 0 := eq_zero_of_head?_toDigits (by rw [hdigits]; rfl)
      obtain rfl : cs = [] := (List.cons.inj hdigits).2.symm
      rfl
    · rw [bne_iff_ne.mpr hc, Bool.true_or]
  rw [toList_toString, hdigits] at hall
  rw [hdigits] at hvalue
  rw [natural?, toList_toString, hdigits]
  simp only [hall, hzero, hvalue, Bool.and_self, if_true]

/-- A 32-bit number is the number that is written. -/
lemma word?_toString (w : UInt32) : word? (toString w.toNat) = some w := by
  rw [word?, natural?_toString]
  simp only [w.toNat_lt_size, if_true, UInt32.ofNat_toNat]

lemma toWord?_natural (w : UInt32) : (natural w.toNat).toWord? = some w := word?_toString w

/-! ### Records -/

variable {members : List (String × Json)}

lemma mapM_eq_some_map {α β : Type} {f : α → Option β} {g : α → β} {as : List α}
    (h : ∀ a ∈ as, f a = some (g a)) : as.mapM f = some (as.map g) := by
  induction as with
  | nil => rfl
  | cons a as ih =>
      rw [List.mapM_cons, h a List.mem_cons_self, ih fun b hb => h b (List.mem_cons_of_mem a hb)]
      rfl

lemma filter_name (hnodup : (members.map Prod.fst).Nodup) {m : String × Json} (hm : m ∈ members) :
    members.filter (·.1 == m.1) = [m] := by
  induction members with
  | nil => cases hm
  | cons m' ms ih =>
      rw [List.map_cons, List.nodup_cons] at hnodup
      obtain ⟨hnew, hnodup⟩ := hnodup
      obtain rfl | hm := List.mem_cons.mp hm
      · rw [List.filter_cons_of_pos (by simp), List.filter_eq_nil_iff.mpr]
        intro k hk heq
        exact hnew (List.mem_map.mpr ⟨k, hk, beq_iff_eq.mp heq⟩)
      · rw [List.filter_cons_of_neg, ih hnodup hm]
        intro heq
        exact hnew (List.mem_map.mpr ⟨m, hm, (beq_iff_eq.mp heq).symm⟩)

/-- A record is taken apart into its fields. -/
lemma fields?_object {names : List String} (hnames : members.map Prod.fst = names)
    (hplain : ∀ name ∈ names, unquote? name = some name) (hnodup : names.Nodup) :
    fields? names (object members) = some (members.map Prod.snd) := by
  subst hnames
  rw [fields?, mapM_eq_some_map (g := id), List.map_id, Option.bind_eq_bind, Option.bind_some,
    List.mapM_map]
  · refine mapM_eq_some_map fun m hm => ?_
    rw [Function.comp_apply, filter_name hnodup hm]
  · rintro ⟨name, j⟩ hm
    simp only [hplain _ (List.mem_map_of_mem hm), Option.map_some, id]

lemma wellWritten_natural (n : Nat) : (natural n).WellWritten := .number (isNumber_toString n)

lemma wellWritten_noFields : (object []).WellWritten := .object nofun nofun

/-- A record is well written when its fields are, one after the other. -/
lemma WellWritten.field {name : String} {j : Json} (h : (Json.object members).WellWritten)
    (hname : IsString name) (hj : j.WellWritten) :
    (Json.object ((name, j) :: members)).WellWritten := by
  cases h with
  | object hnames h =>
      exact .object (List.forall_mem_cons.mpr ⟨hname, hnames⟩) (List.forall_mem_cons.mpr ⟨hj, h⟩)

end EpochSplit.Json
