import EpochSplit.Proofs.Key.Order
/-!
# How far the range of a namespace reaches

The range of a namespace holds keys of that namespace only, well formed or not.  Which ids lie in it
is said here without a look at its upper bound: it ends in front of a fixed number or text
(`RecordId.InReach`), and the texts that are in use, sixty letters each, come before that text
unless they are that text.
-/

namespace EpochSplit

/-! ### Texts of letters -/

namespace Bytes

lemma ofText_inj {t t' : String} (h : ofText t = ofText t') : t = t' := by
  have hread := toText?_ofText t
  rw [h, toText?_ofText] at hread
  exact (Option.some.inj hread).symm

/-- A text takes one byte a character if all of them are ASCII. -/
lemma ofText_of_ascii {t : String} (h : ∀ c ∈ t.toList, c.val ≤ 127) :
    ofText t = t.toList.map (·.val.toUInt8) := by
  have hbytes : ofText t = t.toList.flatMap String.utf8EncodeChar := by
    have hencode : ofText t = t.toList.utf8Encode.data.toList := by
      rw [String.utf8Encode_toList]
      rfl
    rw [hencode, List.utf8Encode, List.data_toByteArray]
  have hone : t.toList.map String.utf8EncodeChar = t.toList.map fun c => [c.val.toUInt8] :=
    List.map_congr_left fun c hc =>
      String.utf8EncodeChar_eq_singleton (Char.utf8Size_eq_one_iff.2 (h c hc))
  rw [hbytes, List.flatMap_def, hone, ← List.flatMap_def, ← List.map_eq_flatMap]

/-- Of the strings of a given length, none comes after the one that repeats the greatest byte. -/
lemma isLE_compare_replicate {bs : Bytes} {top : UInt8} (h : ∀ b ∈ bs, b ≤ top) :
    (compare bs (List.replicate bs.length top)).isLE = true := by
  induction bs with
  | nil => rfl
  | cons b bs ih =>
      obtain ⟨hb, hbs⟩ := List.forall_mem_cons.1 h
      rw [List.length_cons, List.replicate_succ, List.compare_cons_cons,
        Ordering.isLE_then_iff_and]
      exact ⟨Std.isLE_compare.2 hb, .inr (ih hbs)⟩

lemma ofText_replicate {top : Char} {byte : UInt8} (htop : top.val ≤ 127)
    (hbyte : top.val.toUInt8 = byte) (n : Nat) :
    ofText (String.ofList (List.replicate n top)) = List.replicate n byte := by
  rw [ofText_of_ascii fun c hc => ?_, String.toList_ofList, List.map_replicate, hbyte]
  rw [String.toList_ofList] at hc
  rwa [List.eq_of_mem_replicate hc]

/-- A text of ASCII characters up to a greatest one comes before the text that repeats that
character, or is that text. -/
lemma compare_ofText {t : String} (top : Char) (byte : UInt8) (htop : top.val ≤ 127)
    (hbyte : top.val.toUInt8 = byte) (h : ∀ c ∈ t.toList, c ≤ top) :
    compare (ofText t) (List.replicate t.length byte) = .lt ∨
      t = String.ofList (List.replicate t.length top) := by
  have hbytes := ofText_of_ascii fun c hc => UInt32.le_trans (h c hc) htop
  have hlength : (ofText t).length = t.length := by
    rw [hbytes, List.length_map, String.length_toList]
  have hle : ∀ b ∈ ofText t, b ≤ byte := by
    rw [hbytes, ← hbyte]
    refine List.forall_mem_map.2 fun c hc => ?_
    have hc : c.val.toNat ≤ top.val.toNat := UInt32.le_iff_toNat_le.1 (h c hc)
    have htop : top.val.toNat ≤ 127 := UInt32.le_iff_toNat_le.1 htop
    rw [UInt8.le_iff_toNat_le, UInt32.toNat_toUInt8, UInt32.toNat_toUInt8]
    omega
  have hcompare := isLE_compare_replicate hle
  rw [hlength] at hcompare
  obtain hlt | heq := Ordering.isLE_iff_eq_lt_or_eq_eq.1 hcompare
  · exact .inl hlt
  · refine .inr (ofText_inj ?_)
    rw [Std.LawfulEqOrd.eq_of_compare heq, ofText_replicate htop hbyte]

end Bytes

open Namespace (transactionBound identityBound)

lemma ofText_transactionBound : Bytes.ofText transactionBound = List.replicate 60 0x7A :=
  Bytes.ofText_replicate (by decide) rfl 60

lemma ofText_identityBound : Bytes.ofText identityBound = List.replicate 60 0x5A :=
  Bytes.ofText_replicate (by decide) rfl 60

/-! ### Ids in reach -/

lemma Namespace.upper_of_text {ns : Namespace} {upper : String} (h : ns.shape = .text upper) :
    upper = transactionBound := by
  cases ns <;> cases h
  all_goals rfl

lemma Namespace.upper_of_composite {ns : Namespace} {upper : String}
    (h : ns.shape = .composite upper) : upper = identityBound := by
  cases ns <;> cases h
  all_goals rfl

namespace RecordId

/-- The ids that the range of a namespace reaches to, kind by kind: numbers below the greatest one,
texts in front of sixty `z`, and texts with a number in front of sixty `Z` with the greatest number,
as far as the bytes of both one after the other are concerned. -/
def InReach : RecordId → Prop
  | singleton => True
  | numeric n => n < 0xFFFFFFFFFFFFFFFF
  | text t => compare (Bytes.ofText t) (List.replicate 60 0x7A) = .lt
  | composite t n =>
      compare (Bytes.ofText t ++ Bytes.bigEndian 8 n.toNat)
        (List.replicate 60 0x5A ++ List.replicate 8 0xFF) = .lt

/-- The sentinel of a namespace depends on the kind of its ids only. -/
lemma below_iff_inReach {ns : Namespace} {id : RecordId} (h : id.fits ns.shape = true) :
    id.Below ns.shape ↔ id.InReach := by
  cases id with
  | singleton =>
      cases hshape : ns.shape with
      | singleton => exact Iff.rfl
      | _ => rw [hshape] at h; cases h
  | numeric n =>
      cases hshape : ns.shape with
      | numeric => exact Iff.rfl
      | _ => rw [hshape] at h; cases h
  | text t =>
      cases hshape : ns.shape with
      | text upper =>
          rw [Namespace.upper_of_text hshape, Below, ofText_transactionBound, InReach]
      | _ => rw [hshape] at h; cases h
  | composite t n =>
      cases hshape : ns.shape with
      | composite upper =>
          have hnumber : Bytes.bigEndian 8 0xFFFFFFFFFFFFFFFF = List.replicate 8 0xFF := by decide
          rw [Namespace.upper_of_composite hshape, Below, ofText_identityBound, hnumber, InReach]
      | _ => rw [hshape] at h; cases h

/-- Sixty lower-case letters are in reach, but for sixty `z`. -/
lemma inReach_of_lower {t : String} (hlength : t.length = 60)
    (hlower : ∀ c ∈ t.toList, 'a' ≤ c ∧ c ≤ 'z') (hne : t ≠ transactionBound) :
    (text t).InReach := by
  have hcompare := Bytes.compare_ofText 'z' 0x7A (by decide) rfl fun c hc => (hlower c hc).2
  rw [hlength] at hcompare
  exact hcompare.resolve_right hne

/-- Sixty upper-case letters with a number are in reach, but for sixty `Z` with the greatest
number. -/
lemma inReach_of_upper {t : String} {n : UInt64} (hlength : t.length = 60)
    (hupper : ∀ c ∈ t.toList, 'A' ≤ c ∧ c ≤ 'Z')
    (hne : ¬(t = identityBound ∧ n = 0xFFFFFFFFFFFFFFFF)) : (composite t n).InReach := by
  have hcompare := Bytes.compare_ofText 'Z' 0x5A (by decide) rfl fun c hc => (hupper c hc).2
  have hbytes : (Bytes.ofText t).length = (List.replicate 60 (0x5A : UInt8)).length := by
    rw [Bytes.ofText_of_ascii fun c hc => UInt32.le_trans (hupper c hc).2 (by decide),
      List.length_map, String.length_toList, List.length_replicate, hlength]
  rw [hlength] at hcompare
  rw [InReach, Bytes.compare_append hbytes]
  obtain hlt | ht := hcompare
  · rw [hlt, Ordering.lt_then]
  · -- the text is the last one, and the number decides
    have hn : n < 0xFFFFFFFFFFFFFFFF := by
      refine UInt64.lt_of_le_of_ne ?_ fun hn => hne ⟨ht, hn⟩
      exact UInt64.le_iff_toNat_le.2 (Nat.le_of_lt_succ n.toNat_lt)
    have htext : Bytes.ofText t = List.replicate 60 0x5A := ht ▸ ofText_identityBound
    rw [htext, Std.compare_self, Ordering.eq_then]
    exact Bytes.compare_word.2 hn

end RecordId

namespace KeyRange

/-! ### The ranges of namespaces -/

lemma head?_of_contains_ofNamespace {ns : Namespace} {key : Bytes}
    (h : (ofNamespace ns).contains key = true) : key.head? = some ns.tag := by
  have hupper : (ofNamespace ns).upper.head? = some ns.tag := by
    rw [ofNamespace, upperBound_eq]
    rfl
  exact head?_of_contains rfl hupper h

lemma contains_encode_iff_inReach {ns : Namespace} {id : RecordId}
    (h : id.fits ns.shape = true) :
    (ofNamespace ns).contains (Key.encode ns id) = true ↔ id.InReach :=
  (contains_encode_iff h).trans (RecordId.below_iff_inReach h)

/-- The range of a namespace holds only what begins with the tag of the namespace, so that the
ranges of two namespaces have nothing in common.  Of the keys of the ids that fit, it holds those of
the ids in reach and no others.  Among these are all texts of sixty lower-case letters but sixty
`z`, and all texts of sixty upper-case letters with a number but sixty `Z` with the greatest
number. -/
theorem ofNamespace_extent :
    (∀ ns key, (ofNamespace ns).contains key = true → key.head? = some ns.tag) ∧
      (∀ ns ns' key, (ofNamespace ns).contains key = true →
        (ofNamespace ns').contains key = true → ns = ns') ∧
      (∀ ns (id : RecordId), id.fits ns.shape = true →
        ((ofNamespace ns).contains (Key.encode ns id) = true ↔ id.InReach)) ∧
      (∀ ns t, (RecordId.text t).fits ns.shape = true → t.length = 60 →
        (∀ c ∈ t.toList, 'a' ≤ c ∧ c ≤ 'z') → t ≠ String.ofList (List.replicate 60 'z') →
          (ofNamespace ns).contains (Key.text ns t) = true) ∧
      ∀ ns t n, (RecordId.composite t n).fits ns.shape = true → t.length = 60 →
        (∀ c ∈ t.toList, 'A' ≤ c ∧ c ≤ 'Z') →
        ¬(t = String.ofList (List.replicate 60 'Z') ∧ n = 0xFFFFFFFFFFFFFFFF) →
          (ofNamespace ns).contains (Key.composite ns t n) = true := by
  refine ⟨fun ns key => head?_of_contains_ofNamespace, fun ns ns' key h h' => ?_,
    fun ns id => contains_encode_iff_inReach, fun ns t hfits hlength hlower hne => ?_,
    fun ns t n hfits hlength hupper hne => ?_⟩
  · have htag := (head?_of_contains_ofNamespace h).symm.trans (head?_of_contains_ofNamespace h')
    exact Namespace.tag_injective (Option.some.inj htag)
  · exact (contains_encode_iff_inReach hfits).2 (RecordId.inReach_of_lower hlength hlower hne)
  · exact (contains_encode_iff_inReach hfits).2 (RecordId.inReach_of_upper hlength hupper hne)

/-- Sixty `Z` are in reach with the last number but one, and sixty `z` are not in reach. -/
theorem ofNamespace_extent_lastTexts :
    (ofNamespace .identityTransferTransactions).contains
        (Key.composite .identityTransferTransactions identityBound 0xFFFFFFFFFFFFFFFE) = true ∧
      (ofNamespace .transaction).contains (Key.text .transaction transactionBound) = false ∧
      (ofNamespace .transaction).contains
        (Key.text .transaction (String.ofList ('y' :: List.replicate 59 'z'))) = true ∧
      (ofNamespace .transaction).contains [0x03, 0xFF] = false := by
  obtain ⟨-, -, hreach, hlower, hupper⟩ := ofNamespace_extent
  have hletters : identityBound.toList = List.replicate 60 'Z' := String.toList_ofList
  have hlast : ∀ c ∈ identityBound.toList, 'A' ≤ c ∧ c ≤ 'Z' := by
    intro c hc
    rw [hletters] at hc
    obtain rfl := List.eq_of_mem_replicate hc
    decide
  have hnext : ∀ c ∈ (String.ofList ('y' :: List.replicate 59 'z')).toList,
      'a' ≤ c ∧ c ≤ 'z' := by
    intro c hc
    rw [String.toList_ofList] at hc
    obtain rfl | hc := List.mem_cons.1 hc
    · decide
    · obtain rfl := List.eq_of_mem_replicate hc
      decide
  refine ⟨hupper _ _ _ rfl rfl hlast (fun h => absurd h.2 (by decide)), ?_,
    hlower _ _ rfl rfl hnext (by decide +kernel), by decide +kernel⟩
  rw [Bool.eq_false_iff]
  intro h
  have hlt : (RecordId.text transactionBound).InReach := (hreach _ _ rfl).1 h
  rw [RecordId.InReach, ofText_transactionBound, Std.compare_self] at hlt
  cases hlt

end KeyRange

end EpochSplit
