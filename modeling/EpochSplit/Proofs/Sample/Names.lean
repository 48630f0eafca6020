import EpochSplit.Proofs.Key.Extent
import EpochSplit.SampleArchive
import Mathlib.Data.List.TakeWhile
import Mathlib.Data.Nat.Digits.Defs
/-!
# The names in a sample archive

The id of a transaction spells out the epoch, the tick and the slot in letters, each after a letter
that stands for no digit.  So all three can be read back from the id: different transactions have
different ids (`txId_inj`).  It never takes more than sixty letters to spell them, so that the
padding always makes up a text that a transaction can be stored under (`txId_identifies`).
-/

namespace EpochSplit.SampleArchive

/-! ### Numbers in letters -/

/-- The decimal digits of a number as letters. -/
def spelled (n : Nat) : List Char := (Nat.toDigits 10 n).map (letter 'a')

/-- The letters that stand for digits. -/
def standsForDigit (c : Char) : Bool := 97 ≤ c.toNat && c.toNat ≤ 106

lemma toNat_letter {c : Char} (h : c.isDigit = true) :
    (letter 'a' c).toNat = c.toNat + 49 ∧ 48 ≤ c.toNat ∧ c.toNat ≤ 57 := by
  have hbounds : 48 ≤ c.toNat ∧ c.toNat ≤ 57 := Char.isDigit_iff_toNat.1 h
  have hvalid : Nat.isValidChar (97 + (c.toNat - 48)) := Or.inl (by omega)
  have hletter : (letter 'a' c).toNat = 97 + (c.toNat - 48) := by
    rw [letter, if_pos h]
    change (Char.ofNat (97 + (c.toNat - 48))).toNat = _
    rw [Char.ofNat, dif_pos hvalid]
    rfl
  omega

lemma letter_inj {c c' : Char} (hc : c.isDigit = true) (hc' : c'.isDigit = true)
    (h : letter 'a' c = letter 'a' c') : c = c' := by
  obtain ⟨hvalue, -⟩ := toNat_letter hc
  obtain ⟨hvalue', -⟩ := toNat_letter hc'
  rw [h, hvalue'] at hvalue
  exact Char.toNat_inj.1 (by omega)

lemma isDigit_of_mem {n : Nat} {c : Char} (h : c ∈ Nat.toDigits 10 n) : c.isDigit = true :=
  Nat.isDigit_of_mem_toDigits (by decide) (by decide) h

lemma standsForDigit_of_mem {n : Nat} {c : Char} (h : c ∈ spelled n) :
    standsForDigit c = true := by
  obtain ⟨digit, hdigit, rfl⟩ := List.mem_map.1 h
  obtain ⟨hvalue, hlower, hupper⟩ := toNat_letter (isDigit_of_mem hdigit)
  simp only [standsForDigit, Bool.and_eq_true, decide_eq_true_eq]
  omega

/-- Digits can be read back from their letters. -/
lemma map_letter_inj {cs cs' : List Char} (hcs : ∀ c ∈ cs, c.isDigit = true)
    (hcs' : ∀ c ∈ cs', c.isDigit = true) (h : cs.map (letter 'a') = cs'.map (letter 'a')) :
    cs = cs' := by
  induction cs generalizing cs' with
  | nil => exact (List.map_eq_nil_iff.1 h.symm).symm
  | cons c cs ih =>
      cases cs' with
      | nil => cases h
      | cons c' cs' =>
          obtain ⟨hc, hcs⟩ := List.forall_mem_cons.1 hcs
          obtain ⟨hc', hcs'⟩ := List.forall_mem_cons.1 hcs'
          obtain ⟨hhead, htail⟩ := List.cons.inj h
          rw [letter_inj hc hc' hhead, ih hcs hcs' htail]

/-- A number can be read back from its letters. -/
theorem spelled_inj {n n' : Nat} (h : spelled n = spelled n') : n = n' := by
  have hdigits := map_letter_inj (fun _ => isDigit_of_mem) (fun _ => isDigit_of_mem) h
  have hvalue := congrArg (fun digits => Nat.ofDigitChars 10 digits 0) hdigits
  simpa only [Nat.ofDigitChars_toDigits (by decide : 1 < 10) (Nat.le_refl 10)] using hvalue

/-- Where a number in letters ends: at the first letter that stands for no digit. -/
lemma spelled_append_inj {n n' : Nat} {rest rest' : List Char}
    (hrest : ∀ c ∈ rest.head?, standsForDigit c = false)
    (hrest' : ∀ c ∈ rest'.head?, standsForDigit c = false)
    (h : spelled n ++ rest = spelled n' ++ rest') : n = n' ∧ rest = rest' := by
  have hstops : ∀ {rest : List Char}, (∀ c ∈ rest.head?, standsForDigit c = false) →
      rest.takeWhile standsForDigit = [] := by
    intro rest hrest
    cases rest with
    | nil => rfl
    | cons c rest => rw [List.takeWhile_cons, hrest c rfl, if_neg Bool.false_ne_true]
  have htaken := congrArg (List.takeWhile standsForDigit) h
  rw [List.takeWhile_append_of_pos fun _ => standsForDigit_of_mem,
    List.takeWhile_append_of_pos fun _ => standsForDigit_of_mem, hstops hrest, hstops hrest',
    List.append_nil, List.append_nil] at htaken
  obtain rfl := spelled_inj htaken
  exact ⟨rfl, List.append_cancel_left h⟩

/-! ### How long names are -/

lemma length_padded (c : Char) (cs : List Char) : (padded c cs).length = max 60 cs.length := by
  rw [padded, String.length_ofList, List.length_append, List.length_replicate]
  omega

lemma length_spelled_le {n digits : Nat} (hdigits : 0 < digits) (h : n < 10 ^ digits) :
    (spelled n).length ≤ digits := by
  rw [spelled, List.length_map]
  exact Nat.toDigits_length 10 n digits hdigits h

lemma length_identity {n : Nat} (h : n < 10 ^ 10) : (identity n).length = 60 := by
  have hdigits : (Nat.toDigits 10 n).length ≤ 10 := Nat.toDigits_length 10 n 10 (by decide) h
  have hname : (toString n).toList = Nat.toDigits 10 n := Nat.toList_repr
  rw [identity, length_padded, hname, List.length_map]
  omega

/-! ### Ids -/

/-- The letters of an id in front of the padding. -/
lemma toList_seed (epoch tick : UInt32) (slot : Nat) :
    s!"e{epoch}t{tick}s{slot}".toList.map (letter 'a') =
      'e' :: (spelled epoch.toNat ++ 't' :: (spelled tick.toNat ++ 's' :: spelled slot)) := by
  simp only [ToString.toString, String.toList_append, Nat.toList_repr, List.map_append, spelled,
    List.append_assoc]
  rfl

lemma toList_txId (epoch tick : UInt32) (slot : Nat) :
    ∃ padding, (txId epoch tick slot).toList =
      'e' :: (spelled epoch.toNat ++ 't' :: (spelled tick.toNat ++ 's' ::
        (spelled slot ++ List.replicate padding 'x'))) := by
  rw [txId, padded, String.toList_ofList, toList_seed]
  simp only [List.cons_append, List.append_assoc]
  exact ⟨_, rfl⟩

/-- Three marks and at most forty digits leave room for the padding. -/
lemma length_txId (epoch tick : UInt32) {slot : Nat} (h : slot < 2 ^ 64) :
    (txId epoch tick slot).length = 60 := by
  have hsingle : 2 ^ 32 < 10 ^ 10 := by decide
  have hepoch := length_spelled_le (by decide) (epoch.toNat_lt.trans hsingle)
  have htick := length_spelled_le (by decide) (tick.toNat_lt.trans hsingle)
  have hdouble : 2 ^ 64 < 10 ^ 20 := by decide
  have hslot := length_spelled_le (by decide) (h.trans hdouble)
  rw [txId, length_padded, toList_seed]
  simp only [List.length_cons, List.length_append]
  omega

/-- Different transactions have different ids. -/
theorem txId_inj {epoch epoch' tick tick' : UInt32} {slot slot' : Nat}
    (h : txId epoch tick slot = txId epoch' tick' slot') :
    epoch = epoch' ∧ tick = tick' ∧ slot = slot' := by
  obtain ⟨padding, hid⟩ := toList_txId epoch tick slot
  obtain ⟨padding', hid'⟩ := toList_txId epoch' tick' slot'
  have hmarks : ∀ (mark : Char) (rest : List Char), standsForDigit mark = false →
      ∀ c ∈ (mark :: rest).head?, standsForDigit c = false := by
    intro mark rest hmark c hc
    rwa [← Option.some.inj hc]
  have hpadding : ∀ count, ∀ c ∈ (List.replicate count 'x').head?, standsForDigit c = false := by
    intro count c hc
    rw [(List.mem_replicate.1 (List.mem_of_mem_head? hc)).2]
    rfl
  rw [h, hid'] at hid
  obtain ⟨hepoch, hid⟩ := spelled_append_inj (hmarks _ _ rfl) (hmarks _ _ rfl) (List.cons.inj hid).2
  obtain ⟨htick, hid⟩ := spelled_append_inj (hmarks _ _ rfl) (hmarks _ _ rfl) (List.cons.inj hid).2
  obtain ⟨hslot, -⟩ :=
    spelled_append_inj (hpadding padding') (hpadding padding) (List.cons.inj hid).2
  exact ⟨UInt32.toNat_inj.1 hepoch.symm, UInt32.toNat_inj.1 htick.symm, hslot.symm⟩

/-! ### Fitness as an id -/

lemma lower_of_standsForDigit {c : Char} (h : standsForDigit c = true) : 'a' ≤ c ∧ c ≤ 'z' := by
  simp only [standsForDigit, Bool.and_eq_true, decide_eq_true_eq] at h
  rw [Char.le_def, Char.le_def, UInt32.le_iff_toNat_le, UInt32.le_iff_toNat_le]
  exact ⟨h.1, h.2.trans (by decide)⟩

lemma lower_of_mem_txId {epoch tick : UInt32} {slot : Nat} {c : Char}
    (h : c ∈ (txId epoch tick slot).toList) : 'a' ≤ c ∧ c ≤ 'z' := by
  obtain ⟨padding, hid⟩ := toList_txId epoch tick slot
  simp only [hid, List.mem_cons, List.mem_append] at h
  obtain rfl | hepoch | rfl | htick | rfl | hslot | hpadding := h
  · decide
  · exact lower_of_standsForDigit (standsForDigit_of_mem hepoch)
  · decide
  · exact lower_of_standsForDigit (standsForDigit_of_mem htick)
  · decide
  · exact lower_of_standsForDigit (standsForDigit_of_mem hslot)
  · obtain rfl := List.eq_of_mem_replicate hpadding
    decide

/-- The one text of sixty lower-case letters that is out of reach begins with another letter. -/
lemma txId_ne_transactionBound (epoch tick : UInt32) (slot : Nat) :
    txId epoch tick slot ≠ Namespace.transactionBound := by
  intro h
  have hbound : Namespace.transactionBound.toList = List.replicate 60 'z' := String.toList_ofList
  obtain ⟨padding, hid⟩ := toList_txId epoch tick slot
  rw [h, hbound] at hid
  have hfirst : 'e' ∈ List.replicate 60 'z' := by
    rw [hid]
    exact List.mem_cons_self
  exact absurd (List.eq_of_mem_replicate hfirst) (by decide)

/-- A text that transactions and their statuses can be stored under: sixty lower-case letters whose
keys lie in the ranges of both namespaces. -/
structure IsTransactionId (t : String) : Prop where
  length : t.length = 60
  lower : ∀ c ∈ t.toList, 'a' ≤ c ∧ c ≤ 'z'
  transaction : (KeyRange.ofNamespace .transaction).contains (Key.text .transaction t) = true
  status :
    (KeyRange.ofNamespace .transactionStatus).contains (Key.text .transactionStatus t) = true

lemma isTransactionId_txId (epoch tick : UInt32) {slot : Nat} (h : slot < 2 ^ 64) :
    IsTransactionId (txId epoch tick slot) := by
  have hlength := length_txId epoch tick h
  have hreach : (RecordId.text (txId epoch tick slot)).InReach :=
    RecordId.inReach_of_lower hlength (fun _ => lower_of_mem_txId)
      (txId_ne_transactionBound epoch tick slot)
  exact ⟨hlength, fun _ => lower_of_mem_txId, (KeyRange.contains_encode_iff_inReach rfl).2 hreach,
    (KeyRange.contains_encode_iff_inReach rfl).2 hreach⟩

/-- Whatever the epoch, the tick and the slot, their id is one that a transaction can be stored
under, and the three can be told from it. -/
theorem txId_identifies :
    (∀ (epoch tick : UInt32) (slot : UInt64), IsTransactionId (txId epoch tick slot.toNat)) ∧
      ∀ (epoch tick epoch' tick' : UInt32) (slot slot' : UInt64),
        txId epoch tick slot.toNat = txId epoch' tick' slot'.toNat →
          epoch = epoch' ∧ tick = tick' ∧ slot = slot' := by
  refine ⟨fun epoch tick slot => isTransactionId_txId epoch tick slot.toNat_lt, ?_⟩
  intro epoch tick epoch' tick' slot slot' h
  obtain ⟨hepoch, htick, hslot⟩ := txId_inj h
  exact ⟨hepoch, htick, UInt64.toNat_inj.1 hslot⟩

/-- The longest id is as long as all others, and moving a digit from the tick to the slot changes
the id, also where the digits look like marks. -/
theorem txId_identifies_lookalikes :
    IsTransactionId (txId 4294967295 4294967295 18446744073709551615) ∧
      txId 4 44 4 ≠ txId 4 4 44 ∧ txId 44 4 4 ≠ txId 4 44 4 := by
  obtain ⟨hfit, hinj⟩ := txId_identifies
  exact ⟨hfit _ _ 18446744073709551615, fun h => absurd (hinj _ _ _ _ 4 44 h).2.1 (by decide),
    fun h => absurd (hinj _ _ _ _ 4 4 h).1 (by decide)⟩

end EpochSplit.SampleArchive
