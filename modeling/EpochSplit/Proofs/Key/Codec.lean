import EpochSplit.Key
import Mathlib.Algebra.Group.Nat.Defs
import Mathlib.Data.List.Induction
import Mathlib.Tactic.Common
/-!
# Keys that can be read

The key of an id that fits its namespace is read as that id (`decode_encode`), and a key that can
be read is the key of the id that is read from it (`encode_of_decode`).  So different ids have
different keys (`decode_bijective`), and a record that is moved under the key of its tick stays
under the key that it had.
-/

namespace EpochSplit

/-! ### Numbers in eight bytes -/

namespace Bytes

lemma ofBigEndian_concat (bs : Bytes) (b : UInt8) :
    ofBigEndian (bs ++ [b]) = ofBigEndian bs * 256 + b.toNat := by
  simp [ofBigEndian]

lemma ofBigEndian_lt (bs : Bytes) : ofBigEndian bs < 256 ^ bs.length := by
  induction bs using List.reverseRecOn with
  | nil => decide
  | append_singleton bs b ih =>
      have hb : b.toNat < 256 := b.toNat_lt
      rw [ofBigEndian_concat, List.length_append, List.length_singleton, Nat.pow_succ]
      omega

/-- A number is written with the bytes that it was read from. -/
theorem bigEndian_ofBigEndian (bs : Bytes) : bigEndian bs.length (ofBigEndian bs) = bs := by
  induction bs using List.reverseRecOn with
  | nil => rfl
  | append_singleton bs b ih =>
      have hb : b.toNat < 256 := b.toNat_lt
      have hquot : (ofBigEndian bs * 256 + b.toNat) / 256 = ofBigEndian bs := by omega
      rw [ofBigEndian_concat, List.length_append, List.length_singleton, bigEndian, hquot, ih]
      simp

lemma bigEndian_of_length {bs : Bytes} (h : bs.length = 8) :
    bigEndian 8 (UInt64.ofNat (ofBigEndian bs)).toNat = bs := by
  have hlt : ofBigEndian bs < 2 ^ 64 := by
    have hlt' := ofBigEndian_lt bs
    rw [h] at hlt'
    omega
  have hbytes := bigEndian_ofBigEndian bs
  rw [h] at hbytes
  rw [UInt64.toNat_ofNat_of_lt' hlt, hbytes]

/-- A number is read back from the bytes that it is written with. -/
theorem ofBigEndian_bigEndian {width n : Nat} (h : n < 256 ^ width) :
    ofBigEndian (bigEndian width n) = n := by
  induction width generalizing n with
  | zero => simp_all [bigEndian, ofBigEndian]
  | succ width ih =>
      rw [Nat.pow_succ] at h
      rw [bigEndian, ofBigEndian_concat, ih (by omega), UInt8.toNat_ofNat']
      omega

lemma ofBigEndian_word (n : UInt64) : UInt64.ofNat (ofBigEndian (bigEndian 8 n.toNat)) = n := by
  rw [ofBigEndian_bigEndian n.toNat_lt, UInt64.ofNat_toNat]

/-- A text is written with the bytes that it was read from. -/
lemma ofText_of_toText? {bs : Bytes} {t : String} (h : toText? bs = some t) : ofText t = bs := by
  unfold toText? String.fromUTF8? at h
  split at h
  · cases h
    rfl
  · cases h

end Bytes

/-! ### Keys -/

namespace Key

lemma bytes_of_idOfBytes {shape : KeyShape} {body : Bytes} {id : RecordId}
    (h : idOfBytes shape body = .ok id) : id.bytes = body := by
  cases shape with
  | singleton =>
      simp only [idOfBytes] at h
      split at h
      · next hempty =>
          cases h
          exact (List.isEmpty_iff.1 hempty).symm
      · cases h
  | numeric =>
      simp only [idOfBytes] at h
      split at h
      · next hlength =>
          cases h
          exact Bytes.bigEndian_of_length hlength
      · cases h
  | text upper =>
      simp only [idOfBytes] at h
      split at h
      · next htext =>
          cases h
          exact Bytes.ofText_of_toText? htext
      · cases h
  | composite upper =>
      simp only [idOfBytes] at h
      split at h
      · cases h
      · next hlength =>
          split at h
          · next htext =>
              cases h
              have hdrop : (body.drop (body.length - 8)).length = 8 := by
                rw [List.length_drop]
                omega
              rw [RecordId.bytes, Bytes.ofText_of_toText? htext, Bytes.bigEndian_of_length hdrop,
                List.take_append_drop]
          · cases h

lemma idOfBytes_bytes {shape : KeyShape} {id : RecordId} (h : id.fits shape = true) :
    idOfBytes shape id.bytes = .ok id := by
  cases id with
  | singleton => cases shape <;> first | rfl | cases h
  | numeric n =>
      cases shape with
      | numeric =>
          simp only [idOfBytes, RecordId.bytes, Bytes.length_bigEndian, if_true,
            Bytes.ofBigEndian_word]
      | _ => cases h
  | text t =>
      cases shape with
      | text upper => simp only [idOfBytes, RecordId.bytes, Bytes.toText?_ofText]
      | _ => cases h
  | composite t n =>
      cases shape with
      | composite upper =>
          -- the number takes up the last eight bytes
          have hlength : (Bytes.ofText t ++ Bytes.bigEndian 8 n.toNat).length =
              (Bytes.ofText t).length + 8 := by
            rw [List.length_append, Bytes.length_bigEndian]
          simp only [idOfBytes, RecordId.bytes, hlength, Nat.not_lt.2 (Nat.le_add_left 8 _),
            if_false, Nat.add_sub_cancel, List.take_left, List.drop_left, Bytes.toText?_ofText,
            Bytes.ofBigEndian_word]
      | _ => cases h

/-- What is read as an id of a shape is of that shape. -/
lemma fits_of_idOfBytes {shape : KeyShape} {body : Bytes} {id : RecordId}
    (h : idOfBytes shape body = .ok id) : id.fits shape = true := by
  cases shape with
  | composite upper =>
      simp only [idOfBytes] at h
      split at h
      · cases h
      · split at h
        · cases h
          rfl
        · cases h
  | _ =>
      simp only [idOfBytes] at h
      split at h
      · cases h
        rfl
      · cases h

/-- The key of an id that fits its namespace is read as that id. -/
theorem decode_encode {ns : Namespace} {id : RecordId} (h : id.fits ns.shape = true) :
    decode ns (encode ns id) = .ok id := by
  simp only [decode, encode, if_true, idOfBytes_bytes h]
  rfl

/-- A key that can be read is the key of the id that is read from it. -/
theorem encode_of_decode {ns : Namespace} {key : Bytes} {id : RecordId}
    (h : decode ns key = .ok id) : encode ns id = key := by
  unfold decode at h
  cases key with
  | nil => cases h
  | cons tag body =>
      simp only at h
      split at h
      · next htag =>
          rcases hbody : idOfBytes ns.shape body with reason | id'
          · rw [hbody] at h
            cases h
          · rw [hbody] at h
            cases h
            rw [encode, bytes_of_idOfBytes hbody, htag]
      · cases h

lemma fits_of_decode {ns : Namespace} {key : Bytes} {id : RecordId} (h : decode ns key = .ok id) :
    id.fits ns.shape = true := by
  unfold decode at h
  cases key with
  | nil => cases h
  | cons tag body =>
      simp only at h
      split at h
      · rcases hbody : idOfBytes ns.shape body with reason | id'
        · rw [hbody] at h
          cases h
        · rw [hbody] at h
          cases h
          exact fits_of_idOfBytes hbody
      · cases h

lemma numeric_of_decode {ns : Namespace} (hns : ns.shape = .numeric) {key : Bytes} {id : RecordId}
    (h : decode ns key = .ok id) : ∃ n, id = .numeric n := by
  have hfits := fits_of_decode h
  rw [hns] at hfits
  cases id with
  | numeric n => exact ⟨n, rfl⟩
  | _ => cases hfits

lemma toUInt64_toUInt32 {n : UInt64} (h : n.toNat < UInt32.size) : n.toUInt32.toUInt64 = n := by
  apply UInt64.toNat_inj.1
  simp only [UInt32.toNat_toUInt64, UInt64.toNat_toUInt32]
  exact Nat.mod_eq_of_lt h

/-- A key in which a tick can be read is the key of that tick. -/
theorem word_of_decodeTick {ns : Namespace} (hns : ns.shape = .numeric) {key : Bytes}
    {tick : UInt32} (h : decodeTick ns key = .ok tick) : word ns tick = key := by
  unfold decodeTick at h
  rcases hid : decode ns key with fault | id
  · rw [hid] at h
    cases h
  · obtain ⟨n, rfl⟩ := numeric_of_decode hns hid
    rw [hid] at h
    simp only [bind, Except.bind, RecordId.number?] at h
    split at h
    · next hlt =>
        cases h
        rw [word, toUInt64_toUInt32 hlt, numeric, encode_of_decode hid]
    · cases h

lemma decode_word {ns : Namespace} (hns : ns.shape = .numeric) (n : UInt32) :
    decode ns (word ns n) = .ok (.numeric n.toUInt64) :=
  decode_encode (by rw [hns]; rfl)

/-- The tick is read back from its key. -/
lemma decodeTick_word {ns : Namespace} (hns : ns.shape = .numeric) (tick : UInt32) :
    decodeTick ns (word ns tick) = .ok tick := by
  have hlt : tick.toUInt64.toNat < UInt32.size := by
    rw [UInt32.toNat_toUInt64]
    exact tick.toNat_lt
  simp only [decodeTick, decode_word hns, bind, Except.bind, RecordId.number?, if_pos hlt,
    UInt32.toUInt32_toUInt64]
  rfl

/-- The epoch is read back from its key. -/
lemma decodeEpoch_word {ns : Namespace} (hns : ns.shape = .numeric) (epoch : UInt32) :
    decodeEpoch ns (word ns epoch) = .ok epoch := by
  have hlt : epoch.toUInt64.toNat < UInt32.size := by
    rw [UInt32.toNat_toUInt64]
    exact epoch.toNat_lt
  simp only [decodeEpoch, decode_word hns, bind, Except.bind, if_pos hlt,
    UInt32.toUInt32_toUInt64]
  rfl

/-- A key in which an epoch can be read is the key of that epoch. -/
lemma word_of_decodeEpoch {ns : Namespace} {key : Bytes} {epoch : UInt32}
    (h : decodeEpoch ns key = .ok epoch) : word ns epoch = key := by
  unfold decodeEpoch at h
  rcases hid : decode ns key with fault | id
  · rw [hid] at h
    cases h
  · rw [hid] at h
    cases id with
    | numeric n =>
        simp only [bind, Except.bind] at h
        split at h
        · next hlt =>
            cases h
            rw [word, toUInt64_toUInt32 hlt, numeric, encode_of_decode hid]
        · cases h
    | _ => cases h

/-- A key is read as the ids that fit the namespace and have it as their key. -/
lemma decode_eq_ok_iff {ns : Namespace} {key : Bytes} {id : RecordId} :
    decode ns key = .ok id ↔ id.fits ns.shape = true ∧ key = encode ns id := by
  refine ⟨fun h => ⟨fits_of_decode h, (encode_of_decode h).symm⟩, ?_⟩
  rintro ⟨hfits, rfl⟩
  exact decode_encode hfits

lemma decodeTick_eq_ok_iff {ns : Namespace} (hns : ns.shape = .numeric) {key : Bytes}
    {tick : UInt32} : decodeTick ns key = .ok tick ↔ key = word ns tick := by
  refine ⟨fun h => (word_of_decodeTick hns h).symm, ?_⟩
  rintro rfl
  exact decodeTick_word hns tick

lemma decodeEpoch_eq_ok_iff {ns : Namespace} (hns : ns.shape = .numeric) {key : Bytes}
    {epoch : UInt32} : decodeEpoch ns key = .ok epoch ↔ key = word ns epoch := by
  refine ⟨fun h => (word_of_decodeEpoch h).symm, ?_⟩
  rintro rfl
  exact decodeEpoch_word hns epoch

/-- Different ids have different keys. -/
lemma encode_inj {ns : Namespace} {id id' : RecordId} (hid : id.fits ns.shape = true)
    (hid' : id'.fits ns.shape = true) (h : encode ns id = encode ns id') : id = id' := by
  have hdecode := decode_encode hid
  rw [h, decode_encode hid'] at hdecode
  exact (Except.ok.inj hdecode).symm

lemma numeric_inj {ns : Namespace} {n n' : UInt64} (h : numeric ns n = numeric ns n') : n = n' := by
  have hbytes : Bytes.bigEndian 8 n.toNat = Bytes.bigEndian 8 n'.toNat := (List.cons.inj h).2
  rw [← Bytes.ofBigEndian_word n, hbytes, Bytes.ofBigEndian_word]

lemma word_inj {ns : Namespace} (hns : ns.shape = .numeric) {n n' : UInt32}
    (h : word ns n = word ns n') : n = n' := by
  have hid := encode_inj (by rw [hns]; rfl) (by rw [hns]; rfl) h
  exact UInt32.toUInt64_inj.1 (RecordId.numeric.inj hid)

lemma text_inj {ns : Namespace} {t t' : String} (ht : (RecordId.text t).fits ns.shape = true)
    (ht' : (RecordId.text t').fits ns.shape = true) (h : text ns t = text ns t') : t = t' :=
  RecordId.text.inj (encode_inj ht ht' h)

/-- Keys begin with the tag of their namespace, so no two namespaces have a key in common. -/
lemma namespace_inj {ns ns' : Namespace} {id id' : RecordId} (h : encode ns id = encode ns' id') :
    ns = ns' :=
  Namespace.tag_injective (List.cons.inj h).1

/-- In each namespace, the keys that can be read are those of the ids that fit it, and each is read
as its id: reading and writing are inverse to each other.  No key is shared, neither by two ids nor
by two namespaces.  Where ids are numbers, the keys in which a tick can be read are those of the
ticks. -/
theorem decode_bijective :
    (∀ ns key id, decode ns key = .ok id ↔ id.fits ns.shape = true ∧ key = encode ns id) ∧
      (∀ ns ns' (id id' : RecordId), id.fits ns.shape = true → id'.fits ns'.shape = true →
        encode ns id = encode ns' id' → ns = ns' ∧ id = id') ∧
      ∀ ns : Namespace, ns.shape = .numeric →
        ∀ key tick, decodeTick ns key = .ok tick ↔ key = word ns tick := by
  refine ⟨fun ns key id => decode_eq_ok_iff, ?_, fun ns hns key tick => decodeTick_eq_ok_iff hns⟩
  intro ns ns' id id' hid hid' h
  obtain rfl := namespace_inj h
  exact ⟨rfl, encode_inj hid hid' h⟩

/-- A text whose last eight bytes look like a number is told apart from the shorter text with that
number, and a number of more than 32 bits is read as an id but not as a tick. -/
theorem decode_bijective_lookalikes :
    decode .identityTransferTransactions
        (encode .identityTransferTransactions (.composite "AAAAAAAAA" 7)) =
          .ok (.composite "AAAAAAAAA" 7) ∧
      encode .identityTransferTransactions (.composite "AAAAAAAAA" 7) ≠
        encode .identityTransferTransactions (.composite "A" 0x4141414141414141) ∧
      decode .tickData [0x00, 0, 0, 0, 1, 0, 0, 0, 0] = .ok (.numeric 0x100000000) ∧
      ∀ tick, decodeTick .tickData [0x00, 0, 0, 0, 1, 0, 0, 0, 0] ≠ .ok tick := by
  obtain ⟨hdecode, hinj, htick⟩ := decode_bijective
  refine ⟨(hdecode _ _ _).2 ⟨rfl, rfl⟩, fun h => ?_, (hdecode _ _ _).2 ⟨rfl, by decide⟩,
    fun tick h => ?_⟩
  · exact absurd (hinj _ _ _ _ rfl rfl h).2 (by decide)
  · have hkey : encode .tickData (.numeric 0x100000000) = encode .tickData (.ofWord tick) :=
      (htick .tickData rfl _ tick).1 h
    have hnumber := encode_inj rfl rfl hkey
    have hbound : 0x100000000 = tick.toNat := congrArg UInt64.toNat (RecordId.numeric.inj hnumber)
    have hlt : tick.toNat < 0x100000000 := tick.toNat_lt
    exact absurd hbound.symm (Nat.ne_of_lt hlt)

end Key

end EpochSplit
