import EpochSplit.Proofs.Maps
import EpochSplit.Proofs.Wire.Reads
import EpochSplit.Wire.Schema
/-!
# Records read back

What it takes for a record to be read back from what is written for it: each scalar is read back
(`Scalar.Lawful`), each kind of field is merged back from the absent value (`FieldKind.Lawful`), and
the fields of a layout can be told apart and make up the record (`Schema.Lawful`).  The laws of a
layout follow from those of its fields, and `Schema.decode_encode` from the laws.

The laws of fields and layouts speak of a budget, the depth to which records may lie in one another.
-/

namespace EpochSplit

namespace Wire

/-! ### Scalars -/

/-- A scalar is read back from what is written for it, whatever follows. -/
class Scalar.Lawful {α : Type} (s : Scalar α) : Prop where
  eq_default : ∀ {v}, s.isDefault v = true → v = s.default
  write_ne_nil : ∀ v, s.write v ≠ []
  read_write : ∀ {v}, (s.write v).length < 2 ^ 64 →
    ∀ rest, s.read (s.write v ++ rest) = .ok (v, rest)

namespace Scalar

instance : uint32.Lawful where
  eq_default h := by simpa [uint32] using h
  write_ne_nil _ := Varint.write_ne_nil _
  read_write {n} _ rest := by
    have hn : n.toNat < 2 ^ 64 := Nat.lt_trans n.toNat_lt (by decide)
    simp only [uint32, readNumber_write hn, bind, Except.bind, UInt32.ofNat_toNat]

instance : uint64.Lawful where
  eq_default h := by simpa [uint64] using h
  write_ne_nil _ := Varint.write_ne_nil _
  read_write {n} _ rest := by
    simp only [uint64, readNumber_write n.toNat_lt, bind, Except.bind, UInt64.ofNat_toNat]

instance : int64.Lawful where
  eq_default h := by simpa [int64] using h
  write_ne_nil _ := Varint.write_ne_nil _
  read_write {n} _ rest := by
    simp only [int64, readNumber_write n.toUInt64.toNat_lt, bind, Except.bind, UInt64.ofNat_toNat,
      Int64.toInt64_toUInt64]

/-- The low half of a widened number is the number. -/
private lemma setWidth_signExtend (x : BitVec 32) : (x.signExtend 64).setWidth 32 = x := by
  refine BitVec.eq_of_getLsbD_eq fun i hi => ?_
  rw [BitVec.getLsbD_setWidth, BitVec.getLsbD_signExtend]
  simp only [hi, decide_true, Bool.true_and, if_true, Bool.and_eq_right_iff_imp, decide_eq_true_eq]
  omega

instance : int32.Lawful where
  eq_default h := by simpa [int32] using h
  write_ne_nil _ := Varint.write_ne_nil _
  read_write {n} _ rest := by
    have hlow : (UInt32.ofNat n.toInt64.toUInt64.toNat).toInt32 = n := by
      apply Int32.toBitVec_inj.1
      simpa using setWidth_signExtend n.toBitVec
    simp only [int32, readNumber_write n.toInt64.toUInt64.toNat_lt, bind, Except.bind, hlow]

instance : bool.Lawful where
  eq_default h := by simpa [bool] using h
  write_ne_nil _ := Varint.write_ne_nil _
  read_write {b} _ rest := by cases b <;> rfl

instance : bytes.Lawful where
  eq_default h := by simpa [bytes] using h
  write_ne_nil b := writeDelimited_ne_nil b
  read_write {b} h rest := by
    simp only [bytes, length_writeDelimited] at h
    exact readDelimited_write (by omega) rest

instance : text.Lawful where
  eq_default h := by simpa [text] using h
  write_ne_nil t := writeDelimited_ne_nil (Bytes.ofText t)
  read_write {t} h rest := by
    simp only [text, length_writeDelimited] at h
    have ht : (Bytes.ofText t).length < 2 ^ 64 := by omega
    simp only [text, readDelimited_write ht, bind, Except.bind, Bytes.toText?_ofText]

end Scalar

/-! ### The laws of fields and layouts -/

/-- The contents written under a number are merged one after the other and take `a` to `b`. -/
inductive FieldKind.Merges {α : Type} (k : FieldKind α) (budget number : Nat) :
    α → Bytes → α → Prop
  | done (a : α) : Merges k budget number a [] a
  | next {a b c : α} {wire : WireType} {content bytes : Bytes}
      (first : ∀ rest, k.merge budget wire a (content ++ rest) = .ok (b, rest))
      (more : Merges k budget number b bytes c) :
      Merges k budget number a (Header.write ⟨number, wire⟩ ++ content ++ bytes) c

/-- A value is merged back from what is written for it, starting from the absent value. -/
class FieldKind.Lawful {α : Type} (k : FieldKind α) (budget : Nat) : Prop where
  merges_write : ∀ {number v}, (k.write number v).length < 2 ^ 64 →
    k.Merges budget number k.absent (k.write number v) v

/-- A field has a number that fits a header, and it holds what it was set to last. -/
structure Field.Lawful {M : Type} (f : Field M) (budget : Nat) : Prop where
  number : FieldNumber f.number := by decide
  kind : f.kind.Lawful budget := by infer_instance
  get_set : ∀ m v, f.get (f.set m v) = v := by intros; rfl
  set_set : ∀ m v w, f.set (f.set m v) w = f.set m w := by intros; rfl
  set_get : ∀ m, f.set m (f.get m) = m := by intros; rfl

/-- The fields of a layout can be told apart, do not touch each other, and make up the record.  For
a layout that is given as a list of fields, all of this is seen field by field. -/
class Schema.Lawful {M : Type} (s : Schema M) (budget : Nat) : Prop where
  fields : ∀ f ∈ s.fields, f.Lawful budget := by
    repeat refine List.forall_mem_cons.2 ⟨{}, ?_⟩
    exact List.forall_mem_nil _
  absent : ∀ f ∈ s.fields, f.get s.empty = f.kind.absent := by
    repeat refine List.forall_mem_cons.2 ⟨rfl, ?_⟩
    exact List.forall_mem_nil _
  numbers : (s.fields.map (·.number)).Nodup := by decide
  apart : s.fields.Pairwise fun f g =>
      (∀ m v, g.get (f.set m v) = g.get m) ∧ ∀ m v, f.get (g.set m v) = f.get m := by
    repeat
      refine List.Pairwise.cons ?_ ?_
      · repeat refine List.forall_mem_cons.2 ⟨⟨fun _ _ => rfl, fun _ _ => rfl⟩, ?_⟩
        exact List.forall_mem_nil _
    exact List.Pairwise.nil
  rebuild : ∀ m, s.fields.foldl (fun r f => f.set r (f.get m)) s.empty = m := by intros; rfl

/-! ### Reading a record -/

namespace Schema

variable {M : Type} {s : Schema M} {budget : Nat}

lemma find?_number (h : s.Lawful budget) {f : Field M} (hf : f ∈ s.fields) :
    s.fields.find? (·.number == f.number) = some f := by
  obtain ⟨before, after, hsplit⟩ := List.append_of_mem hf
  rw [List.find?_eq_some_iff_append]
  refine ⟨by simp, before, after, hsplit, fun g hg => ?_⟩
  have hnumbers := h.numbers
  rw [hsplit, List.map_append, List.map_cons, List.nodup_append] at hnumbers
  simpa using hnumbers.2.2 _ (List.mem_map_of_mem hg) _ List.mem_cons_self

/-- What is merged into a field of its own is read into the field of a record. -/
lemma reads_field (h : s.Lawful budget) {f : Field M} (hf : f ∈ s.fields) {a b : f.Value}
    {bytes : Bytes} (hmerges : f.kind.Merges budget f.number a bytes b) (m : M) :
    Reads (s.step budget) (f.set m a) bytes (f.set m b) := by
  obtain ⟨hnumber, -, hget, hset, -⟩ := h.fields f hf
  induction hmerges with
  | done a => exact .done _
  | @next a b c wire content bytes first _ ih =>
      refine .next (by simp) (fun rest => ?_) ih
      rw [List.append_assoc, step, readHeader_write hnumber]
      simp only [bind, Except.bind, mergeField, find?_number h hf, hget, first, hset]

/-- Fields that are absent so far are read one after the other. -/
lemma reads_fields (h : s.Lawful budget) (m : M) {fields : List (Field M)}
    (hsub : fields.Sublist s.fields) {r : M} (habsent : ∀ f ∈ fields, f.get r = f.kind.absent)
    (hlength : (fields.flatMap fun f => f.kind.write f.number (f.get m)).length < 2 ^ 64) :
    Reads (s.step budget) r (fields.flatMap fun f => f.kind.write f.number (f.get m))
      (fields.foldl (fun r f => f.set r (f.get m)) r) := by
  induction fields generalizing r with
  | nil => exact .done r
  | cons f fields ih =>
      have hf : f ∈ s.fields := hsub.subset List.mem_cons_self
      have hlaw := h.fields f hf
      have hapart := List.pairwise_cons.1 (h.apart.sublist hsub)
      rw [List.flatMap_cons, List.length_append] at hlength
      have hmerges : f.kind.Merges budget f.number f.kind.absent
          (f.kind.write f.number (f.get m)) (f.get m) := hlaw.kind.merges_write (by omega)
      rw [← habsent f List.mem_cons_self] at hmerges
      have hfirst := reads_field h hf hmerges r
      rw [hlaw.set_get] at hfirst
      -- setting this field leaves those that follow absent
      refine hfirst.append (ih (List.sublist_of_cons_sublist hsub) (fun g hg => ?_) (by omega))
      rw [(hapart.1 g hg).1, habsent g (List.mem_cons_of_mem _ hg)]

lemma reads_encode (h : s.Lawful budget) {m : M} (hlength : (s.encode m).length < 2 ^ 64) :
    Reads (s.step budget) s.empty (s.encode m) m := by
  have hreads := reads_fields h m (List.Sublist.refl _) h.absent hlength
  rwa [h.rebuild] at hreads

lemma decode_of_reads {bytes : Bytes} {m : M} (h : Reads (s.step depthLimit) s.empty bytes m) :
    s.decode bytes = .ok m := by
  have hloop := h.repeatAbove [] (Nat.le_refl _)
  rw [List.append_nil, List.length_nil] at hloop
  rw [decode, hloop]
  rfl

/-- A record is read back from what is written for it. -/
theorem decode_encode [h : s.Lawful depthLimit] {m : M} (hlength : (s.encode m).length < 2 ^ 64) :
    s.decode (s.encode m) = .ok m :=
  decode_of_reads (reads_encode h hlength)

/-- A record inside a record takes one of the budget. -/
lemma mergeDelimited_encode (budget : Nat) [h : s.Lawful budget] {m : M}
    (hlength : (s.encode m).length < 2 ^ 64) (rest : Bytes) :
    s.mergeDelimited (budget + 1) .lengthDelimited s.empty (writeDelimited (s.encode m) ++ rest) =
      .ok (m, rest) := by
  simp only [mergeDelimited, expectWire, bind, Except.bind, if_true]
  exact (reads_encode h hlength).repeatDelimited hlength rest

end Schema

/-! ### The kinds of field -/

namespace FieldKind

variable {α M κ : Type} {budget number : Nat}

section Merges

variable {k : FieldKind α} {a b c : α} {bytes more : Bytes}

lemma Merges.single {wire : WireType} {content : Bytes}
    (h : ∀ rest, k.merge budget wire a (content ++ rest) = .ok (b, rest)) :
    k.Merges budget number a (Header.write ⟨number, wire⟩ ++ content) b := by
  have hall : k.Merges budget number a (Header.write ⟨number, wire⟩ ++ content ++ []) b :=
    .next h (.done b)
  rwa [List.append_nil] at hall

lemma Merges.append (h : k.Merges budget number a bytes b)
    (hmore : k.Merges budget number b more c) : k.Merges budget number a (bytes ++ more) c := by
  induction h with
  | done _ => exact hmore
  | next first _ ih =>
      rw [List.append_assoc]
      exact .next first (ih hmore)

/-- Members that are written one by one are merged one by one. -/
lemma merges_flatMap (k : FieldKind α) (budget number : Nat) {γ : Type} {write : γ → Bytes}
    (add : α → γ → α) {members : List γ}
    (hlength : (members.flatMap write).length < 2 ^ 64)
    (hone : ∀ x a, (write x).length < 2 ^ 64 → k.Merges budget number a (write x) (add a x))
    (a : α) : k.Merges budget number a (members.flatMap write) (members.foldl add a) := by
  induction members generalizing a with
  | nil => exact .done a
  | cons x members ih =>
      rw [List.flatMap_cons, List.length_append] at hlength
      rw [List.flatMap_cons, List.foldl_cons]
      exact (hone x a (by omega)).append (ih (by omega) _)

lemma foldl_concat (vs before : List α) :
    vs.foldl (fun vs v => vs ++ [v]) before = before ++ vs := by
  induction vs generalizing before with
  | nil => simp
  | cons v vs ih => simp [ih]

end Merges

instance (s : Scalar α) [h : s.Lawful] : (scalar s).Lawful budget where
  merges_write {number v} hlength := by
    simp only [scalar] at hlength ⊢
    split
    · next hdefault =>
        rw [h.eq_default hdefault]
        exact .done _
    · next hwritten =>
        rw [if_neg hwritten, List.length_append] at hlength
        have hread := h.read_write (v := v) (by omega)
        refine .single fun rest => ?_
        simp only [expectWire, if_true, bind, Except.bind, hread]

instance (s : Scalar α) [h : s.Lawful] : (repeated s).Lawful budget where
  merges_write {number vs} hlength := by
    have hmerges := merges_flatMap (repeated s) budget number
      (fun vs v => vs ++ [v]) hlength (fun v vs hv => ?_) []
    · rwa [foldl_concat] at hmerges
    · rw [List.length_append] at hv
      have hread := h.read_write (v := v) (by omega)
      refine .single fun rest => ?_
      simp only [repeated, expectWire, if_true, bind, Except.bind, hread]

/-- Scalars that are written one after the other are read one after the other. -/
lemma reads_flatMap_write (s : Scalar α) [h : s.Lawful] {vs : List α}
    (hlength : (vs.flatMap s.write).length < 2 ^ 64) (before : List α) :
    Reads (fun vs input => do
      let (v, rest) ← s.read input
      .ok (vs ++ [v], rest)) before (vs.flatMap s.write) (before ++ vs) := by
  induction vs generalizing before with
  | nil =>
      rw [List.append_nil]
      exact .done before
  | cons v vs ih =>
      rw [List.flatMap_cons, List.length_append] at hlength
      rw [List.flatMap_cons, List.append_cons]
      have hread := h.read_write (v := v) (by omega)
      refine .next (h.write_ne_nil v) (fun rest => ?_) (ih (by omega) _)
      simp only [hread, bind, Except.bind]

instance (s : Scalar α) [h : s.Lawful] : (packed s).Lawful budget where
  merges_write {number vs} hlength := by
    simp only [packed] at hlength ⊢
    split
    · next hempty =>
        rw [List.isEmpty_iff.1 hempty]
        exact .done _
    · next hmore =>
        rw [if_neg hmore, List.length_append, length_writeDelimited] at hlength
        have hcontent : (vs.flatMap s.write).length < 2 ^ 64 := by omega
        refine .single fun rest => ?_
        simp only [if_true]
        exact (reads_flatMap_write s hcontent []).repeatDelimited hcontent rest

variable {s : Schema M}

lemma merge_optional [s.Lawful budget] {m : M} (hlength : (s.encode m).length < 2 ^ 64)
    (rest : Bytes) :
    (optional s).merge (budget + 1) .lengthDelimited none (writeDelimited (s.encode m) ++ rest) =
      .ok (some m, rest) := by
  have hmerge := Schema.mergeDelimited_encode (s := s) budget hlength
  simp only [optional, Option.getD_none, hmerge, bind, Except.bind]

instance [s.Lawful budget] : (optional s).Lawful (budget + 1) where
  merges_write {number m?} hlength := by
    cases m? with
    | none => exact .done _
    | some m =>
        simp only [optional, List.length_append, length_writeDelimited] at hlength
        exact .single (merge_optional (by omega))

instance [s.Lawful budget] : (records s).Lawful (budget + 1) where
  merges_write {number ms} hlength := by
    have hmerges := merges_flatMap (records s) (budget + 1) number
      (fun ms m => ms ++ [m]) hlength (fun m ms hm => ?_) []
    · rwa [foldl_concat] at hmerges
    · rw [List.length_append, length_writeDelimited] at hm
      have hmerge := Schema.mergeDelimited_encode (s := s) budget (m := m) (by omega)
      refine .single fun rest => ?_
      simp only [records, hmerge, bind, Except.bind]

/-- A pair of a map is read back.  A record without content is not written, and is the empty
one. -/
lemma reads_writePair (key : Scalar κ) [hkey : key.Lawful] (budget : Nat) [h : s.Lawful budget]
    {p : κ × M}
    (hlength : (writePair key s p).length < 2 ^ 64) :
    Reads (readPairField key s (budget + 1)) (key.default, s.empty) (writePair key s p) p := by
  obtain ⟨k, m⟩ := p
  rw [writePair, List.length_append] at hlength
  refine Reads.append (b := (k, s.empty)) ?_ ?_
  · simp only [scalar] at hlength ⊢
    split
    · next hdefault =>
        rw [hkey.eq_default hdefault]
        exact .done _
    · next hwritten =>
        rw [if_neg hwritten, List.length_append] at hlength
        have hread := hkey.read_write (v := k) (by omega)
        refine .single (by simp) fun rest => ?_
        rw [List.append_assoc, readPairField, readHeader_write (by decide)]
        simp only [bind, Except.bind, scalar, expectWire, if_true, hread]
  · dsimp only at hlength ⊢
    split
    · next hempty =>
        have hreads := Schema.reads_encode h (m := m) (by rw [List.isEmpty_iff.1 hempty]; decide)
        rw [List.isEmpty_iff.1 hempty] at hreads
        rw [hreads.eq_of_nil]
        exact .done _
    · next hcontent =>
        rw [if_neg hcontent, List.length_append, length_writeDelimited] at hlength
        have hmerge := Schema.mergeDelimited_encode (s := s) budget (m := m) (by omega)
        refine .single (by simp) fun rest => ?_
        rw [List.append_assoc, readPairField, readHeader_write (by decide)]
        simp only [bind, Except.bind, hmerge]

variable [Ord κ] [Std.TransOrd κ]

lemma merge_map (key : Scalar κ) [key.Lawful] [s.Lawful budget] {p : κ × M}
    (hlength : (writePair key s p).length < 2 ^ 64) (wire : WireType) (ps : Std.ExtTreeMap κ M)
    (rest : Bytes) :
    (map key s).merge (budget + 2) wire ps (writeDelimited (writePair key s p) ++ rest) =
      .ok (ps.insert p.1 p.2, rest) := by
  have hreads := reads_writePair key (s := s) budget hlength
  simp only [map, hreads.repeatDelimited hlength, bind, Except.bind]

variable [DecidableEq κ] [Std.LawfulEqOrd κ]

instance (key : Scalar κ) [key.Lawful] [s.Lawful budget] : (map key s).Lawful (budget + 2) where
  merges_write {number ps} hlength := by
    have hmerges := merges_flatMap (map key s) (budget + 2) number
      (fun ps p => ps.insert p.1 p.2) hlength (fun p ps hp => ?_) ∅
    · rwa [foldl_insert_of_perm (List.Perm.refl _)] at hmerges
    · rw [List.length_append, length_writeDelimited] at hp
      exact .single (merge_map key (by omega) .lengthDelimited ps)

end FieldKind

end Wire

end EpochSplit
